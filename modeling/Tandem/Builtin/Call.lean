import Tandem.Host
import Tandem.Value.Printer
/-!
Calling the built-in functions. They take any number of arguments of any type; what they cannot
deal with they answer with an error value. None of them changes an array: a longer or shorter one
is a new array.
-/
namespace Tandem

/-- Why a built-in function answers with an error. -/
inductive BuiltinError where
  | wrongArity (got want : Nat)
  /-- The argument has no length. -/
  | noLength (typeName : String)
  | notArray (b : Builtin) (typeName : String)
  deriving DecidableEq, Repr

def BuiltinError.message : BuiltinError → String
  | wrongArity got want =>
    "wrong number of arguments. got=" ++ toString got ++ ", want=" ++ toString want
  | noLength typeName => "argument to \x60len\x60 not supported, got " ++ typeName
  | notArray b typeName => "argument to \x60" ++ b.name ++ "\x60 must be ARRAY, got " ++ typeName

namespace Builtin

def fail (cause : BuiltinError) : StateM Host Value := do
  return .error (← Host.freshLabel) cause.message

def answerArray (elements : List Value) : StateM Host Value := do
  return .array (← Host.freshLabel) elements

/-- Prints the texts of values, each on a line of its own. -/
def printAll (values : List Value) : StateM Host Unit :=
  values.forM fun value => modify (Host.print value.text)

def call (b : Builtin) (arguments : List Value) : StateM Host Value :=
  match b, arguments with
  | len, [.string _ text] => return .integer (Int64.ofNat text.utf8ByteSize)
  | len, [.array _ elements] => return .integer (Int64.ofNat elements.length)
  | len, [value] => fail (.noLength value.typeName)
  | puts, values => do
    printAll values
    return .null
  | first, [.array _ elements] => return elements.head?.getD .null
  | last, [.array _ elements] => return elements.getLast?.getD .null
  | rest, [.array _ []] => return .null
  | rest, [.array _ (_ :: elements)] => answerArray elements
  | push, [.array _ elements, value] => answerArray (elements ++ [value])
  | push, [value, _] => fail (.notArray push value.typeName)
  | push, _ => fail (.wrongArity arguments.length 2)
  | b, [value] => fail (.notArray b value.typeName)
  | _, _ => fail (.wrongArity arguments.length 1)

end Builtin

end Tandem
