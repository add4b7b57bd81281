import Tandem.Text.Quoted
import Tandem.Value.Printer
/-!
The detailed text of a value, for the people who look into an engine: it names the kind of every
part, quotes strings and spells out compiled code.
-/
namespace Tandem

open Text (quoted separated)

def Code.detail (code : Code) : String :=
  "Instructions \x7b code: [" ++ separated ", " (code.toList.map fun byte => toString byte.toNat)
    ++ "] \x7d"

def CompiledFunction.detail (function : CompiledFunction) : String :=
  "CompiledFunction \x7b instructions: " ++ function.code.detail ++ ", num_locals: "
    ++ toString function.locals ++ ", num_parameters: " ++ toString function.parameters ++ " \x7d"

/-- A key with the name of its kind. -/
def HashKey.detail : HashKey → String
  | integer n => "Integer(" ++ integerText n ++ ")"
  | boolean b => "Boolean(" ++ booleanText b ++ ")"
  | string text => "String(" ++ quoted text ++ ")"

namespace Value

mutual

def detail : Value → String
  | integer n => "Integer(" ++ integerText n ++ ")"
  | boolean b => "Boolean(" ++ booleanText b ++ ")"
  | string _ text => "String(" ++ quoted text ++ ")"
  | null => "Null"
  | array _ elements => "Array([" ++ separated ", " (details elements) ++ "])"
  | hash _ entries => "Hash(\x7b" ++ separated ", " (entryDetails entries) ++ "\x7d)"
  | function _ parameters body _ =>
    "Function(Function(" ++ functionHead parameters ++ " " ++ blockText body ++ "))"
  | builtin b => "BuiltIn(Builtin(" ++ b.name ++ "))"
  | error _ message => "Error(" ++ quoted message ++ ")"
  | returning value => "Return(" ++ detail value ++ ")"
  | compiled _ f => "CompiledFunction(" ++ f.detail ++ ")"
  | closure _ f free =>
    "Closure(Closure \x7b function: " ++ f.detail ++ ", free: ["
      ++ separated ", " (details free) ++ "] \x7d)"

def details : List Value → List String
  | [] => []
  | value :: rest => detail value :: details rest

/-- The detailed texts of the entries of a hash, in order. An entry shows what its key is told
apart by, then the key and the value. -/
def entryDetails : List (Key × Value) → List String
  | [] => []
  | (key, value) :: rest =>
    (key.hashKey.detail ++ ": HashPair \x7b key: " ++ key.hashKey.detail ++ ", value: "
      ++ detail value ++ " \x7d") :: entryDetails rest

end

end Value

end Tandem
