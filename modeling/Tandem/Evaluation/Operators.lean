import Tandem.Evaluation.Basic
import Tandem.Value.Equality
/-!
Operators and index access in trees. Integers wrap around at 64 bits and division rounds toward
zero; strings can only be put together; all other values can only be told apart, and only from
values of their own type.
-/
namespace Tandem.Evaluation

def unary (op : UnaryOp) (operand : Value) : Evaluation Value :=
  match op, operand with
  | .not, operand => return .boolean (!operand.isTruthy)
  | .negate, .integer n => return .integer (-n)
  | .negate, operand => fail (.unknownUnary .negate operand.typeName)

def integerBinary (a : Int64) (op : BinaryOp) (b : Int64) : Evaluation Value :=
  match op with
  | .add => return .integer (a + b)
  | .subtract => return .integer (a - b)
  | .multiply => return .integer (a * b)
  | .divide => if b = 0 then fail .divisionByZero else return .integer (a / b)
  | .less => return .boolean (a < b)
  | .greater => return .boolean (a > b)
  | .equal => return .boolean (a == b)
  | .notEqual => return .boolean (a != b)

def stringBinary (a : String) (op : BinaryOp) (b : String) : Evaluation Value :=
  match op with
  | .add => return .string (← freshLabel) (a ++ b)
  | op => fail (.unknownBinary "STRING" op "STRING")

/-- An operator between two values of one type that is neither integer nor string. -/
def identityBinary (left : Value) (op : BinaryOp) (right : Value) : Evaluation Value :=
  match op with
  | .equal => return .boolean (left.identical right)
  | .notEqual => return .boolean (!left.identical right)
  | op => fail (.unknownBinary left.typeName op right.typeName)

def binary (left : Value) (op : BinaryOp) (right : Value) : Evaluation Value :=
  match left, right with
  | .integer a, .integer b => integerBinary a op b
  | .string _ a, .string _ b => stringBinary a op b
  | left, right =>
    if left.typeName = right.typeName then identityBinary left op right
    else fail (.typeMismatch left.typeName op right.typeName)

/-- Access to an element of an array or to an entry of a hash. What is not there gives null. -/
def index (object key : Value) : Evaluation Value :=
  match object, key with
  | .array _ elements, .integer i =>
    match i.toInt with
    | .ofNat place => return elements[place]?.getD .null
    | .negSucc _ => return .null
  | .hash _ entries, key =>
    match key.hashKey? with
    | some hashKey => return (Entries.find? hashKey entries).getD .null
    | none => fail (.unusableKey key.typeName)
  | object, _ => fail (.notIndexable object.typeName)

end Tandem.Evaluation
