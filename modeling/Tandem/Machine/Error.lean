import Tandem.Opcode
/-!
The errors that end a run of the machine. Each names its cause; the types in it are names of value
types.
-/
namespace Tandem

/-- Why a run ends early. The state that the machine is in by then can still be looked at. -/
inductive MachineError where
  | stackOverflow
  | unsupportedTypes (op : Opcode) (left right : String)
  | unsupportedStringOperator (op : Opcode)
  | unknownOperator (op : Opcode) (left right : String)
  | unsupportedNegation (typeName : String)
  | divisionByZero
  | unusableKey (typeName : String)
  | notIndexable (typeName : String)
  | notCallable (typeName : String)
  | wrongArity (want got : Nat)
  /-- A closure was to be made of a pool entry that is no compiled function. -/
  | notFunction (typeName : String)
  | unknownBuiltin (index : Nat)
  | unknownOpcode (byte : UInt8)
  deriving DecidableEq, Repr

namespace MachineError

def message : MachineError → String
  | stackOverflow => "stack overflow"
  | unsupportedTypes op left right =>
    "unsupported types for binary operation: " ++ left ++ " " ++ op.name ++ " " ++ right
  | unsupportedStringOperator op => "unsupported operator for string: " ++ op.name
  | unknownOperator op left right => "unknown operator: " ++ left ++ " " ++ op.name ++ " " ++ right
  | unsupportedNegation typeName => "unsupported type for negation: " ++ typeName
  | divisionByZero => "division by zero"
  | unusableKey typeName => "unusable as hash key: " ++ typeName
  | notIndexable typeName => "index operator not supported: " ++ typeName
  | notCallable typeName => "calling non-function and non-built-in: " ++ typeName
  | wrongArity want got =>
    "wrong number of arguments: want=" ++ toString want ++ ", got=" ++ toString got
  | notFunction typeName => "not a function: " ++ typeName
  | unknownBuiltin index => "unknown builtin index " ++ toString index
  | unknownOpcode byte => "unknown opcode " ++ toString byte.toNat

end MachineError

inductive Stop where
  | error (cause : MachineError)
  /-- The instructions ask for something that is not there: a missing operand byte, a slot or pool
  entry out of range, more values than are on the stack. Such a run has no result at all. -/
  | fault
  deriving DecidableEq, Repr

end Tandem
