/-!
The instruction set. Each instruction is one byte, its opcode, followed by the operands that the
opcode announces. This module holds the byte, the written name and the operand widths of every
opcode.
-/
namespace Tandem

/-- The opcodes, in the order of their bytes. -/
inductive Opcode where
  /-- Push the pool entry that the operand names. -/
  | constant
  /-- Drop the top of the stack. -/
  | pop
  | pushTrue
  | pushFalse
  | pushNull
  | add
  | subtract
  | multiply
  | divide
  | equal
  | notEqual
  | greater
  /-- Arithmetic negation. -/
  | negate
  /-- Logical negation, by truthiness. -/
  | not
  | jumpUnlessTruthy
  | jump
  | getGlobal
  | setGlobal
  | getLocal
  | setLocal
  | getBuiltin
  | getFree
  /-- Collect the counted values into an array. -/
  | array
  /-- Collect the counted keys and values, which alternate, into a hash. -/
  | hash
  | index
  | call
  | returnValue
  | returnNull
  /-- Pair a compiled function of the pool with the counted free values. -/
  | closure
  | currentClosure
  deriving DecidableEq, Repr, Inhabited

namespace Opcode

def all : List Opcode :=
  [constant, pop, pushTrue, pushFalse, pushNull, add, subtract, multiply, divide, equal, notEqual,
   greater, negate, not, jumpUnlessTruthy, jump, getGlobal, setGlobal, getLocal, setLocal,
   getBuiltin, getFree, array, hash, index, call, returnValue, returnNull, closure,
   currentClosure]

/-- The byte of an opcode is its place among all opcodes. -/
def toByte (op : Opcode) : UInt8 := UInt8.ofNat op.ctorIdx

def ofByte? (byte : UInt8) : Option Opcode := all[byte.toNat]?

theorem ofByte?_toByte (op : Opcode) : ofByte? op.toByte = some op := by
  cases op <;> rfl

/-- The name under which a listing or an error message shows the opcode. -/
def name : Opcode → String
  | constant => "Constant"
  | pop => "Pop"
  | pushTrue => "True"
  | pushFalse => "False"
  | pushNull => "Null"
  | add => "Add"
  | subtract => "Sub"
  | multiply => "Mul"
  | divide => "Div"
  | equal => "Equal"
  | notEqual => "NotEqual"
  | greater => "Greater"
  | negate => "Minus"
  | not => "Bang"
  | jumpUnlessTruthy => "JumpNotTruthy"
  | jump => "Jump"
  | getGlobal => "GetGlobal"
  | setGlobal => "SetGlobal"
  | getLocal => "GetLocal"
  | setLocal => "SetLocal"
  | getBuiltin => "GetBuiltin"
  | getFree => "GetFree"
  | array => "Array"
  | hash => "Hash"
  | index => "Index"
  | call => "Call"
  | returnValue => "ReturnValue"
  | returnNull => "Return"
  | closure => "Closure"
  | currentClosure => "CurrentClosure"

def ofName? (name : String) : Option Opcode := all.find? fun op => op.name == name

/-- The widths in bytes of the operands that follow the opcode, in order. -/
def operandWidths : Opcode → List Nat
  | getLocal | setLocal | getBuiltin | getFree | call => [1]
  | constant | jumpUnlessTruthy | jump | getGlobal | setGlobal | array | hash => [2]
  | closure => [2, 1]
  | _ => []

def operandSize (op : Opcode) : Nat := op.operandWidths.foldr (· + ·) 0

end Opcode

end Tandem
