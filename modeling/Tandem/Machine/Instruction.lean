import Tandem.Code
/-!
Instructions as the machine executes them: decoded, with their operands as numbers. The machine
reads the operand bytes of each instruction by its own rule.
-/
namespace Tandem

inductive Arithmetic where
  | add
  | subtract
  | multiply
  | divide
  deriving DecidableEq, Repr

def Arithmetic.opcode : Arithmetic → Opcode
  | add => .add
  | subtract => .subtract
  | multiply => .multiply
  | divide => .divide

inductive Comparison where
  | equal
  | notEqual
  | greater
  deriving DecidableEq, Repr

def Comparison.opcode : Comparison → Opcode
  | equal => .equal
  | notEqual => .notEqual
  | greater => .greater

inductive Instruction where
  | constant (index : Nat)
  | pop
  | boolean (b : Bool)
  | null
  | arithmetic (op : Arithmetic)
  | comparison (op : Comparison)
  | negate
  | not
  | jumpUnlessTruthy (target : Nat)
  | jump (target : Nat)
  | getGlobal (slot : Nat)
  | setGlobal (slot : Nat)
  | getLocal (slot : Nat)
  | setLocal (slot : Nat)
  | getBuiltin (index : Nat)
  | getFree (index : Nat)
  | array (count : Nat)
  | hash (count : Nat)
  | index
  | call (arguments : Nat)
  | returnValue
  | returnNull
  | closure (index free : Nat)
  | currentClosure
  deriving DecidableEq, Repr

namespace Instruction

/-- The number of bytes that the machine has read once it has decoded the instruction. -/
def length : Instruction → Nat
  | getLocal _ | setLocal _ | getBuiltin _ | getFree _ | call _ => 2
  | constant _ | jumpUnlessTruthy _ | jump _ | getGlobal _ | setGlobal _ | array _ | hash _ => 3
  | closure _ _ => 4
  | _ => 1

/-- Decodes the instruction with opcode `op`, whose operands start at offset `start`. There is none
if operand bytes are missing. -/
def decode? (code : Code) (op : Opcode) (start : Nat) : Option Instruction :=
  match op with
  | .constant => (code.wordAt? start).map constant
  | .pop => some pop
  | .pushTrue => some (boolean true)
  | .pushFalse => some (boolean false)
  | .pushNull => some null
  | .add => some (arithmetic .add)
  | .subtract => some (arithmetic .subtract)
  | .multiply => some (arithmetic .multiply)
  | .divide => some (arithmetic .divide)
  | .equal => some (comparison .equal)
  | .notEqual => some (comparison .notEqual)
  | .greater => some (comparison .greater)
  | .negate => some negate
  | .not => some not
  | .jumpUnlessTruthy => (code.wordAt? start).map jumpUnlessTruthy
  | .jump => (code.wordAt? start).map jump
  | .getGlobal => (code.wordAt? start).map getGlobal
  | .setGlobal => (code.wordAt? start).map setGlobal
  | .getLocal => (code.byteAt? start).map fun byte => getLocal byte.toNat
  | .setLocal => (code.byteAt? start).map fun byte => setLocal byte.toNat
  | .getBuiltin => (code.byteAt? start).map fun byte => getBuiltin byte.toNat
  | .getFree => (code.byteAt? start).map fun byte => getFree byte.toNat
  | .array => (code.wordAt? start).map array
  | .hash => (code.wordAt? start).map hash
  | .index => some index
  | .call => (code.byteAt? start).map fun byte => call byte.toNat
  | .returnValue => some returnValue
  | .returnNull => some returnNull
  | .closure => do
    let index ← code.wordAt? start
    let free ← code.byteAt? (start + 2)
    return closure index free.toNat
  | .currentClosure => some currentClosure

end Instruction

end Tandem
