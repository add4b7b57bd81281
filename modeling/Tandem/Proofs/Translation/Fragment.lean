import Tandem.Code.Listing
import Tandem.Tree
/-!
The translation of expressions into instructions, for expressions without names, functions and
calls whose branches are single expressions. Operands come before their operator, from left to
right, and jump targets are offsets in the whole stream, so what an expression is translated to
depends on where it stands. Only `a < b` is turned around: the machine compares in one direction.
-/
namespace Tandem

/-- Instructions that can be placed anywhere in a stream, with the pool entries that they add. -/
structure Fragment where
  /-- The bytes, if they start at an offset and their own pool entries at an index. -/
  code : (offset entry : Nat) → List UInt8
  /-- The pool entries, if they start at an index. -/
  pool : (entry : Nat) → List Value
  size : Nat
  entries : Nat
  /-- The number of values left on the stack. -/
  results : Nat
  /-- The number of stack slots in use at the highest point. -/
  need : Nat
  length_code : ∀ offset entry, (code offset entry).length = size
  length_pool : ∀ entry, (pool entry).length = entries
  results_le_need : results ≤ need

namespace Fragment

def nothing : Fragment where
  code _ _ := []
  pool _ := []
  size := 0
  entries := 0
  results := 0
  need := 0
  length_code _ _ := rfl
  length_pool _ := rfl
  results_le_need := Nat.le_refl 0

/-- A value that is taken from a pool entry of its own. -/
def constant (value : (entry : Nat) → Value) : Fragment where
  code _ entry := Opcode.constant.encode [entry]
  pool entry := [value entry]
  size := 3
  entries := 1
  results := 1
  need := 1
  length_code _ _ := rfl
  length_pool _ := rfl
  results_le_need := Nat.le_refl 1

/-- One fragment after another. The results of the first stay below those of the second. -/
def append (first second : Fragment) : Fragment where
  code offset entry :=
    first.code offset entry ++ second.code (offset + first.size) (entry + first.entries)
  pool entry := first.pool entry ++ second.pool (entry + first.entries)
  size := first.size + second.size
  entries := first.entries + second.entries
  results := first.results + second.results
  need := max first.need (first.results + second.need)
  length_code _ _ := by rw [List.length_append, first.length_code, second.length_code]
  length_pool _ := by rw [List.length_append, first.length_pool, second.length_pool]
  results_le_need := by
    have hSecond := second.results_le_need
    omega

/-- A fragment and the instruction that makes one value of all its results. -/
def apply (operands : Fragment) (op : Opcode) (numbers : List Nat) : Fragment where
  code offset entry := operands.code offset entry ++ op.encode numbers
  pool := operands.pool
  size := operands.size + (op.encode numbers).length
  entries := operands.entries
  results := 1
  need := max operands.need 1
  length_code _ _ := by rw [List.length_append, operands.length_code]
  length_pool := operands.length_pool
  results_le_need := Nat.le_max_right _ _

def jumpSize : Nat := 3

/-- A condition and two ways to go on, of which the second stands behind the first. Each of the
three leaves one value, but that of the condition is taken off. -/
def branch (condition consequence alternative : Fragment) : Fragment where
  code offset entry :=
    let consequenceAt := offset + condition.size + jumpSize
    let alternativeAt := consequenceAt + consequence.size + jumpSize
    condition.code offset entry ++
      (Opcode.jumpUnlessTruthy.encode [alternativeAt] ++
        (consequence.code consequenceAt (entry + condition.entries) ++
          (Opcode.jump.encode [alternativeAt + alternative.size] ++
            alternative.code alternativeAt (entry + condition.entries + consequence.entries))))
  pool entry :=
    condition.pool entry ++ (consequence.pool (entry + condition.entries) ++
      alternative.pool (entry + condition.entries + consequence.entries))
  size := condition.size + (jumpSize + (consequence.size + (jumpSize + alternative.size)))
  entries := condition.entries + (consequence.entries + alternative.entries)
  results := 1
  need := max 1 (max condition.need (max consequence.need alternative.need))
  length_code _ _ := by
    simp [condition.length_code, consequence.length_code, alternative.length_code, jumpSize,
      Opcode.encode, Opcode.operandWidths]
    omega
  length_pool _ := by
    simp [condition.length_pool, consequence.length_pool, alternative.length_pool]
  results_le_need := Nat.le_max_left _ _

end Fragment

def UnaryOp.opcode : UnaryOp → Opcode
  | negate => .negate
  | not => .not

/-- The opcode of an operator with two operands. The operands of `<` are turned around. -/
def BinaryOp.opcode : BinaryOp → Opcode
  | add => .add
  | subtract => .subtract
  | multiply => .multiply
  | divide => .divide
  | less => .greater
  | greater => .greater
  | equal => .equal
  | notEqual => .notEqual

section

variable (label : Nat → Label)

mutual

/-- What an expression is translated to. The string in the pool entry with index `n` gets the
identity `label n`. Expressions that are not translated come to nothing. -/
def Expr.fragment : Expr → Fragment
  | .integer n => .constant fun _ => .integer n
  | .boolean true => Fragment.nothing.apply .pushTrue []
  | .boolean false => Fragment.nothing.apply .pushFalse []
  | .string text => .constant fun entry => .string (label entry) text
  | .unary op operand => operand.fragment.apply op.opcode []
  | .binary .less left right => (right.fragment.append left.fragment).apply .greater []
  | .binary op left right => (left.fragment.append right.fragment).apply op.opcode []
  | .conditional condition [.expression consequence] none =>
    condition.fragment.branch consequence.fragment (Fragment.nothing.apply .pushNull [])
  | .conditional condition [.expression consequence] (some [.expression alternative]) =>
    condition.fragment.branch consequence.fragment alternative.fragment
  | .array elements => (fragments elements).apply .array [elements.length]
  | .index object key => (object.fragment.append key.fragment).apply .index []
  | .hash pairs => (pairFragments pairs).apply .hash [2 * pairs.length]
  | _ => .nothing

def fragments : List Expr → Fragment
  | [] => .nothing
  | e :: rest => e.fragment.append (fragments rest)

def pairFragments : List (Expr × Expr) → Fragment
  | [] => .nothing
  | (key, value) :: rest => key.fragment.append (value.fragment.append (pairFragments rest))

end

/-- The whole stream for an expression statement, which drops the value in the end. -/
def Expr.bundle (e : Expr) : Bundle where
  code := Code.ofList ((e.fragment label).code 0 0 ++ Opcode.pop.encode [])
  constants := (e.fragment label).pool 0

end

/-- Expressions that are translated: neither names nor functions nor calls are found in them, and
each branch is one expression. -/
inductive Expr.Plain : Expr → Prop where
  | integer (n : Int64) : Plain (.integer n)
  | boolean (b : Bool) : Plain (.boolean b)
  | string (text : String) : Plain (.string text)
  | unary (op : UnaryOp) {operand : Expr} (hOperand : Plain operand) : Plain (.unary op operand)
  | binary (op : BinaryOp) {left right : Expr} (hLeft : Plain left) (hRight : Plain right) :
      Plain (.binary op left right)
  | conditional {condition consequence : Expr} (hCondition : Plain condition)
      (hConsequence : Plain consequence) :
      Plain (.conditional condition [.expression consequence] none)
  | conditionalElse {condition consequence alternative : Expr} (hCondition : Plain condition)
      (hConsequence : Plain consequence) (hAlternative : Plain alternative) :
      Plain (.conditional condition [.expression consequence] (some [.expression alternative]))
  | array {elements : List Expr} (hElements : ∀ e ∈ elements, Plain e) : Plain (.array elements)
  | index {object key : Expr} (hObject : Plain object) (hKey : Plain key) :
      Plain (.index object key)
  | hash {pairs : List (Expr × Expr)} (hKeys : ∀ pair ∈ pairs, Plain pair.1)
      (hValues : ∀ pair ∈ pairs, Plain pair.2) : Plain (.hash pairs)

end Tandem
