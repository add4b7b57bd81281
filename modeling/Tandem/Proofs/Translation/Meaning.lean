import Tandem.Evaluation.Basic
import Tandem.Proofs.Translation.Fragment
/-!
The meaning of plain expressions, apart from labels. A plain expression makes each of its arrays
and hashes anew, so no two of them are ever identical, and its meaning can be given by bare values
alone, all of whose labels are the same. Both engines are compared with this meaning.
-/
namespace Tandem

def Key.bare : Key → Key
  | string _ text => string default text
  | key => key

mutual

/-- The value without the labels of its strings, arrays and hashes, at any depth. -/
def Value.bare : Value → Value
  | .string _ text => .string default text
  | .array _ elements => .array default (bareElements elements)
  | .hash _ entries => .hash default (bareEntries entries)
  | value => value

def bareElements : List Value → List Value
  | [] => []
  | value :: rest => value.bare :: bareElements rest

def bareEntries : List (Key × Value) → List (Key × Value)
  | [] => []
  | (key, value) :: rest => (key.bare, value.bare) :: bareEntries rest

end

theorem bareElements_eq_map (values : List Value) :
    bareElements values = values.map Value.bare := by
  induction values with
  | nil => rfl
  | cons value rest ih => rw [bareElements, ih, List.map_cons]

theorem length_bareEntries (entries : List (Key × Value)) :
    (bareEntries entries).length = entries.length := by
  induction entries with
  | nil => rfl
  | cons entry rest ih => simp [bareEntries, ih]

/-- Keys are told apart by what they hold, so labels can be left out. -/
@[simp]
theorem Key.hashKey_bare (key : Key) : key.bare.hashKey = key.hashKey := by
  cases key <;> rfl

namespace Value

@[simp]
theorem typeName_bare (value : Value) : value.bare.typeName = value.typeName := by
  cases value <;> simp [bare, typeName]

@[simp]
theorem isTruthy_bare (value : Value) : value.bare.isTruthy = value.isTruthy := by
  cases value <;> simp [bare, isTruthy]

theorem bare_getD (value? : Option Value) :
    (value?.getD .null).bare = (value?.map bare).getD .null := by
  cases value? <;> rfl

theorem toKey?_bare (value : Value) : value.bare.toKey? = value.toKey?.map Key.bare := by
  cases value <;> simp [bare, toKey?, Key.bare]

@[simp]
theorem hashKey?_bare (value : Value) : value.bare.hashKey? = value.hashKey? := by
  cases value <;> simp [bare, hashKey?, toKey?, Key.hashKey]

end Value

namespace Entries

/-- Looking a key up and leaving labels out can change places. -/
theorem find?_bareEntries (key : HashKey) (entries : Entries) :
    find? key (bareEntries entries) = (find? key entries).map Value.bare := by
  induction entries with
  | nil => rfl
  | cons entry rest ih =>
      obtain ⟨entryKey, value⟩ := entry
      by_cases h : entryKey.hashKey = key
      · simp [bareEntries, find?, h]
      · simp [bareEntries, find?, h, ih]

/-- A hash that is made of bare pairs is the bare hash. -/
theorem bareEntries_insert (key : Key) (value : Value) (entries : Entries) :
    bareEntries (insert key value entries) = insert key.bare value.bare (bareEntries entries) := by
  induction entries with
  | nil => rfl
  | cons entry rest ih =>
      obtain ⟨entryKey, entryValue⟩ := entry
      by_cases h : entryKey.hashKey = key.hashKey
      · simp [bareEntries, insert, h]
      · simp [bareEntries, insert, h, ih]

end Entries

/-- What an expression or an operation comes to: a bare value or an error. -/
abbrev Meaning (α : Type) := Except EvaluationError α

/-- The evaluation of trees refuses here to compare two values of which neither is an integer: two
strings, or values of different types. -/
def EvaluationError.refusesComparison : EvaluationError → Bool
  | typeMismatch left op right =>
    (op == .equal || op == .notEqual) && left != "INTEGER" && right != "INTEGER"
  | unknownBinary _ op _ => op == .equal || op == .notEqual
  | _ => false

namespace Value

/-- Whether two values made by different expressions are identical: if they are the same boolean or
both null. -/
def alike : Value → Value → Bool
  | boolean a, boolean b => a == b
  | null, null => true
  | _, _ => false

end Value

def UnaryOp.meaning (op : UnaryOp) (operand : Value) : Meaning Value :=
  match op, operand with
  | .not, operand => .ok (.boolean (!operand.isTruthy))
  | .negate, .integer n => .ok (.integer (-n))
  | .negate, operand => .error (.unknownUnary .negate operand.typeName)

namespace BinaryOp

def integerMeaning (op : BinaryOp) (a b : Int64) : Meaning Value :=
  match op with
  | add => .ok (.integer (a + b))
  | subtract => .ok (.integer (a - b))
  | multiply => .ok (.integer (a * b))
  | divide => if b = 0 then .error .divisionByZero else .ok (.integer (a / b))
  | less => .ok (.boolean (a < b))
  | greater => .ok (.boolean (a > b))
  | equal => .ok (.boolean (a == b))
  | notEqual => .ok (.boolean (a != b))

def meaning (op : BinaryOp) (left right : Value) : Meaning Value :=
  match left, right with
  | .integer a, .integer b => op.integerMeaning a b
  | .string _ a, .string _ b =>
    match op with
    | add => .ok (.string default (a ++ b))
    | op => .error (.unknownBinary "STRING" op "STRING")
  | left, right =>
    if left.typeName = right.typeName then
      match op with
      | equal => .ok (.boolean (left.alike right))
      | notEqual => .ok (.boolean (!left.alike right))
      | op => .error (.unknownBinary left.typeName op right.typeName)
    else .error (.typeMismatch left.typeName op right.typeName)

/-- Values that are neither two integers nor two strings can only be told apart. -/
theorem meaning_of_other (op : BinaryOp) {left right : Value}
    (hInteger : ¬ (left.typeName = "INTEGER" ∧ right.typeName = "INTEGER"))
    (hString : ¬ (left.typeName = "STRING" ∧ right.typeName = "STRING")) :
    op.meaning left right =
      if left.typeName = right.typeName then
        match op with
        | equal => .ok (.boolean (left.alike right))
        | notEqual => .ok (.boolean (!left.alike right))
        | op => .error (.unknownBinary left.typeName op right.typeName)
      else .error (.typeMismatch left.typeName op right.typeName) := by
  unfold meaning
  split
  · exact absurd ⟨rfl, rfl⟩ hInteger
  · exact absurd ⟨rfl, rfl⟩ hString
  · rfl

theorem meaning_of_typeName_ne (op : BinaryOp) {left right : Value}
    (h : left.typeName ≠ right.typeName) :
    op.meaning left right = .error (.typeMismatch left.typeName op right.typeName) := by
  rw [meaning_of_other op (fun hBoth => h (hBoth.1.trans hBoth.2.symm))
    (fun hBoth => h (hBoth.1.trans hBoth.2.symm)), if_neg h]

end BinaryOp

def indexMeaning (object key : Value) : Meaning Value :=
  match object, key with
  | .array _ elements, .integer i =>
    .ok (if i < 0 then .null else elements[i.toNatClampNeg]?.getD .null)
  | .hash _ entries, key =>
    match key.hashKey? with
    | some hashKey => .ok ((Entries.find? hashKey entries).getD .null)
    | none => .error (.unusableKey key.typeName)
  | object, _ => .error (.notIndexable object.typeName)

mutual

/-- What a plain expression comes to. Others come to null, which is never used. -/
def Expr.meaning : Expr → Meaning Value
  | .integer n => .ok (.integer n)
  | .boolean b => .ok (.boolean b)
  | .string text => .ok (.string default text)
  | .unary op operand => do op.meaning (← operand.meaning)
  | .binary op left right => do
    let leftValue ← left.meaning
    let rightValue ← right.meaning
    op.meaning leftValue rightValue
  | .conditional condition [.expression consequence] none => do
    if (← condition.meaning).isTruthy then consequence.meaning else .ok .null
  | .conditional condition [.expression consequence] (some [.expression alternative]) => do
    if (← condition.meaning).isTruthy then consequence.meaning else alternative.meaning
  | .array elements => do return .array default (← meanings elements)
  | .index object key => do
    let objectValue ← object.meaning
    let keyValue ← key.meaning
    indexMeaning objectValue keyValue
  | .hash pairs => do return .hash default (← pairMeanings pairs [])
  | _ => .ok .null

def meanings : List Expr → Meaning (List Value)
  | [] => .ok []
  | e :: rest => do
    let value ← e.meaning
    let values ← meanings rest
    return value :: values

/-- The pairs of a hash literal in order, on top of the entries that are there. -/
def pairMeanings : List (Expr × Expr) → Entries → Meaning Entries
  | [], entries => .ok entries
  | (key, value) :: rest, entries => do
    let keyValue ← key.meaning
    match keyValue.toKey? with
    | none => .error (.unusableKey keyValue.typeName)
    | some key => pairMeanings rest (entries.insert key (← value.meaning))

end

end Tandem
