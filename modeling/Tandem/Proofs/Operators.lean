import Tandem.Proofs.Translation.Agreement
/-!
Operators and index access in both engines, on values of every kind. The evaluator looks at the
types of the operands before the operator, the machine at the operator first, and it has one
comparison less. They come to the same except where two values are told apart that the evaluator
refuses to compare.
-/
namespace Tandem

def Evaluation.GivesIn (x : Evaluation Value) (store : Store) (value : Value) : Prop :=
  ∃ after, x store = some (.ok value, after)

def Evaluation.FailsIn (x : Evaluation Value) (store : Store) : Prop :=
  ∃ failure after, x store = some (.error failure, after)

/-- A value that is alike to the one that the evaluation gives has taken the place of the operands,
or the run has been stopped with an error and the evaluation fails. -/
def Machine.Agrees (m : Machine) (operands : List Value) (alike : Value → Value → Prop)
    (answer : Except Stop Unit × Machine) (x : Evaluation Value) (store : Store) : Prop :=
  m.Answered operands (fun _ value => ∃ expected, x.GivesIn store expected ∧ alike expected value)
    (x.FailsIn store) answer

/-- What an operator comes to on two numbers: the exact result, in 64 bits if it is a number.
Division by zero comes to nothing. -/
def BinaryOp.exactly? (op : BinaryOp) (a b : Int) : Option Value :=
  match op with
  | .add => some (.integer (.ofInt (a + b)))
  | .subtract => some (.integer (.ofInt (a - b)))
  | .multiply => some (.integer (.ofInt (a * b)))
  | .divide => if b = 0 then none else some (.integer (.ofInt (a.tdiv b)))
  | .less => some (.boolean (a < b))
  | .greater => some (.boolean (a > b))
  | .equal => some (.boolean (a = b))
  | .notEqual => some (.boolean (a ≠ b))

/-- The operands as they lie on the stack. Those of `<` are turned around. -/
def BinaryOp.operands (op : BinaryOp) (left right : Value) : List Value :=
  match op with
  | .less => [right, left]
  | _ => [left, right]

/-- What a comparison comes to if it goes by identity alone. -/
def BinaryOp.identity (op : BinaryOp) (left right : Value) : Value :=
  match op with
  | .notEqual => .boolean (!left.identical right)
  | _ => .boolean (left.identical right)

def UnaryOp.instruction : UnaryOp → Instruction
  | not => .not
  | negate => .negate

/-- The comparisons that only the machine makes: of two strings, and of values of different types
neither of which is an integer. -/
def BinaryOp.ToldApart (op : BinaryOp) (left right : Value) : Prop :=
  (op = .equal ∨ op = .notEqual) ∧
    (left.typeName = "STRING" ∧ right.typeName = "STRING" ∨
      left.typeName ≠ right.typeName ∧ left.typeName ≠ "INTEGER" ∧ right.typeName ≠ "INTEGER")

/-- Operations in 64 bits keep the last bits of the exact result. The exact quotient does not fit
only where the least number is divided by minus one. -/
theorem BinaryOp.exactly?_toInt (op : BinaryOp) (a b : Int64) :
    op.exactly? a.toInt b.toInt =
      match op with
      | .add => some (.integer (a + b))
      | .subtract => some (.integer (a - b))
      | .multiply => some (.integer (a * b))
      | .divide => if b = 0 then none else some (.integer (a / b))
      | .less => some (.boolean (a < b))
      | .greater => some (.boolean (a > b))
      | .equal => some (.boolean (a == b))
      | .notEqual => some (.boolean (a != b)) := by
  have hEqual : (a == b) = decide (a.toInt = b.toInt) := by
    rw [Bool.eq_iff_iff, beq_iff_eq, decide_eq_true_eq, Int64.toInt_inj]
  cases op with
  | divide =>
      have hZero : b.toInt = 0 ↔ b = 0 := by rw [← Int64.toInt_inj, Int64.toInt_zero]
      have hQuotient : a / b = .ofInt (a.toInt.tdiv b.toInt) := by
        rw [← Int64.toInt_inj, Int64.toInt_div, Int64.toInt_ofInt]
      simp only [exactly?, hZero, hQuotient]
  | add | subtract | multiply => simp [exactly?]
  | less | greater => simp [exactly?, Int64.lt_iff_toInt_lt]
  | equal | notEqual => simp [exactly?, bne, hEqual]

/-- Numbers and truth values have the same contents as themselves. -/
theorem BinaryOp.same_of_exactly? {op : BinaryOp} {a b : Int} {value : Value}
    (h : op.exactly? a b = some value) : value.same value = true := by
  cases op with
  | divide =>
      simp only [exactly?] at h
      split at h
      · cases h
      · cases h
        simp [Value.same, Value.identical]
  | _ =>
      cases h
      simp [Value.same, Value.identical]

/-- Turning the operands around turns `<` into `>`. -/
theorem BinaryOp.exactly?_less (a b : Int) : less.exactly? a b = greater.exactly? b a := rfl

theorem BinaryOp.exactly?_divide_minValue :
    divide.exactly? Int64.minValue.toInt (-1) = some (.integer Int64.minValue) := rfl

/-- The only error is division by zero. -/
theorem BinaryOp.exactly?_eq_none_iff {op : BinaryOp} {a b : Int} :
    op.exactly? a b = none ↔ op = .divide ∧ b = 0 := by
  cases op <;> simp [exactly?]

namespace Evaluation

variable {store : Store}

theorem failsIn_fail (cause : EvaluationError) (store : Store) :
    FailsIn (fail cause) store :=
  ⟨_, _, fail_apply cause store⟩

theorem givesIn_pure (value : Value) (store : Store) : GivesIn (pure value) store value :=
  ⟨store, rfl⟩

/-- On integers the evaluator is exact. -/
theorem integerBinary_eq (a : Int64) (op : BinaryOp) (b : Int64) :
    integerBinary a op b =
      match op.exactly? a.toInt b.toInt with
      | some value => pure value
      | none => fail .divisionByZero := by
  rw [BinaryOp.exactly?_toInt]
  cases op with
  | divide => by_cases h : b = 0 <;> simp [integerBinary, h]
  | _ => rfl

theorem givesIn_integers_iff {a b : Int64} {op : BinaryOp} {value : Value} :
    GivesIn (binary (.integer a) op (.integer b)) store value ↔
      op.exactly? a.toInt b.toInt = some value := by
  rw [binary, integerBinary_eq]
  cases op.exactly? a.toInt b.toInt with
  | some exact => simp [GivesIn]
  | none => simp [GivesIn, fail_apply]

theorem failsIn_integers_iff {a b : Int64} {op : BinaryOp} :
    FailsIn (binary (.integer a) op (.integer b)) store ↔
      op.exactly? a.toInt b.toInt = none := by
  rw [binary, integerBinary_eq]
  cases op.exactly? a.toInt b.toInt with
  | some exact => simp [FailsIn]
  | none => simp [FailsIn, fail_apply]

/-- Two values that are neither two integers nor two strings can only be compared, and only if they
are of one type. -/
theorem failsIn_binary_of_other {op : BinaryOp} {left right : Value}
    (hInteger : ¬ (left.typeName = "INTEGER" ∧ right.typeName = "INTEGER"))
    (hString : ¬ (left.typeName = "STRING" ∧ right.typeName = "STRING"))
    (h : (op = .equal ∨ op = .notEqual) → left.typeName ≠ right.typeName) (store : Store) :
    FailsIn (binary left op right) store := by
  rw [binary_of_other op hInteger hString]
  split
  · rename_i hType
    cases op with
    | equal => exact absurd hType (h (Or.inl rfl))
    | notEqual => exact absurd hType (h (Or.inr rfl))
    | _ => exact failsIn_fail _ store
  · exact failsIn_fail _ store

/-- Only integers can be put in order. -/
theorem failsIn_order {op : BinaryOp} (hOp : op = .less ∨ op = .greater) {left right : Value}
    (hInteger : ¬ (left.typeName = "INTEGER" ∧ right.typeName = "INTEGER")) (store : Store) :
    FailsIn (binary left op right) store := by
  have hCompare : (op = .equal ∨ op = .notEqual) → left.typeName ≠ right.typeName := by
    rcases hOp with rfl | rfl <;> simp
  by_cases hString : left.typeName = "STRING" ∧ right.typeName = "STRING"
  · obtain ⟨idA, a, rfl⟩ := Value.eq_string_of_typeName hString.1
    obtain ⟨idB, b, rfl⟩ := Value.eq_string_of_typeName hString.2
    rcases hOp with rfl | rfl <;> exact failsIn_fail _ store
  · exact failsIn_binary_of_other hInteger hString hCompare store

/-- The evaluator refuses to tell values apart that are of different types or strings. -/
theorem failsIn_of_toldApart {op : BinaryOp} {left right : Value} (h : op.ToldApart left right)
    (store : Store) : FailsIn (binary left op right) store := by
  obtain ⟨hOp, ⟨hLeft, hRight⟩ | ⟨hType, hLeft, _⟩⟩ := h
  · obtain ⟨idA, a, rfl⟩ := Value.eq_string_of_typeName hLeft
    obtain ⟨idB, b, rfl⟩ := Value.eq_string_of_typeName hRight
    rcases hOp with rfl | rfl <;> exact failsIn_fail _ store
  · refine failsIn_binary_of_other (fun hBoth => hLeft hBoth.1) (fun hBoth => ?_)
      (fun _ => hType) store
    exact hType (hBoth.1.trans hBoth.2.symm)

/-- Other values of one type are told apart by identity. -/
theorem givesIn_identity {op : BinaryOp} (hOp : op = .equal ∨ op = .notEqual) {left right : Value}
    (hType : left.typeName = right.typeName) (hInteger : left.typeName ≠ "INTEGER")
    (hString : left.typeName ≠ "STRING") (store : Store) :
    GivesIn (binary left op right) store (op.identity left right) := by
  rw [binary_of_other op (fun hBoth => hInteger hBoth.1) (fun hBoth => hString hBoth.1),
    if_pos hType]
  rcases hOp with rfl | rfl <;> exact givesIn_pure _ store

end Evaluation

namespace Execution

variable {m : Machine} {left right : Value}

/-- On integers the machine is exact. -/
theorem arithmetic_of_integers (op : Arithmetic) {a b : Int64}
    (h : m.Offers [.integer a, .integer b]) :
    m.Answered [.integer a, .integer b]
      (fun _ value => op.operator.exactly? a.toInt b.toInt = some value)
      (op.operator.exactly? a.toInt b.toInt = none) (execute (.arithmetic op) m) := by
  rw [BinaryOp.exactly?_toInt, execute, arithmetic, popOperands_bind h]
  cases op with
  | divide =>
      simp only [Arithmetic.operator]
      split
      · exact answered_fail rfl _ _
      · exact answered_push h (Nat.le_refl _) rfl
  | _ => exact answered_push h (Nat.le_refl _) rfl

theorem comparison_of_integers (op : Comparison) {a b : Int64}
    (h : m.Offers [.integer a, .integer b]) :
    m.Answered [.integer a, .integer b]
      (fun _ value => op.operator.exactly? a.toInt b.toInt = some value)
      (op.operator.exactly? a.toInt b.toInt = none) (execute (.comparison op) m) := by
  rw [BinaryOp.exactly?_toInt, execute, comparison, popOperands_bind h]
  cases op <;> exact answered_push h (Nat.le_refl _) rfl

/-- A comparison with one integer stops the run, and so does `>` between other values. -/
theorem comparison_refused {op : Comparison} (h : m.Offers [left, right])
    (hBoth : ¬ (left.typeName = "INTEGER" ∧ right.typeName = "INTEGER"))
    (hOne : left.typeName = "INTEGER" ∨ right.typeName = "INTEGER" ∨ op = .greater) :
    ∃ cause after, execute (.comparison op) m = (.error (.error cause), after) := by
  rw [execute, comparison, popOperands_bind h]
  generalize hPair : (left, right) = pair
  split
  · cases hPair
    exact absurd ⟨rfl, rfl⟩ hBoth
  · exact ⟨_, _, rfl⟩
  · exact ⟨_, _, rfl⟩
  · rename_i hLeft hRight
    cases hPair
    rcases hOne with hType | hType | rfl
    · obtain ⟨a, rfl⟩ := Value.eq_integer_of_typeName hType
      exact (hLeft a rfl).elim
    · obtain ⟨b, rfl⟩ := Value.eq_integer_of_typeName hType
      exact (hRight b rfl).elim
    · exact ⟨_, _, rfl⟩

/-- Where neither operand is an integer, the machine goes by identity. -/
theorem comparison_of_other {op : Comparison} (hOp : op ≠ .greater) (h : m.Offers [left, right])
    (hLeft : left.typeName ≠ "INTEGER") (hRight : right.typeName ≠ "INTEGER") :
    execute (.comparison op) m =
      push (op.operator.identity left right) { m with sp := m.sp - 2 } := by
  rw [execute, comparison, popOperands_bind h]
  generalize hPair : (left, right) = pair
  split
  · cases hPair
    exact absurd rfl hLeft
  · cases hPair
    exact absurd rfl hLeft
  · cases hPair
    exact absurd rfl hRight
  · cases hPair
    cases op with
    | greater => exact absurd rfl hOp
    | _ => rfl

end Execution

namespace Machine

open Evaluation (binary unary index FailsIn GivesIn)

variable {m : Machine} {left right : Value}

/-- Both engines are exact on integers. -/
theorem agrees_of_integers {op : BinaryOp} {a b : Int64} {operands : List Value}
    {answer : Except Stop Unit × Machine}
    (h : m.Answered operands (fun _ value => op.exactly? a.toInt b.toInt = some value)
      (op.exactly? a.toInt b.toInt = none) answer) (store : Store) :
    m.Agrees operands (fun expected value => expected.same value = true) answer
      (binary (.integer a) op (.integer b)) store := by
  refine h.mono (fun _ value hValue => ?_) Evaluation.failsIn_integers_iff.mpr
  exact ⟨value, Evaluation.givesIn_integers_iff.mpr hValue, BinaryOp.same_of_exactly? hValue⟩

theorem agrees_arithmetic (op : Arithmetic) (h : m.Offers [left, right]) (store : Store) :
    m.Agrees [left, right] (fun expected value => expected.same value = true)
      (Execution.execute (.arithmetic op) m) (binary left op.operator right) store := by
  by_cases hInteger : left.typeName = "INTEGER" ∧ right.typeName = "INTEGER"
  · obtain ⟨a, rfl⟩ := Value.eq_integer_of_typeName hInteger.1
    obtain ⟨b, rfl⟩ := Value.eq_integer_of_typeName hInteger.2
    exact agrees_of_integers (Execution.arithmetic_of_integers op h) store
  rw [Execution.execute, Execution.arithmetic, Execution.popOperands_bind h]
  by_cases hString : left.typeName = "STRING" ∧ right.typeName = "STRING"
  · obtain ⟨idA, a, rfl⟩ := Value.eq_string_of_typeName hString.1
    obtain ⟨idB, b, rfl⟩ := Value.eq_string_of_typeName hString.2
    cases op with
    | add =>
        refine Execution.answered_push h (Nat.le_succ _) ⟨_, ⟨_, rfl⟩, ?_⟩
        simp [Value.same]
    | _ => exact Execution.answered_fail (Evaluation.failsIn_fail _ store) _ _
  · have hFails : FailsIn (binary left op.operator right) store :=
      Evaluation.failsIn_binary_of_other hInteger hString
        (by cases op <;> simp [Arithmetic.operator])
        store
    generalize hPair : (left, right) = pair
    split
    · cases hPair
      exact absurd ⟨rfl, rfl⟩ hInteger
    · cases hPair
      exact absurd ⟨rfl, rfl⟩ hString
    · exact Execution.answered_fail hFails _ _

theorem agrees_comparison (op : Comparison) (h : m.Offers [left, right])
    (hApart : ¬ op.operator.ToldApart left right) (store : Store) :
    m.Agrees [left, right] (fun expected value => expected.same value = true)
      (Execution.execute (.comparison op) m) (binary left op.operator right) store := by
  by_cases hInteger : left.typeName = "INTEGER" ∧ right.typeName = "INTEGER"
  · obtain ⟨a, rfl⟩ := Value.eq_integer_of_typeName hInteger.1
    obtain ⟨b, rfl⟩ := Value.eq_integer_of_typeName hInteger.2
    exact agrees_of_integers (Execution.comparison_of_integers op h) store
  by_cases hGreater : op = .greater
  · subst hGreater
    exact Or.inr ⟨Evaluation.failsIn_order (Or.inr rfl) hInteger store,
      Execution.comparison_refused h hInteger (Or.inr (Or.inr rfl))⟩
  have hOp : op.operator = .equal ∨ op.operator = .notEqual := by
    cases op <;> simp [Comparison.operator] at hGreater ⊢
  by_cases hOne : left.typeName = "INTEGER" ∨ right.typeName = "INTEGER"
  · have hType : left.typeName ≠ right.typeName := by
      intro hType
      rw [hType, or_self] at hOne
      exact hInteger ⟨hType.trans hOne, hOne⟩
    have hString : ¬ (left.typeName = "STRING" ∧ right.typeName = "STRING") := fun hBoth =>
      hType (hBoth.1.trans hBoth.2.symm)
    exact Or.inr ⟨Evaluation.failsIn_binary_of_other hInteger hString (fun _ => hType) store,
      Execution.comparison_refused h hInteger (hOne.imp id Or.inl)⟩
  · obtain ⟨hLeft, hRight⟩ := not_or.mp hOne
    have hType : left.typeName = right.typeName := Decidable.byContradiction fun hType =>
      hApart ⟨hOp, Or.inr ⟨hType, hLeft, hRight⟩⟩
    have hString : left.typeName ≠ "STRING" := fun hString =>
      hApart ⟨hOp, Or.inl ⟨hString, hType ▸ hString⟩⟩
    rw [Execution.comparison_of_other hGreater h hLeft hRight]
    refine Execution.answered_push h (Nat.le_refl _)
      ⟨_, Evaluation.givesIn_identity hOp hType hLeft hString store, ?_⟩
    rcases hOp with hOp | hOp <;> simp [hOp, BinaryOp.identity, Value.same, Value.identical]

/-- Turning the operands around turns `<` into `>`. -/
theorem agrees_less (h : m.Offers [right, left]) (store : Store) :
    m.Agrees [right, left] (fun expected value => expected.same value = true)
      (Execution.execute (.comparison .greater) m) (binary left .less right) store := by
  by_cases hInteger : left.typeName = "INTEGER" ∧ right.typeName = "INTEGER"
  · obtain ⟨a, rfl⟩ := Value.eq_integer_of_typeName hInteger.1
    obtain ⟨b, rfl⟩ := Value.eq_integer_of_typeName hInteger.2
    exact agrees_of_integers (Execution.comparison_of_integers .greater h) store
  · exact Or.inr ⟨Evaluation.failsIn_order (Or.inl rfl) hInteger store,
      Execution.comparison_refused h (fun hBoth => hInteger hBoth.symm) (Or.inr (Or.inr rfl))⟩

theorem agrees_binary (op : BinaryOp) (h : m.Offers (op.operands left right))
    (hApart : ¬ op.ToldApart left right) (store : Store) :
    m.Agrees (op.operands left right) (fun expected value => expected.same value = true)
      (Execution.execute op.instruction m) (binary left op right) store := by
  cases op with
  | add => exact agrees_arithmetic .add h store
  | subtract => exact agrees_arithmetic .subtract h store
  | multiply => exact agrees_arithmetic .multiply h store
  | divide => exact agrees_arithmetic .divide h store
  | less => exact agrees_less h store
  | greater => exact agrees_comparison .greater h hApart store
  | equal => exact agrees_comparison .equal h hApart store
  | notEqual => exact agrees_comparison .notEqual h hApart store

/-- Where the evaluator refuses to tell two values apart, the machine goes by identity. -/
theorem answered_of_toldApart {op : BinaryOp} (h : m.Offers (op.operands left right))
    (hApart : op.ToldApart left right) :
    m.Answered (op.operands left right) (fun _ value => value = op.identity left right) False
      (Execution.execute op.instruction m) := by
  obtain ⟨hOp, hTypes⟩ := hApart
  have hIntegers : left.typeName ≠ "INTEGER" ∧ right.typeName ≠ "INTEGER" := by
    rcases hTypes with ⟨hLeft, hRight⟩ | ⟨_, hLeft, hRight⟩
    · simp [hLeft, hRight]
    · exact ⟨hLeft, hRight⟩
  rcases hOp with rfl | rfl
  · have hOp : Comparison.equal ≠ .greater := by simp
    rw [BinaryOp.instruction, Execution.comparison_of_other hOp h hIntegers.1 hIntegers.2]
    exact Execution.answered_push h (Nat.le_refl _) rfl
  · have hOp : Comparison.notEqual ≠ .greater := by simp
    rw [BinaryOp.instruction, Execution.comparison_of_other hOp h hIntegers.1 hIntegers.2]
    exact Execution.answered_push h (Nat.le_refl _) rfl

theorem agrees_unary (op : UnaryOp) {operand : Value} (h : m.Offers [operand]) (store : Store) :
    m.Agrees [operand] Eq (Execution.execute op.instruction m) (unary op operand) store := by
  cases op with
  | not =>
      rw [UnaryOp.instruction, Execution.execute, Execution.pop_bind h]
      exact Execution.answered_push h (Nat.le_refl _) ⟨_, Evaluation.givesIn_pure _ store, rfl⟩
  | negate =>
      rw [UnaryOp.instruction, Execution.execute, Execution.pop_bind h]
      cases operand with
      | integer n =>
          exact Execution.answered_push h (Nat.le_refl _)
            ⟨_, Evaluation.givesIn_pure _ store, rfl⟩
      | _ => exact Execution.answered_fail (Evaluation.failsIn_fail _ store) _ _

/-- The machine is exact on integers. -/
theorem answered_of_integers (op : BinaryOp) {a b : Int64}
    (h : m.Offers (op.operands (.integer a) (.integer b))) :
    m.Answered (op.operands (.integer a) (.integer b))
      (fun _ value => op.exactly? a.toInt b.toInt = some value) (op.exactly? a.toInt b.toInt = none)
      (Execution.execute op.instruction m) := by
  cases op with
  | add => exact Execution.arithmetic_of_integers .add h
  | subtract => exact Execution.arithmetic_of_integers .subtract h
  | multiply => exact Execution.arithmetic_of_integers .multiply h
  | divide => exact Execution.arithmetic_of_integers .divide h
  | less =>
      rw [BinaryOp.exactly?_less]
      exact Execution.comparison_of_integers .greater h
  | greater => exact Execution.comparison_of_integers .greater h
  | equal => exact Execution.comparison_of_integers .equal h
  | notEqual => exact Execution.comparison_of_integers .notEqual h

/-- Both engines find the same value at a place, or refuse with the same text. -/
theorem index_cases {object key : Value} (h : m.Offers [object, key]) :
    (∃ value, index object key = pure value ∧
      Execution.execute .index m = Execution.push value { m with sp := m.sp - 2 }) ∨
    ∃ cause error, cause.message = error.message ∧ index object key = Evaluation.fail cause ∧
      Execution.execute .index m = Execution.fail error { m with sp := m.sp - 2 } := by
  rw [Execution.execute, Execution.index, Execution.popOperands_bind h]
  cases object with
  | array id elements =>
      cases key with
      | integer i => exact Or.inl ⟨_, Evaluation.index_array id elements i, rfl⟩
      | _ => exact Or.inr ⟨.notIndexable "ARRAY", .notIndexable "ARRAY", rfl, rfl, rfl⟩
  | hash id entries =>
      simp only [index]
      cases key.hashKey? with
      | some hashKey => exact Or.inl ⟨_, rfl, rfl⟩
      | none => exact Or.inr ⟨.unusableKey key.typeName, .unusableKey key.typeName, rfl, rfl, rfl⟩
  | _ => exact Or.inr ⟨.notIndexable _, .notIndexable _, rfl, rfl, rfl⟩

end Machine

/-- The value that has taken the place of the operands lies on top. -/
theorem Machine.Answered.exists_top {m : Machine} {operands : List Value}
    {gives : Nat → Value → Prop} {fails : Prop} {answer : Except Stop Unit × Machine}
    (h : m.Answered operands gives fails answer) (hFails : ¬ fails) :
    ∃ after high value, answer = (.ok (), after) ∧ after.top? = some value ∧ gives high value := by
  rcases h with ⟨value, host, rfl, _, hGives⟩ | ⟨hFailed, _⟩
  · refine ⟨_, _, value, rfl, ?_, hGives⟩
    simp [top?, Slots.read_write_self]
  · exact absurd hFailed hFails

open Evaluation in
/-- The operators come to the same in both engines, on all values. Either both give a value, and the
two have the same contents, or both fail. The only exceptions are comparisons of two strings and of
values of different types neither of which is an integer: the evaluator refuses these, while the
machine goes by identity. On integers both are exact up to the 64 bits that are kept, and fail only
if they divide by zero. Operators with one operand and index access come to the very same values,
and index access fails with the same text. -/
theorem operators_agree (settings : Settings) (store : Store) (m : Machine) :
    (∀ op left right, m.next? = some op.instruction → m.Offers (op.operands left right) →
      (¬ op.ToldApart left right →
        (m.fetched settings op.instruction).Agrees (op.operands left right)
          (fun expected value => expected.same value = true) (Execution.step settings m)
          (binary left op right) store) ∧
      (op.ToldApart left right → FailsIn (binary left op right) store ∧
        (m.fetched settings op.instruction).Answered (op.operands left right)
          (fun _ value => value = op.identity left right) False (Execution.step settings m)) ∧
      ∀ a b, left = .integer a → right = .integer b →
        (∀ value, GivesIn (binary left op right) store value ↔
          op.exactly? a.toInt b.toInt = some value) ∧
        (FailsIn (binary left op right) store ↔ op = .divide ∧ b.toInt = 0) ∧
        (m.fetched settings op.instruction).Answered (op.operands left right)
          (fun _ value => op.exactly? a.toInt b.toInt = some value) (op = .divide ∧ b.toInt = 0)
          (Execution.step settings m)) ∧
    BinaryOp.divide.exactly? Int64.minValue.toInt (-1) = some (.integer Int64.minValue) ∧
    (∀ op operand, m.next? = some op.instruction → m.Offers [operand] →
      (m.fetched settings op.instruction).Agrees [operand] Eq (Execution.step settings m)
        (unary op operand) store) ∧
    ∀ object key, m.next? = some .index → m.Offers [object, key] →
      (m.fetched settings .index).Agrees [object, key] Eq (Execution.step settings m)
        (index object key) store ∧
      ∀ failure after cause stopped, index object key store = some (.error failure, after) →
        Execution.step settings m = (.error (.error cause), stopped) →
        failure.message = cause.message := by
  refine ⟨fun op left right hNext hOffers => ?_, BinaryOp.exactly?_divide_minValue,
    fun op operand hNext hOffers => ?_, fun object key hNext hOffers => ?_⟩
  · have hFetched := hOffers.fetched settings op.instruction
    rw [Execution.step_of_next? hNext]
    refine ⟨fun hApart => Machine.agrees_binary op hFetched hApart store,
      fun hApart => ⟨failsIn_of_toldApart hApart store, ?_⟩, ?_⟩
    · exact Machine.answered_of_toldApart hFetched hApart
    · rintro a b rfl rfl
      rw [← BinaryOp.exactly?_eq_none_iff (a := a.toInt)]
      exact ⟨fun value => givesIn_integers_iff, failsIn_integers_iff,
        Machine.answered_of_integers op hFetched⟩
  · rw [Execution.step_of_next? hNext]
    exact Machine.agrees_unary op (hOffers.fetched settings op.instruction) store
  · have hFetched := hOffers.fetched settings .index
    rw [Execution.step_of_next? hNext]
    rcases Machine.index_cases hFetched with ⟨value, hIndex, hExecute⟩ |
      ⟨cause, error, hMessage, hIndex, hExecute⟩
    · rw [hIndex, hExecute]
      refine ⟨Execution.answered_push hFetched (Nat.le_refl _) ⟨value, givesIn_pure _ store, rfl⟩,
        fun failure after cause stopped hFails => ?_⟩
      cases hFails
    · rw [hIndex, hExecute]
      refine ⟨Execution.answered_fail (failsIn_fail cause store) _ _,
        fun failure after other stopped hFails hStops => ?_⟩
      cases hFails
      cases hStops
      exact hMessage

open Evaluation Machine in
/-- Two numbers, two strings with the same text, a number to be negated, and an array. -/
theorem operators_agree_on_samples :
    (∃ after, Execution.step {} (offering [.integer 2, .integer 1] .greater []) = (.ok (), after) ∧
      after.top? = some (.boolean true) ∧
      GivesIn (binary (.integer 1) .less (.integer 2)) {} (.boolean true)) ∧
    (∃ after, Execution.step {}
        (offering [.string (.object 0) "a", .string (.object 1) "a"] .equal []) = (.ok (), after) ∧
      after.top? = some (.boolean false) ∧
      FailsIn (binary (.string (.object 0) "a") .equal (.string (.object 1) "a")) {}) ∧
    (∃ after value, Execution.step {}
        (offering [.string (.object 0) "a", .string (.object 1) "b"] .add []) = (.ok (), after) ∧
      after.top? = some value ∧
      ∃ expected, GivesIn (binary (.string (.object 0) "a") .add (.string (.object 1) "b")) {}
        expected ∧ expected.same value = true) ∧
    (∃ after, Execution.step {} (offering [.integer 5] .negate []) = (.ok (), after) ∧
      ∃ value, after.top? = some value ∧ GivesIn (unary .negate (.integer 5)) {} value) ∧
    ∃ after, Execution.step {} (offering [.array (.object 0) [.null, .boolean true], .integer 1]
        .index []) = (.ok (), after) ∧
      ∃ value, after.top? = some value ∧
        GivesIn (index (.array (.object 0) [.null, .boolean true]) (.integer 1)) {} value := by
  refine ⟨?_, ?_, ?_, ?_, ?_⟩
  · obtain ⟨_, _, hExact⟩ := (operators_agree {} {}
      (offering [.integer 2, .integer 1] .greater [])).1
      .less (.integer 1) (.integer 2) rfl (offers_offering _ _ _)
    obtain ⟨hGives, _, hAnswered⟩ := hExact 1 2 rfl rfl
    obtain ⟨after, _, value, hStep, hTop, hValue⟩ := hAnswered.exists_top (by simp)
    cases hValue
    exact ⟨after, hStep, hTop, (hGives _).mpr rfl⟩
  · obtain ⟨_, hApart, _⟩ := (operators_agree {} {}
      (offering [.string (.object 0) "a", .string (.object 1) "a"] .equal [])).1
      .equal (.string (.object 0) "a") (.string (.object 1) "a") rfl (offers_offering _ _ _)
    obtain ⟨hFails, hAnswered⟩ := hApart ⟨Or.inl rfl, Or.inl ⟨rfl, rfl⟩⟩
    obtain ⟨after, _, value, hStep, hTop, rfl⟩ := hAnswered.exists_top id
    exact ⟨after, hStep, hTop, hFails⟩
  · obtain ⟨hSame, _, _⟩ := (operators_agree {} {}
      (offering [.string (.object 0) "a", .string (.object 1) "b"] .add [])).1
      .add (.string (.object 0) "a") (.string (.object 1) "b") rfl (offers_offering _ _ _)
    have hAgrees := hSame (by simp [BinaryOp.ToldApart])
    obtain ⟨after, _, value, hStep, hTop, hValue⟩ :=
      hAgrees.exists_top fun ⟨_, _, hFails⟩ => nomatch hFails
    exact ⟨after, value, hStep, hTop, hValue⟩
  · have hAgrees := (operators_agree {} {} (offering [.integer 5] .negate [])).2.2.1
      .negate (.integer 5) rfl (offers_offering _ _ _)
    obtain ⟨after, _, value, hStep, hTop, _, hGives, rfl⟩ :=
      hAgrees.exists_top fun ⟨_, _, hFails⟩ => nomatch hFails
    exact ⟨after, hStep, _, hTop, hGives⟩
  · obtain ⟨hAgrees, _⟩ := (operators_agree {} {}
      (offering [.array (.object 0) [.null, .boolean true], .integer 1] .index [])).2.2.2
      (.array (.object 0) [.null, .boolean true]) (.integer 1) rfl (offers_offering _ _ _)
    obtain ⟨after, _, value, hStep, hTop, _, hGives, rfl⟩ :=
      hAgrees.exists_top fun ⟨_, _, hFails⟩ => nomatch hFails
    exact ⟨after, hStep, _, hTop, hGives⟩

end Tandem
