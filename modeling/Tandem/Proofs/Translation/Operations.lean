import Tandem.Proofs.Machine.Effect
import Tandem.Proofs.Translation.Data
/-!
Single instructions of translated expressions, on operands that are data. Each either puts one
value in the place of its operands or stops the run with an error. The value is what the operation
means, except where the evaluation of trees refuses to compare: there the machine may answer.
-/
namespace Tandem

def Machine.nextLabel (m : Machine) : Nat := m.host.labels.objects

/-- What is found is what was meant. Nothing is asked where the evaluation of trees refuses to
compare, and no other error may have been meant. -/
def Met {β : Type} (meant : Meaning β) (found : β) : Prop :=
  match meant with
  | .ok b => b = found
  | .error cause => cause.refusesComparison = true

/-- The value is data with labels of the range, and what was meant. -/
def Value.Meets (low high : Nat) (meant : Meaning Value) (value : Value) : Prop :=
  value.DataWithin low high ∧ Met meant value.bare

def Fails {β : Type} (meant : Meaning β) : Prop := ∀ b, meant ≠ .ok b

@[simp]
theorem fails_error {β : Type} (cause : EvaluationError) : Fails (.error cause : Meaning β) :=
  fun _ h => nomatch h

theorem Value.Meets.mono {low high lower : Nat} {meant : Meaning Value} {value : Value}
    (h : value.Meets low high meant) (hLow : lower ≤ low) : value.Meets lower high meant :=
  ⟨h.1.mono hLow (Nat.le_refl _), h.2⟩

section

variable {β : Type} {meant : Meaning β} {found : β}

/-- Where the first part was met, what was meant of the whole is what was meant after the value
found. -/
theorem Met.bind {γ : Type} (hMet : Met meant found) {next : β → Meaning γ} {result : γ}
    (h : Met (next found) result) : Met (meant >>= next) result := by
  cases meant with
  | ok b =>
      cases hMet
      exact h
  | error cause => exact hMet

theorem Value.Meets.bind (hMet : Met meant found) {next : β → Meaning Value} {low high : Nat}
    {value : Value} (h : value.Meets low high (next found)) :
    value.Meets low high (meant >>= next) :=
  ⟨h.1, hMet.bind h.2⟩

/-- A failure of the first part is one of the whole. -/
theorem Fails.bind (h : Fails meant) {γ : Type} (next : β → Meaning γ) :
    Fails (meant >>= next) := by
  cases meant with
  | ok b => exact absurd rfl (h b)
  | error cause => exact fails_error cause

theorem fails_bind_of_met (hMet : Met meant found) {γ : Type} {next : β → Meaning γ}
    (h : Fails (next found)) : Fails (meant >>= next) := by
  cases meant with
  | ok b =>
      cases hMet
      exact h
  | error cause => exact fails_error cause

theorem fails_bind_of_next {γ : Type} {next : β → Meaning γ} (h : ∀ b, Fails (next b)) :
    Fails (meant >>= next) := by
  cases meant with
  | ok b => exact h b
  | error cause => exact fails_error cause

end

/-- The values are the topmost ones on the stack, and there is room for one value in their place. -/
structure Machine.Offers (m : Machine) (values : List Value) : Prop where
  le : values.length ≤ m.sp
  slots : m.stack.slice (m.sp - values.length) values.length = values
  room : m.sp - values.length < stackSize
  sp_le : m.sp ≤ m.stack.size

theorem Slots.slice_ofList (least : Nat) (values : List Value) :
    (ofList least values).slice 0 values.length = values := by
  refine List.ext_getElem (by simp [slice]) fun place hSlice hPlace => ?_
  simp [slice, ofList, read, hPlace]

/-- A machine with the given values on its stack that is about to execute an instruction. -/
def Machine.offering (values : List Value) (op : Opcode) (operands : List Nat) : Machine where
  constants := []
  stack := Slots.ofList stackSize values
  sp := values.length
  globals := { size := globalsSize }
  frame :=
    { id := .program 0, function := ⟨Code.assemble [(op, operands)], 0, 0⟩, free := [],
      cursor := 0, base := 0 }
  host := {}

/-- So every list of values is offered by some machine. -/
theorem Machine.offers_offering (values : List Value) (op : Opcode) (operands : List Nat) :
    (offering values op operands).Offers values := by
  have hStart : (offering values op operands).sp - values.length = 0 := Nat.sub_self _
  refine ⟨Nat.le_refl _, ?_, ?_, Nat.le_max_right _ _⟩
  · rw [hStart]
    exact Slots.slice_ofList stackSize values
  · rw [hStart]
    exact Nat.succ_pos _

/-- One value has taken the place of the operands, or the run has been stopped with an error. -/
def Machine.Answered (m : Machine) (values : List Value) (gives : Nat → Value → Prop) (fails : Prop)
    (answer : Except Stop Unit × Machine) : Prop :=
  (∃ value host,
    answer = (.ok (),
      { m with
        stack := m.stack.write (m.sp - values.length) value
        sp := m.sp - values.length + 1
        host := host }) ∧
    m.nextLabel ≤ host.labels.objects ∧ gives host.labels.objects value) ∨
  fails ∧ ∃ cause after, answer = (.error (.error cause), after)

/-- What is known of the answer can be weakened, on either of its two sides. -/
theorem Machine.Answered.mono {m : Machine} {values : List Value}
    {gives weaker : Nat → Value → Prop} {fails weakerFails : Prop}
    {answer : Except Stop Unit × Machine}
    (h : m.Answered values gives fails answer)
    (hGives : ∀ high value, gives high value → weaker high value) (hFails : fails → weakerFails) :
    m.Answered values weaker weakerFails answer := by
  rcases h with ⟨value, host, hAnswer, hLabels, hGiven⟩ | ⟨hFailed, hError⟩
  · exact Or.inl ⟨value, host, hAnswer, hLabels, hGives _ _ hGiven⟩
  · exact Or.inr ⟨hFails hFailed, hError⟩

/-- An answer to what is left to do once the operands have been found is one to the whole. -/
theorem Machine.Answered.bind {β : Type} {meant : Meaning β} {found : β} (hMet : Met meant found)
    {next : β → Meaning Value} {m : Machine} {values : List Value} {low : Nat}
    {answer : Except Stop Unit × Machine}
    (h : m.Answered values (fun high => Value.Meets low high (next found)) (Fails (next found))
      answer) :
    m.Answered values (fun high => Value.Meets low high (meant >>= next)) (Fails (meant >>= next))
      answer := by
  exact h.mono (fun high value hMeets => hMeets.bind hMet) (fails_bind_of_met hMet)

def Arithmetic.operator : Arithmetic → BinaryOp
  | add => .add
  | subtract => .subtract
  | multiply => .multiply
  | divide => .divide

def Comparison.operator : Comparison → BinaryOp
  | equal => .equal
  | notEqual => .notEqual
  | greater => .greater

theorem Value.eq_integer_of_typeName {value : Value} (h : value.typeName = "INTEGER") :
    ∃ n, value = .integer n := by
  cases value <;> simp [typeName] at h
  exact ⟨_, rfl⟩

theorem Value.eq_string_of_typeName {value : Value} (h : value.typeName = "STRING") :
    ∃ id text, value = .string id text := by
  cases value <;> simp [typeName] at h
  exact ⟨_, _, rfl⟩

/-- Only integers can be put in order. -/
theorem meaning_of_order {op : BinaryOp} (hOp : op = .less ∨ op = .greater) {left right : Value}
    (h : ¬ (left.typeName = "INTEGER" ∧ right.typeName = "INTEGER")) :
    ∃ cause, op.meaning left right = .error cause ∧ cause.refusesComparison = false := by
  by_cases hString : left.typeName = "STRING" ∧ right.typeName = "STRING"
  · obtain ⟨idA, a, rfl⟩ := Value.eq_string_of_typeName hString.1
    obtain ⟨idB, b, rfl⟩ := Value.eq_string_of_typeName hString.2
    rcases hOp with rfl | rfl
    · exact ⟨_, rfl, rfl⟩
    · exact ⟨_, rfl, rfl⟩
  · rw [BinaryOp.meaning_of_other op h hString]
    split
    · rcases hOp with rfl | rfl
      · exact ⟨_, rfl, rfl⟩
      · exact ⟨_, rfl, rfl⟩
    · rcases hOp with rfl | rfl
      · exact ⟨_, rfl, rfl⟩
      · exact ⟨_, rfl, rfl⟩

/-- Turning the operands around turns `<` into `>`. -/
theorem meets_less {low high : Nat} {left right value : Value}
    (h : Value.Meets low high (BinaryOp.greater.meaning right left) value) :
    Value.Meets low high (BinaryOp.less.meaning left right) value := by
  by_cases hIntegers : left.typeName = "INTEGER" ∧ right.typeName = "INTEGER"
  · obtain ⟨a, rfl⟩ := Value.eq_integer_of_typeName hIntegers.1
    obtain ⟨b, rfl⟩ := Value.eq_integer_of_typeName hIntegers.2
    exact h
  · obtain ⟨cause, hMeaning, hRefuses⟩ :=
      meaning_of_order (Or.inr rfl) fun hBoth => hIntegers hBoth.symm
    rw [hMeaning] at h
    rw [h.2] at hRefuses
    cases hRefuses

/-- The machine compares for `<` by asking whether the other operand is greater. -/
theorem fails_less {left right : Value} (h : Fails (BinaryOp.greater.meaning right left)) :
    Fails (BinaryOp.less.meaning left right) := by
  by_cases hIntegers : left.typeName = "INTEGER" ∧ right.typeName = "INTEGER"
  · obtain ⟨a, rfl⟩ := Value.eq_integer_of_typeName hIntegers.1
    obtain ⟨b, rfl⟩ := Value.eq_integer_of_typeName hIntegers.2
    exact absurd rfl (h _)
  · obtain ⟨cause, hMeaning, _⟩ := meaning_of_order (Or.inl rfl) hIntegers
    rw [hMeaning]
    exact fails_error cause

/-- Identity is what a comparison of two values means of which neither is an integer, unless the
evaluation of trees refuses to compare them. -/
theorem meets_identical {low middle high : Nat} {left right : Value}
    (hLeft : left.DataWithin low middle) (hRight : right.DataWithin middle high)
    (hLeftInteger : left.typeName ≠ "INTEGER") (hRightInteger : right.typeName ≠ "INTEGER")
    (after : Nat) :
    Value.Meets low after (BinaryOp.equal.meaning left.bare right.bare)
        (.boolean (left.identical right)) ∧
      Value.Meets low after (BinaryOp.notEqual.meaning left.bare right.bare)
        (.boolean (!left.identical right)) := by
  by_cases hType : left.typeName = right.typeName
  · by_cases hString : left.typeName = "STRING"
    · obtain ⟨idA, a, rfl⟩ := Value.eq_string_of_typeName hString
      obtain ⟨idB, b, rfl⟩ := Value.eq_string_of_typeName (hType ▸ hString)
      exact ⟨⟨Value.dataWithin_boolean _, rfl⟩, ⟨Value.dataWithin_boolean _, rfl⟩⟩
    · have hAlike := Value.identical_eq_alike hLeft hRight hType hLeftInteger hString
      have hNoIntegers : ¬ (left.bare.typeName = "INTEGER" ∧ right.bare.typeName = "INTEGER") := by
        simp [hLeftInteger]
      have hNoStrings : ¬ (left.bare.typeName = "STRING" ∧ right.bare.typeName = "STRING") := by
        simp [hString]
      have hBare : left.bare.typeName = right.bare.typeName := by simpa using hType
      rw [BinaryOp.meaning_of_other _ hNoIntegers hNoStrings,
        BinaryOp.meaning_of_other _ hNoIntegers hNoStrings, if_pos hBare, if_pos hBare, hAlike]
      exact ⟨⟨Value.dataWithin_boolean _, rfl⟩, ⟨Value.dataWithin_boolean _, rfl⟩⟩
  · have hBare : left.bare.typeName ≠ right.bare.typeName := by simpa using hType
    rw [BinaryOp.meaning_of_typeName_ne _ hBare, BinaryOp.meaning_of_typeName_ne _ hBare]
    constructor
    · exact ⟨Value.dataWithin_boolean _, by
        simp [Met, EvaluationError.refusesComparison, hLeftInteger, hRightInteger]⟩
    · exact ⟨Value.dataWithin_boolean _, by
        simp [Met, EvaluationError.refusesComparison, hLeftInteger, hRightInteger]⟩

/-- The entries made of keys and values in turn, unless one of the keys cannot be used. -/
def collectValues : List Value → Entries → Except MachineError Entries
  | keyValue :: value :: rest, entries =>
    match keyValue.toKey? with
    | some key => collectValues rest (entries.insert key value)
    | none => .error (.unusableKey keyValue.typeName)
  | _, entries => .ok entries

/-- What was meant by the pairs of a hash literal is found in the entries made of the values. -/
def PairsMet (meant : Meaning Entries) (found : Except MachineError Entries) : Prop :=
  match meant with
  | .ok entries => ∃ made, found = .ok made ∧ entries = bareEntries made
  | .error cause => cause.refusesComparison = true ∨ ∃ error, found = .error error

/-- Collecting entries makes nothing new: labels stay in the range and keys stay apart. -/
theorem collectValues_data {low high : Nat} {values : List Value} {entries made : Entries}
    (hValues : ∀ value ∈ values, value.DataWithin low high) (hNodup : entries.hashKeys.Nodup)
    (hEntries : ∀ entry ∈ entries, entry.2.DataWithin low high)
    (h : collectValues values entries = .ok made) :
    made.hashKeys.Nodup ∧ ∀ entry ∈ made, entry.2.DataWithin low high := by
  induction values, entries using collectValues.induct with
  | case1 keyValue value rest entries key hKey ih =>
      simp only [collectValues, hKey] at h
      refine ih (fun value hMem => hValues value ?_) (Entries.nodup_insert hNodup key value) ?_ h
      · exact List.mem_cons_of_mem _ (List.mem_cons_of_mem _ hMem)
      · intro entry hEntry
        rcases Entries.mem_insert hEntry with rfl | hOld
        · exact hValues _ (List.mem_cons_of_mem _ List.mem_cons_self)
        · exact hEntries entry hOld
  | case2 keyValue value rest entries hKey => simp [collectValues, hKey] at h
  | case3 values entries hShort =>
      have hMade : made = entries := by
        cases values with
        | nil => exact (Except.ok.inj h).symm
        | cons keyValue rest =>
            cases rest with
            | nil => exact (Except.ok.inj h).symm
            | cons value rest => exact (hShort _ _ _ rfl).elim
      rw [hMade]
      exact ⟨hNodup, hEntries⟩

namespace Execution

/-- Collecting from slots is collecting from the values in them. -/
theorem collectEntries_eq_collectValues {stack : Slots} {pairs slot : Nat} (entries : Entries)
    (hSize : slot + 2 * pairs ≤ stack.size) :
    collectEntries stack pairs slot entries =
      (collectValues (stack.slice slot (2 * pairs)) entries).mapError .error := by
  induction pairs generalizing slot entries with
  | zero => rfl
  | succ pairs ih =>
      have hCount : 2 * (pairs + 1) = 2 * pairs + 1 + 1 := by omega
      have hKeySlot : slot < stack.size := by omega
      have hValueSlot : slot + 1 < stack.size := by omega
      rw [hCount, Slots.slice_succ, Slots.slice_succ, collectEntries]
      simp only [Slots.get?, hKeySlot, hValueSlot, if_true, collectValues]
      cases (stack.read slot).toKey? with
      | some key => exact ih _ (by omega)
      | none => rfl

variable {m : Machine} {values : List Value} {gives : Nat → Value → Prop} {fails : Prop}

/-- A hash is made of the entries that come of the values, in their place. A key that cannot be used
stops the run before anything is taken off the stack. -/
theorem hash_of_offers (h : m.Offers values) {pairs : Nat} (hPairs : values.length = 2 * pairs) :
    hash (2 * pairs) m =
      match collectValues values [] with
      | .ok entries =>
        push (.hash (.object m.nextLabel) entries)
          { m with
            sp := m.sp - values.length
            host := { m.host with labels := m.host.labels.takeObject.2 } }
      | .error cause => (.error (.error cause), m) := by
  have hLe := h.le
  have hSp := h.sp_le
  have hSlots := h.slots
  have hHalf : (2 * pairs + 1) / 2 = pairs := by omega
  rw [hPairs] at hLe hSlots ⊢
  unfold hash
  rw [get_bind, if_pos hLe, hHalf, collectEntries_eq_collectValues [] (by omega), hSlots]
  cases collectValues values [] <;> rfl

/-- One value more than the operands leave behind always has room. -/
theorem answered_push (h : m.Offers values) {value : Value} {host : Host}
    (hHost : m.nextLabel ≤ host.labels.objects) (hGives : gives host.labels.objects value) :
    m.Answered values gives fails
      (push value { m with sp := m.sp - values.length, host := host }) := by
  refine Or.inl ⟨value, host, ?_, hHost, hGives⟩
  rw [push_of_lt (by exact h.room)]

theorem answered_fail (hFails : fails) (cause : MachineError) (after : Machine) :
    m.Answered values gives fails ((fail cause : Execution Unit) after) :=
  Or.inr ⟨hFails, cause, after, rfl⟩

/-- Of two operands the right one lies on top. -/
theorem read_of_offers_pair {left right : Value} (h : m.Offers [left, right]) :
    m.stack.read (m.sp - 2) = left ∧ m.stack.read (m.sp - 1) = right := by
  have hLe : 2 ≤ m.sp := h.le
  have hSlots := h.slots
  simp only [List.length_cons, List.length_nil, Nat.zero_add, Nat.reduceAdd, Slots.slice,
    List.range_succ, List.range_zero, List.nil_append, List.cons_append, List.map_cons,
    List.map_nil, Nat.add_zero, List.cons.injEq, and_true] at hSlots
  have hTop : m.sp - 2 + 1 = m.sp - 1 := by omega
  rw [hTop] at hSlots
  exact hSlots

theorem read_of_offers_single {value : Value} (h : m.Offers [value]) :
    m.stack.read (m.sp - 1) = value := by
  have hSlots := h.slots
  simpa [Slots.slice, List.range_succ] using hSlots

/-- Two operands are taken off before anything else is done. -/
theorem popOperands_bind {left right : Value} (h : m.Offers [left, right])
    (next : Value × Value → Execution Unit) :
    (popOperands >>= next) m = next (left, right) { m with sp := m.sp - 2 } := by
  obtain ⟨hLeft, hRight⟩ := read_of_offers_pair h
  rw [bind_apply, popOperands_of_le (by exact h.le), hLeft, hRight]

/-- Taking an operand off leaves it in its slot. -/
theorem pop_bind {value : Value} (h : m.Offers [value]) (next : Value → Execution Unit) :
    (pop >>= next) m = next value { m with sp := m.sp - 1 } := by
  rw [bind_apply, pop_of_pos (by exact h.le), read_of_offers_single h]

/-- The condition is taken off on either branch. -/
theorem execute_jumpUnlessTruthy {condition : Value} (h : m.Offers [condition]) (target : Nat) :
    execute (.jumpUnlessTruthy target) m =
      (.ok (),
        { m with
          sp := m.sp - 1
          frame :=
            if condition.isTruthy then m.frame else { m.frame with cursor := target } }) := by
  rw [execute, pop_bind h]
  cases condition.isTruthy <;> rfl

section

variable {low : Nat}

theorem answered_constant (h : m.Offers []) {index : Nat} {value : Value}
    (hIndex : m.constants[index]? = some value) (hGives : gives m.nextLabel value) :
    m.Answered [] gives fails (execute (.constant index) m) := by
  show m.Answered _ _ _ ((need m.constants[index]? >>= push) m)
  rw [hIndex]
  exact answered_push h (Nat.le_refl _) hGives

theorem answered_boolean (h : m.Offers []) (b : Bool) :
    m.Answered [] (fun high => Value.Meets low high (.ok (.boolean b))) fails
      (execute (.boolean b) m) :=
  answered_push h (Nat.le_refl _) ⟨Value.dataWithin_boolean b, rfl⟩

theorem answered_null (h : m.Offers []) :
    m.Answered [] (fun high => Value.Meets low high (.ok .null)) fails (execute .null m) :=
  answered_push h (Nat.le_refl _) ⟨Value.dataWithin_null, rfl⟩

theorem answered_not {operand : Value} (h : m.Offers [operand]) :
    m.Answered [operand] (fun high => Value.Meets low high (UnaryOp.not.meaning operand.bare))
      (Fails (UnaryOp.not.meaning operand.bare)) (execute .not m) := by
  show m.Answered _ _ _ ((pop >>= fun value => push (.boolean (!value.isTruthy))) m)
  rw [pop_bind h, UnaryOp.meaning, Value.isTruthy_bare]
  exact answered_push h (Nat.le_refl _) ⟨Value.dataWithin_boolean _, rfl⟩

theorem answered_negate {operand : Value} (h : m.Offers [operand]) :
    m.Answered [operand] (fun high => Value.Meets low high (UnaryOp.negate.meaning operand.bare))
      (Fails (UnaryOp.negate.meaning operand.bare)) (execute .negate m) := by
  rw [execute, pop_bind h]
  cases operand with
  | integer n => exact answered_push h (Nat.le_refl _) ⟨Value.dataWithin_integer _, rfl⟩
  | _ => exact answered_fail (fails_error _) _ _

/-- Division by zero and operands of other types are stopped by both sides, and integers wrap around
alike. -/
theorem answered_arithmetic (op : Arithmetic) {left right : Value} (h : m.Offers [left, right]) :
    m.Answered [left, right]
      (fun high => Value.Meets low high (op.operator.meaning left.bare right.bare))
      (Fails (op.operator.meaning left.bare right.bare)) (execute (.arithmetic op) m) := by
  show m.Answered _ _ _ (arithmetic op m)
  unfold arithmetic
  rw [popOperands_bind h]
  generalize hPair : (left, right) = pair
  split
  · cases hPair
    cases op with
    | divide =>
        simp only [Arithmetic.operator, BinaryOp.meaning, BinaryOp.integerMeaning, Value.bare]
        split
        · exact answered_fail (fails_error _) _ _
        · exact answered_push h (Nat.le_refl _) ⟨Value.dataWithin_integer _, rfl⟩
    | _ => exact answered_push h (Nat.le_refl _) ⟨Value.dataWithin_integer _, rfl⟩
  · cases hPair
    cases op with
    | add =>
        exact answered_push h (Nat.le_succ _) ⟨Value.dataWithin_string _ _, rfl⟩
    | _ => exact answered_fail (fails_error _) _ _
  · rename_i hInteger hString
    cases hPair
    refine answered_fail ?_ _ _
    rw [BinaryOp.meaning_of_other]
    · split
      · cases op <;> exact fails_error _
      · exact fails_error _
    · rintro ⟨hLeft, hRight⟩
      rw [Value.typeName_bare] at hLeft hRight
      obtain ⟨a, rfl⟩ := Value.eq_integer_of_typeName hLeft
      obtain ⟨b, rfl⟩ := Value.eq_integer_of_typeName hRight
      exact hInteger a b rfl rfl
    · rintro ⟨hLeft, hRight⟩
      rw [Value.typeName_bare] at hLeft hRight
      obtain ⟨idA, a, rfl⟩ := Value.eq_string_of_typeName hLeft
      obtain ⟨idB, b, rfl⟩ := Value.eq_string_of_typeName hRight
      exact hString idA a idB b rfl rfl

/-- What is not a pair of integers is compared by identity. Arrays and hashes that were made one
after the other have labels of their own, so they are never the same. -/
theorem answered_comparison (op : Comparison) {left right : Value} {middle : Nat}
    (h : m.Offers [left, right]) (hLeft : left.DataWithin low middle)
    (hRight : right.DataWithin middle m.nextLabel) :
    m.Answered [left, right]
      (fun high => Value.Meets low high (op.operator.meaning left.bare right.bare))
      (Fails (op.operator.meaning left.bare right.bare)) (execute (.comparison op) m) := by
  show m.Answered _ _ _ (comparison op m)
  unfold comparison
  rw [popOperands_bind h]
  generalize hPair : (left, right) = pair
  split
  · cases hPair
    cases op <;> exact answered_push h (Nat.le_refl _) ⟨Value.dataWithin_boolean _, rfl⟩
  · rename_i hInteger
    cases hPair
    refine answered_fail ?_ _ _
    rw [BinaryOp.meaning_of_typeName_ne]
    · exact fails_error _
    · rw [Value.typeName_bare, Value.typeName_bare]
      intro hType
      obtain ⟨b, rfl⟩ := Value.eq_integer_of_typeName hType.symm
      exact hInteger _ rfl
  · rename_i hInteger
    cases hPair
    refine answered_fail ?_ _ _
    rw [BinaryOp.meaning_of_typeName_ne]
    · exact fails_error _
    · rw [Value.typeName_bare, Value.typeName_bare]
      intro hType
      obtain ⟨b, rfl⟩ := Value.eq_integer_of_typeName hType
      exact hInteger _ rfl
  · rename_i hBoth hLeftInteger hRightInteger
    cases hPair
    have hLeftType : left.typeName ≠ "INTEGER" := by
      intro hType
      obtain ⟨a, rfl⟩ := Value.eq_integer_of_typeName hType
      exact hLeftInteger _ rfl
    have hRightType : right.typeName ≠ "INTEGER" := by
      intro hType
      obtain ⟨b, rfl⟩ := Value.eq_integer_of_typeName hType
      exact hRightInteger _ rfl
    have hMeets := meets_identical hLeft hRight hLeftType hRightType m.nextLabel
    cases op with
    | equal => exact answered_push h (Nat.le_refl _) hMeets.1
    | notEqual => exact answered_push h (Nat.le_refl _) hMeets.2
    | greater =>
        have hNoIntegers :
            ¬ (left.bare.typeName = "INTEGER" ∧ right.bare.typeName = "INTEGER") := by
          simp [hLeftType]
        obtain ⟨cause, hMeaning, _⟩ := meaning_of_order (Or.inr rfl) hNoIntegers
        refine answered_fail ?_ _ _
        rw [Comparison.operator, hMeaning]
        exact fails_error cause

/-- What is missing comes out as null, and what cannot be indexed as an error. -/
theorem answered_index {object key : Value} (h : m.Offers [object, key])
    (hObject : object.DataWithin low m.nextLabel) :
    m.Answered [object, key]
      (fun high => Value.Meets low high (indexMeaning object.bare key.bare))
      (Fails (indexMeaning object.bare key.bare)) (execute .index m) := by
  show m.Answered _ _ _ (index m)
  unfold index
  rw [popOperands_bind h]
  generalize hPair : (object, key) = pair
  split
  · rename_i id elements i
    cases hPair
    simp only [Value.bare, indexMeaning]
    split
    · exact answered_push h (Nat.le_refl _) ⟨Value.dataWithin_null, rfl⟩
    · rw [bareElements_eq_map, List.getElem?_map, ← Value.bare_getD]
      refine answered_push h (Nat.le_refl _) ⟨Value.DataWithin.getD fun value hValue => ?_, rfl⟩
      exact hObject.inside value (List.mem_of_getElem? hValue)
  · rename_i id entries
    cases hPair
    simp only [Value.bare, indexMeaning]
    rw [Value.hashKey?_bare]
    cases hKey : key.hashKey? with
    | some hashKey =>
        simp only
        rw [Entries.find?_bareEntries, ← Value.bare_getD]
        exact answered_push h (Nat.le_refl _) ⟨hObject.find? hashKey, rfl⟩
    | none => exact answered_fail (fails_error _) _ _
  · rename_i hArray hHash
    cases hPair
    refine answered_fail ?_ _ _
    cases object with
    | array id elements =>
        cases key with
        | integer i => exact (hArray _ _ _ rfl rfl).elim
        | _ => exact fails_error _
    | hash id entries => exact (hHash _ _ rfl).elim
    | _ => exact fails_error _

/-- The array takes the next label, which lies above those of its elements. -/
theorem answered_array {elements : List Value} (h : m.Offers elements) {low : Nat}
    (hLow : low ≤ m.nextLabel)
    (hElements : ∀ element ∈ elements, element.DataWithin low m.nextLabel) :
    m.Answered elements
      (fun high => Value.Meets low high (.ok (.array default (bareElements elements)))) fails
      (execute (.array elements.length) m) := by
  show m.Answered _ _ _ ((popMany elements.length >>= _) m)
  rw [bind_apply, popMany_of_le h.le, h.slots]
  have hLabel : Label.Within low (m.nextLabel + 1) (.object m.nextLabel) :=
    ⟨_, rfl, hLow, Nat.lt_succ_self _⟩
  refine answered_push h (Nat.le_succ _) ⟨Value.dataWithin_array hLabel fun element hMem => ?_, rfl⟩
  exact (hElements element hMem).mono (Nat.le_refl _) (Nat.le_succ _)

/-- The pairs are stored in the order in which they lie on the stack, as the meaning stores them. -/
theorem answered_hash {values : List Value} (h : m.Offers values) {pairs : Nat}
    (hPairs : values.length = 2 * pairs) {low : Nat} (hLow : low ≤ m.nextLabel)
    (hValues : ∀ value ∈ values, value.DataWithin low m.nextLabel) {meant : Meaning Entries}
    (hMet : PairsMet meant (collectValues values [])) :
    m.Answered values
      (fun high => Value.Meets low high (meant >>= fun entries => return .hash default entries))
      (Fails (meant >>= fun entries => return Value.hash default entries))
      (execute (.hash (2 * pairs)) m) := by
  show m.Answered _ _ _ (hash (2 * pairs) m)
  cases hMade : collectValues values [] with
  | ok made =>
      have hNone : (Entries.hashKeys []).Nodup := List.nodup_nil
      obtain ⟨hNodup, hEntries⟩ := collectValues_data hValues hNone (by simp) hMade
      have hLabel : Label.Within low (m.nextLabel + 1) (.object m.nextLabel) :=
        ⟨_, rfl, hLow, Nat.lt_succ_self _⟩
      have hWithin : (Value.hash (.object m.nextLabel) made).DataWithin low (m.nextLabel + 1) :=
        Value.dataWithin_hash hLabel hNodup fun entry hMem =>
          (hEntries entry hMem).mono (Nat.le_refl _) (Nat.le_succ _)
      rw [hash_of_offers h hPairs, hMade]
      refine answered_push h (Nat.le_succ _) ⟨hWithin, ?_⟩
      rw [hMade] at hMet
      cases meant with
      | ok entries =>
          obtain ⟨found, hFound, rfl⟩ := hMet
          cases hFound
          rfl
      | error cause =>
          rcases hMet with hRefuses | ⟨error, hError⟩
          · exact hRefuses
          · cases hError
  | error cause =>
      rw [hash_of_offers h hPairs, hMade]
      refine answered_fail ?_ cause m
      rw [hMade] at hMet
      cases meant with
      | ok entries =>
          obtain ⟨found, hFound, _⟩ := hMet
          cases hFound
      | error cause => exact fails_error cause

end

end Execution

end Tandem
