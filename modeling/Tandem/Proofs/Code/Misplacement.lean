import Tandem.Proofs.Code.Patching
/-!
Changes at wrong positions. A change goes by the byte at its position alone. At the start of an
instruction that does not take exactly one operand, and at the end of a stream and beyond it, it is
refused. Within the operand bytes of an instruction it is refused unless these look like an opcode
with one operand and enough bytes follow: then it writes over the bytes that follow, whatever
instruction they belong to.
-/
namespace Tandem.Code

/-- Whatever the operand, the change is refused and leaves the stream as it is. -/
def Refuses (code : Code) (position : Nat) : Prop :=
  ∀ operand, ∃ cause, changeOperand position operand code = (.error cause, code)

/-- The bytes from the position on could be an instruction with one operand. -/
def LooksSingleAt (code : Code) (position : Nat) : Prop :=
  ∃ op, code.SingleAt position op ∧ position + 1 + op.operandSize ≤ code.size

/-- A change is refused wherever the bytes could not be an instruction with one operand, and nowhere
else. -/
theorem refuses_iff (code : Code) (position : Nat) :
    code.Refuses position ↔ ¬ code.LooksSingleAt position := by
  constructor
  · rintro hRefuses ⟨op, hOp, hRoom⟩
    obtain ⟨cause, hChange⟩ := hRefuses 0
    rw [changeOperand_of_singleAt 0 hOp, if_pos hRoom] at hChange
    cases hChange
  · intro hNone operand
    cases changeCase code position with
    | outside hOutside => exact ⟨_, changeOperand_of_outside operand hOutside⟩
    | other hInside hOther => exact ⟨_, changeOperand_of_other operand hInside hOther⟩
    | @cutShort op hOp hShort =>
        refine ⟨.cutShort, ?_⟩
        rw [changeOperand_of_singleAt operand hOp, if_neg (Nat.not_le.mpr hShort)]
    | @whole op hOp hRoom => exact absurd ⟨op, hOp, hRoom⟩ hNone

/-- The byte where an instruction stands is its opcode. -/
theorem StandsAt.byteAt? {instructions : List Written} (hFull : ∀ i ∈ instructions, i.Full)
    {place position : Nat} {i : Written} (h : StandsAt instructions place position i) :
    (emitAll {} instructions).2.byteAt? position = some i.1.toByte := by
  obtain ⟨hWritten, rfl⟩ := (standsAt_iff hFull).mp h
  rw [emitAll_empty hFull, byteAt?_eq_getElem?, toList_assemble_of_getElem? hWritten,
    Opcode.encode_eq, ← length_toList]
  simp

def Misplaced (instructions : List Written) (position : Nat) : Prop :=
  ∀ place i, StandsAt instructions place position i → ¬ i.Single

def AmongOperands (instructions : List Written) (position : Nat) : Prop :=
  ∃ place start i, StandsAt instructions place start i ∧ start < position ∧
    position < start + i.size

/-- Only operand bytes can be taken for an instruction that was not appended. -/
theorem amongOperands_of_looksSingleAt {instructions : List Written}
    (hFull : ∀ i ∈ instructions, i.Full) {position : Nat} (h : Misplaced instructions position)
    (hLooks : (emitAll {} instructions).2.LooksSingleAt position) :
    AmongOperands instructions position := by
  obtain ⟨op, hOp, _⟩ := hLooks
  obtain ⟨place, start, i, hStands, hFrom, hTo⟩ := exists_standsAt hFull hOp.lt_size
  refine ⟨place, start, i, hStands, ?_, hTo⟩
  refine Nat.lt_of_le_of_ne hFrom fun hStart => ?_
  subst hStart
  have hByte : some op.toByte = some i.1.toByte := hOp.2.symm.trans (hStands.byteAt? hFull)
  obtain rfl := Opcode.eq_of_toByte_eq (Option.some.inj hByte)
  exact h place i hStands hOp.1

/-- A change at a position at which no instruction with one operand starts is refused, whatever the
operand, unless the bytes there could be such an instruction; that happens only among the operands
of an instruction. -/
theorem misplaced_changes_are_refused {instructions : List Written}
    (hFull : ∀ i ∈ instructions, i.Full) {position : Nat}
    (hMisplaced : Misplaced instructions position) :
    ((emitAll {} instructions).2.Refuses position ↔
      ¬ (AmongOperands instructions position ∧
        (emitAll {} instructions).2.LooksSingleAt position)) ∧
    (¬ AmongOperands instructions position → (emitAll {} instructions).2.Refuses position) := by
  have hAmong := amongOperands_of_looksSingleAt hFull hMisplaced
  have hRefuses : (emitAll {} instructions).2.Refuses position ↔
      ¬ (AmongOperands instructions position ∧
        (emitAll {} instructions).2.LooksSingleAt position) := by
    rw [refuses_iff]
    exact not_congr ⟨fun hLooks => ⟨hAmong hLooks, hLooks⟩, And.right⟩
  exact ⟨hRefuses, fun hOutside => hRefuses.mpr fun h => hOutside h.1⟩

/-- A jump that does not know its target yet, before two instructions that drop a value. -/
def openBranch : List Written :=
  [(.pushTrue, []), (.jumpUnlessTruthy, [9999]), (.pop, []), (.pop, [])]

theorem openBranch_full : ∀ i ∈ openBranch, i.Full := by
  simp [openBranch, Written.Full, Opcode.operandWidths]

theorem misplaced_openBranch {position : Nat} (h : position ∉ [0, 1, 4, 5]) :
    Misplaced openBranch position :=
  fun _ _ hStands => absurd (List.mem_of_getElem? hStands.start) h

/-- The first operand byte of the jump is no opcode, and at the end there is no byte at all. -/
theorem openBranch_misplaced_changes_are_refused :
    (∀ i ∈ openBranch, i.Full) ∧ Misplaced openBranch 2 ∧
      (emitAll {} openBranch).2.Refuses 2 ∧ Misplaced openBranch 6 ∧
      (emitAll {} openBranch).2.Refuses 6 := by
  have hFirst : Misplaced openBranch 2 := misplaced_openBranch (by decide)
  have hEnd : Misplaced openBranch 6 := misplaced_openBranch (by decide)
  refine ⟨openBranch_full, hFirst, ?_, hEnd, ?_⟩
  · refine (misplaced_changes_are_refused openBranch_full hFirst).1.mpr ?_
    rintro ⟨_, op, ⟨_, hByte⟩, _⟩
    cases op <;> cases hByte
  · refine (misplaced_changes_are_refused openBranch_full hEnd).1.mpr ?_
    rintro ⟨_, op, ⟨_, hByte⟩, _⟩
    cases hByte

/-- The second operand byte of the jump is the opcode of another jump. A change there is made, and
both instructions that drop a value become instructions that push one. -/
theorem misplaced_change_goes_through :
    (∀ i ∈ openBranch, i.Full) ∧ Misplaced openBranch 3 ∧
      changeOperand 3 514 (emitAll {} openBranch).2 =
        (.ok (), (emitAll {} [(.pushTrue, []), (.jumpUnlessTruthy, [9999]), (.pushTrue, []),
          (.pushTrue, [])]).2) :=
  ⟨openBranch_full, misplaced_openBranch (by decide), rfl⟩

end Tandem.Code
