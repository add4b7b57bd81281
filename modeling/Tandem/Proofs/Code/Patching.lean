import Tandem.Proofs.Code.Emission
/-!
Operands changed in place. A change looks only at the byte at its position: if that is an opcode
with exactly one operand, and the stream goes on far enough, the operand bytes are written. So a
change of an instruction that was appended to a stream has the same effect as appending it with the
new operand to begin with. A change at a position at which no such instruction starts is refused,
except where the operand bytes of another instruction happen to look like one.
-/
namespace Tandem.Code

/-- An opcode with exactly one operand stands at the position. It need not be the start of an
instruction. -/
def SingleAt (code : Code) (position : Nat) (op : Opcode) : Prop :=
  op.operandWidths.length = 1 ∧ code.byteAt? position = some op.toByte

/-- What a change finds at its position. -/
inductive ChangeCase (code : Code) (position : Nat) : Prop where
  | outside (hOutside : code.size ≤ position)
  | other (hInside : position < code.size) (hOther : ∀ op, ¬ code.SingleAt position op)
  | cutShort {op : Opcode} (hOp : code.SingleAt position op)
      (hShort : code.size < position + 1 + op.operandSize)
  | whole {op : Opcode} (hOp : code.SingleAt position op)
      (hRoom : position + 1 + op.operandSize ≤ code.size)

/-- All that a change does to a stream, whatever the bytes of the stream are. -/
structure EditsOperand (code : Code) (position operand : Nat) (outcome : Except PatchError Unit)
    (left : Code) : Prop where
  outside : outcome = .error .outside ↔ code.size ≤ position
  notSingle : outcome = .error (.notSingleOperand position) ↔
    position < code.size ∧ ∀ op, ¬ code.SingleAt position op
  cutShort : outcome = .error .cutShort ↔
    ∃ op, code.SingleAt position op ∧ code.size < position + 1 + op.operandSize
  changed : outcome = .ok () ↔
    ∃ op, code.SingleAt position op ∧ position + 1 + op.operandSize ≤ code.size
  /-- A change that is refused leaves every byte as it was. -/
  refused : ∀ cause, outcome = .error cause → left = code
  size : left.size = code.size
  /-- Bytes change only right after the position, as many as the operand takes up. -/
  kept : ∀ offset, left.byteAt? offset ≠ code.byteAt? offset →
    ∃ op, code.SingleAt position op ∧ position < offset ∧ offset ≤ position + op.operandSize
  written : ∀ op, code.SingleAt position op → outcome = .ok () →
    readNumber? op.operandSize (left.toList.drop (position + 1)) =
      some (operand % 256 ^ op.operandSize)

section

variable {code : Code} {position : Nat} {op : Opcode}

theorem SingleAt.eq (h : code.SingleAt position op) {other : Opcode}
    (hOther : code.SingleAt position other) : other = op :=
  Opcode.eq_of_toByte_eq (Option.some.inj (hOther.2.symm.trans h.2))

theorem SingleAt.iff_eq (h : code.SingleAt position op) (other : Opcode) :
    code.SingleAt position other ↔ other = op :=
  ⟨h.eq, fun hEq => hEq ▸ h⟩

theorem SingleAt.lt_size (h : code.SingleAt position op) : position < code.size :=
  lt_size_of_byteAt? h.2

theorem encode_single (hOne : op.operandWidths.length = 1) (operand : Nat) :
    op.encode [operand] = op.toByte :: bigEndian op.operandSize operand := by
  obtain ⟨width, hWidths⟩ := List.length_eq_one_iff.mp hOne
  simp [Opcode.encode, Opcode.operandSize, hWidths]

theorem toList_overwrite (code : Code) (position : Nat) (bytes : List UInt8) :
    (code.overwrite position bytes).toList =
      code.toList.take position ++ bytes ++ code.toList.drop (position + bytes.length) :=
  toList_ofList _

/-- Nothing changes where the byte that stands there is written. -/
theorem overwrite_cons {byte : UInt8} (h : code.byteAt? position = some byte)
    (bytes : List UInt8) :
    code.overwrite position (byte :: bytes) = code.overwrite (position + 1) bytes := by
  have hTake : code.toList.take (position + 1) = code.toList.take position ++ [byte] := by
    rw [List.take_add_one, ← byteAt?_eq_getElem?, h]
    rfl
  simp [overwrite, hTake, Nat.add_assoc, Nat.add_comm 1]

theorem size_overwrite {bytes : List UInt8} (hRoom : position + bytes.length ≤ code.size) :
    (code.overwrite position bytes).size = code.size := by
  rw [← length_toList, toList_overwrite]
  simp
  omega

theorem byteAt?_overwrite_of_outside {bytes : List UInt8} {offset : Nat}
    (hRoom : position + bytes.length ≤ code.size)
    (h : offset < position ∨ position + bytes.length ≤ offset) :
    (code.overwrite position bytes).byteAt? offset = code.byteAt? offset := by
  have hTake : (code.toList.take position).length = position :=
    List.length_take_of_le (by rw [length_toList]; omega)
  rw [byteAt?_eq_getElem?, byteAt?_eq_getElem?, toList_overwrite]
  rcases h with hBefore | hAfter
  · rw [List.append_assoc, List.getElem?_append_left (by omega), List.getElem?_take_of_lt hBefore]
  · have hWritten : (code.toList.take position ++ bytes).length = position + bytes.length := by
      rw [List.length_append, hTake]
    rw [List.getElem?_append_right (by omega), hWritten, List.getElem?_drop,
      Nat.add_sub_cancel' hAfter]

/-- The bytes that were written are found again. -/
theorem drop_overwrite {bytes : List UInt8} (h : position ≤ code.size) :
    (code.overwrite position bytes).toList.drop position =
      bytes ++ code.toList.drop (position + bytes.length) := by
  have hTake : (code.toList.take position).length = position :=
    List.length_take_of_le (by rwa [length_toList])
  rw [toList_overwrite, List.append_assoc, List.drop_left' hTake]

/-- Of two writings of the same length at one position only the last one is seen. -/
theorem overwrite_overwrite {first last : List UInt8} (hLength : first.length = last.length)
    (h : position ≤ code.size) :
    (code.overwrite position first).overwrite position last = code.overwrite position last := by
  have hTake : (code.toList.take position).length = position :=
    List.length_take_of_le (by rwa [length_toList])
  have hWritten : (code.toList.take position ++ first).length = position + first.length := by
    rw [List.length_append, hTake]
  apply eq_of_toList_eq
  rw [toList_overwrite, toList_overwrite, toList_overwrite, ← hLength, List.drop_left' hWritten,
    List.append_assoc (code.toList.take position) first, List.take_left' hTake]

end

theorem changeCase (code : Code) (position : Nat) : code.ChangeCase position := by
  by_cases hInside : position < code.size
  · by_cases hSingle : ∃ op, code.SingleAt position op
    · obtain ⟨op, hOp⟩ := hSingle
      by_cases hRoom : position + 1 + op.operandSize ≤ code.size
      · exact ChangeCase.whole hOp hRoom
      · exact ChangeCase.cutShort hOp (Nat.not_le.mp hRoom)
    · exact ChangeCase.other hInside (not_exists.mp hSingle)
  · exact ChangeCase.outside (Nat.not_lt.mp hInside)

section

variable {code : Code} {position : Nat} {op : Opcode} (operand : Nat)

/-- A change starts by looking at the stream. -/
theorem get_bind (next : Code → Edit Unit) (code : Code) : (get >>= next) code = next code code :=
  rfl

theorem changeOperand_of_outside (h : code.size ≤ position) :
    changeOperand position operand code = (.error .outside, code) := by
  have hNone : code.bytes[position]? = none := Array.getElem?_eq_none h
  rw [changeOperand, get_bind]
  simp only [hNone]
  rfl

theorem changeOperand_of_other (hInside : position < code.size)
    (hOther : ∀ op, ¬ code.SingleAt position op) :
    changeOperand position operand code = (.error (.notSingleOperand position), code) := by
  obtain ⟨byte, hByte⟩ := exists_byteAt?_of_lt hInside
  have hNone : ((Opcode.ofByte? byte).filter fun op => op.operandWidths.length == 1) = none := by
    refine Option.filter_eq_none_iff.mpr fun op hOp hOne => hOther op ?_
    exact ⟨by simpa using hOne, by rw [hByte, Opcode.toByte_of_ofByte? hOp]⟩
  rw [byteAt?] at hByte
  rw [changeOperand, get_bind]
  simp only [hByte, hNone]
  rfl

/-- Where an opcode with one operand stands, it depends on the rest of the stream whether the change
is made. -/
theorem changeOperand_of_singleAt (hOp : code.SingleAt position op) :
    changeOperand position operand code =
      if position + 1 + op.operandSize ≤ code.size then
        (.ok (), code.overwrite (position + 1) (bigEndian op.operandSize operand))
      else (.error .cutShort, code) := by
  obtain ⟨hOne, hByte⟩ := hOp
  have hFound : ((Opcode.ofByte? op.toByte).filter fun op => op.operandWidths.length == 1) =
      some op := by
    simp [Opcode.ofByte?_toByte, hOne]
  have hLength : position + (op.encode [operand]).length = position + 1 + op.operandSize := by
    rw [encode_single hOne, List.length_cons, length_bigEndian]
    omega
  have hBytes := hByte
  rw [byteAt?] at hBytes
  rw [changeOperand, get_bind]
  simp only [hBytes, hFound, hLength]
  by_cases hRoom : position + 1 + op.operandSize ≤ code.size
  · rw [if_pos hRoom, if_pos hRoom, encode_single hOne, overwrite_cons hByte]
    rfl
  · rw [if_neg hRoom, if_neg hRoom]
    rfl

end

/-- A change writes the operand of the opcode at its position, or it leaves everything as it is. -/
theorem editsOperand_changeOperand (code : Code) (position operand : Nat) :
    code.EditsOperand position operand (changeOperand position operand code).1
      (changeOperand position operand code).2 := by
  cases changeCase code position with
  | outside hOutside =>
      have hNone : ∀ op, ¬ code.SingleAt position op :=
        fun op hSingle => absurd hSingle.lt_size (Nat.not_lt.mpr hOutside)
      rw [changeOperand_of_outside operand hOutside]
      exact
        { outside := by simp [hOutside]
          notSingle := by simp [Nat.not_lt.mpr hOutside]
          cutShort := by simp [hNone]
          changed := by simp [hNone]
          refused := fun _ _ => rfl
          size := rfl
          kept := fun offset hOffset => absurd rfl hOffset
          written := fun op hSingle => absurd hSingle (hNone op) }
  | other hInside hOther =>
      rw [changeOperand_of_other operand hInside hOther]
      exact
        { outside := by simp [hInside]
          notSingle := by simp [hInside, hOther]
          cutShort := by simp [hOther]
          changed := by simp [hOther]
          refused := fun _ _ => rfl
          size := rfl
          kept := fun offset hOffset => absurd rfl hOffset
          written := fun op hSingle => absurd hSingle (hOther op) }
  | @cutShort op hOp hShort =>
      rw [changeOperand_of_singleAt operand hOp, if_neg (Nat.not_le.mpr hShort)]
      exact
        { outside := by simp [hOp.lt_size]
          notSingle := by simp [hOp.iff_eq]
          cutShort := by simp [hOp.iff_eq, hShort]
          changed := by simp [hOp.iff_eq, hShort]
          refused := fun _ _ => rfl
          size := rfl
          kept := fun offset hOffset => absurd rfl hOffset
          written := fun _ _ hOk => nomatch hOk }
  | @whole op hOp hRoom =>
      rw [changeOperand_of_singleAt operand hOp, if_pos hRoom]
      have hBytes : position + 1 + (bigEndian op.operandSize operand).length ≤ code.size := by
        rwa [length_bigEndian]
      exact
        { outside := by simp [hOp.lt_size]
          notSingle := by simp [hOp.iff_eq]
          cutShort := by simp [hOp.iff_eq, hRoom]
          changed := by simp [hOp.iff_eq, hRoom]
          refused := fun _ hError => nomatch hError
          size := size_overwrite hBytes
          kept := by
            intro offset hOffset
            refine ⟨op, hOp, ?_⟩
            by_contra hOutside
            refine hOffset (byteAt?_overwrite_of_outside hBytes ?_)
            rw [length_bigEndian]
            omega
          written := by
            intro other hOther _
            rw [hOp.eq hOther, drop_overwrite hOp.lt_size, readNumber?_bigEndian] }

/-- One change after another: the second one is made in the stream that the first one left, and only
if the first one was not refused. -/
theorem followed_by_of_ok {first second : Edit Unit} {code changed : Code}
    (h : first code = (.ok (), changed)) :
    (do first; second : Edit Unit) code = second changed := by
  show (let answer := first code; ExceptT.bindCont (fun _ => second) answer.1 answer.2) = _
  rw [h]
  rfl

theorem followed_by_of_error {first second : Edit Unit} {code left : Code} {cause : PatchError}
    (h : first code = (.error cause, left)) :
    (do first; second : Edit Unit) code = (.error cause, left) := by
  show (let answer := first code; ExceptT.bindCont (fun _ => second) answer.1 answer.2) = _
  rw [h]
  rfl

def Written.Single (i : Written) : Prop := i.1.operandWidths.length = 1

def Written.withOperand (i : Written) (operand : Nat) : Written := (i.1, [operand])

/-- Changing the operand of the instruction that stands at the position amounts to appending that
instruction with the new operand. -/
structure LikeEmission (instructions : List Written) (place position : Nat) (i : Written)
    (operand : Nat) : Prop where
  made : changeOperand position operand (emitAll {} instructions).2 =
    (.ok (), (emitAll {} (instructions.set place (i.withOperand operand))).2)
  starts : (emitAll {} (instructions.set place (i.withOperand operand))).1 =
    (emitAll {} instructions).1
  /-- The instruction is read with the new operand, reduced to its width. -/
  shown : (emitAll {} (instructions.set place (i.withOperand operand))).2.entryAt? position =
    some ⟨position, .instruction i.1 [operand % 256 ^ i.1.operandSize]⟩
  /-- Every other instruction is read as before. -/
  kept : ∀ other start j, place ≠ other → StandsAt instructions other start j →
    (emitAll {} (instructions.set place (i.withOperand operand))).2.entryAt? start =
      (emitAll {} instructions).2.entryAt? start
  /-- It does not matter which of two instructions is changed first. -/
  commutes : ∀ other start j otherOperand, place ≠ other → StandsAt instructions other start j →
    j.Single →
    (do changeOperand position operand; changeOperand start otherOperand : Edit Unit)
        (emitAll {} instructions).2 =
      (do changeOperand start otherOperand; changeOperand position operand : Edit Unit)
        (emitAll {} instructions).2 ∧
    ((do changeOperand position operand; changeOperand start otherOperand : Edit Unit)
      (emitAll {} instructions).2).1 = .ok ()

theorem Written.Single.full {i : Written} (h : i.Single) (operand : Nat) :
    (i.withOperand operand).Full := h.symm

theorem Written.Single.exists_eq {i : Written} (h : i.Single) (hFull : i.Full) :
    ∃ old, i = i.withOperand old := by
  obtain ⟨op, operands⟩ := i
  obtain ⟨old, rfl⟩ := List.length_eq_one_iff.mp (hFull.trans h)
  exact ⟨old, rfl⟩

/-- A change is made wherever the bytes of an instruction with one operand stand. -/
theorem changeOperand_of_append {code : Code} {before after : List UInt8} {op : Opcode} {old : Nat}
    (hOne : op.operandWidths.length = 1)
    (h : code.toList = before ++ op.encode [old] ++ after) (operand : Nat) :
    changeOperand before.length operand code =
      (.ok (), ofList (before ++ op.encode [operand] ++ after)) := by
  have hByte : code.byteAt? before.length = some op.toByte := by
    rw [byteAt?_eq_getElem?, h, encode_single hOne]
    simp
  have hOp : code.SingleAt before.length op := ⟨hOne, hByte⟩
  have hRoom : before.length + 1 + op.operandSize ≤ code.size := by
    rw [← length_toList, h, encode_single hOne]
    simp
    omega
  have hLength : (op.encode [old]).length = (op.encode [operand]).length := by
    simp [encode_single hOne]
  rw [changeOperand_of_singleAt operand hOp, if_pos hRoom, ← overwrite_cons hByte,
    ← encode_single hOne, overwrite, h, ← hLength, ← List.length_append, List.drop_left,
    List.append_assoc before, List.take_left]

section

variable {instructions : List Written} {place position : Nat} {i : Written}
  (hFull : ∀ i ∈ instructions, i.Full)

include hFull

/-- Changing the operand of an instruction that was appended gives the stream to which it was
appended with the new operand. -/
theorem changeOperand_emitAll (h : StandsAt instructions place position i) (hOne : i.Single)
    (operand : Nat) :
    changeOperand position operand (emitAll {} instructions).2 =
      (.ok (), (emitAll {} (instructions.set place (i.withOperand operand))).2) := by
  obtain ⟨hWritten, rfl⟩ := (standsAt_iff hFull).mp h
  obtain ⟨old, hOld⟩ := hOne.exists_eq (hFull i (List.mem_of_getElem? hWritten))
  have hNew := hOne.full operand
  have hPlace : place < instructions.length := (List.getElem?_eq_some_iff.mp hWritten).1
  have hBytes := toList_assemble_of_getElem? hWritten
  rw [hOld] at hBytes
  rw [emitAll_empty hFull, emitAll_empty (full_set hFull hNew), ← length_toList,
    changeOperand_of_append hOne hBytes operand]
  refine Prod.ext rfl (eq_of_toList_eq ?_)
  rw [toList_ofList, toList_assemble_of_getElem? (List.getElem?_set_self hPlace),
    List.take_set_of_le (Nat.le_refl _), List.drop_set_of_lt (Nat.lt_succ_self _)]
  rfl

/-- Two changes of different instructions give the stream to which both were appended with their new
operands, whichever change comes first. -/
theorem changeOperand_twice (h : StandsAt instructions place position i) (hOne : i.Single)
    {other start : Nat} {j : Written} (hOther : StandsAt instructions other start j)
    (hOtherOne : j.Single) (hNe : place ≠ other) (operand otherOperand : Nat) :
    (do changeOperand position operand; changeOperand start otherOperand : Edit Unit)
        (emitAll {} instructions).2 =
      (.ok (), (emitAll {} ((instructions.set place (i.withOperand operand)).set other
        (j.withOperand otherOperand))).2) := by
  have hNew := hOne.full operand
  rw [followed_by_of_ok (changeOperand_emitAll hFull h hOne operand)]
  have hStands := h.set_of_ne hFull hNew rfl hNe hOther
  exact changeOperand_emitAll (full_set hFull hNew) hStands hOtherOne otherOperand

end

/-- Of two changes at one position the last one wins, in any stream. If it is refused, so was the
first one. -/
theorem changeOperand_again (code : Code) (position first last : Nat) :
    (do changeOperand position first; changeOperand position last : Edit Unit) code =
      changeOperand position last code := by
  cases changeCase code position with
  | outside hOutside =>
      rw [followed_by_of_error (changeOperand_of_outside first hOutside),
        changeOperand_of_outside last hOutside]
  | other hInside hOther =>
      rw [followed_by_of_error (changeOperand_of_other first hInside hOther),
        changeOperand_of_other last hInside hOther]
  | @cutShort op hOp hShort =>
      have hRoom := Nat.not_le.mpr hShort
      have hFirst := changeOperand_of_singleAt first hOp
      rw [if_neg hRoom] at hFirst
      rw [followed_by_of_error hFirst, changeOperand_of_singleAt last hOp, if_neg hRoom]
  | @whole op hOp hRoom =>
      have hFirst := changeOperand_of_singleAt first hOp
      rw [if_pos hRoom] at hFirst
      have hBytes : position + 1 + (bigEndian op.operandSize first).length ≤ code.size := by
        rwa [length_bigEndian]
      have hStill : (code.overwrite (position + 1) (bigEndian op.operandSize first)).SingleAt
          position op :=
        ⟨hOp.1, (byteAt?_overwrite_of_outside hBytes (Or.inl (Nat.lt_succ_self _))).trans hOp.2⟩
      rw [followed_by_of_ok hFirst, changeOperand_of_singleAt last hStill,
        changeOperand_of_singleAt last hOp, size_overwrite hBytes, if_pos hRoom, if_pos hRoom,
        overwrite_overwrite (by simp) hOp.lt_size]

theorem ofInstruction_withOperand {i : Written} (hOne : i.Single) (operand : Nat) :
    Item.ofInstruction (i.withOperand operand) =
      .instruction i.1 [operand % 256 ^ i.1.operandSize] := by
  obtain ⟨width, hWidths⟩ := List.length_eq_one_iff.mp hOne
  simp [Item.ofInstruction, Written.withOperand, reduced, Opcode.operandSize, hWidths]

theorem likeEmission {instructions : List Written} {place position : Nat} {i : Written}
    (hFull : ∀ i ∈ instructions, i.Full) (h : StandsAt instructions place position i)
    (hOne : i.Single) (operand : Nat) : LikeEmission instructions place position i operand where
  made := changeOperand_emitAll hFull h hOne operand
  starts := h.starts_set hFull (hOne.full operand) rfl
  shown := by
    have hNew := hOne.full operand
    rw [(h.set_self hFull hNew rfl).entryAt? (full_set hFull hNew), ofInstruction_withOperand hOne]
  kept other start j hNe hOther := by
    have hNew := hOne.full operand
    rw [(h.set_of_ne hFull hNew rfl hNe hOther).entryAt? (full_set hFull hNew),
      hOther.entryAt? hFull]
  commutes other start j otherOperand hNe hOther hOtherOne := by
    rw [changeOperand_twice hFull h hOne hOther hOtherOne hNe,
      changeOperand_twice hFull hOther hOtherOne h hOne hNe.symm, List.set_comm _ _ hNe]
    exact ⟨rfl, rfl⟩

/-- Changing the operand of an appended instruction succeeds and amounts to appending it with the
new operand. Of two changes at one position the last one wins. In any stream and at any position, a
change writes the operand bytes right after the position or it is refused, which leaves the stream
as it is. -/
theorem changes_amount_to_emission :
    (∀ instructions : List Written, (∀ i ∈ instructions, i.Full) →
      ∀ place position i operand, StandsAt instructions place position i → i.Single →
        LikeEmission instructions place position i operand) ∧
    (∀ code position first last,
      (do changeOperand position first; changeOperand position last : Edit Unit) code =
        changeOperand position last code) ∧
    ∀ code position operand,
      EditsOperand code position operand (changeOperand position operand code).1
        (changeOperand position operand code).2 :=
  ⟨fun _ hFull _ _ _ operand h hOne => likeEmission hFull h hOne operand, changeOperand_again,
    editsOperand_changeOperand⟩

/-- A conditional whose two jumps do not know their targets yet. -/
def openBranches : List Written :=
  [(.pushTrue, []), (.jumpUnlessTruthy, [9999]), (.constant, [0]), (.jump, [9999]),
    (.pushNull, []), (.pop, [])]

/-- Both jumps of the conditional get their targets, the second one first. -/
theorem openBranches_changes_amount_to_emission :
    (∀ i ∈ openBranches, i.Full) ∧
      (do changeOperand 7 11; changeOperand 1 10 : Edit Unit) (emitAll {} openBranches).2 =
        (.ok (), (emitAll {} [(.pushTrue, []), (.jumpUnlessTruthy, [10]), (.constant, [0]),
          (.jump, [11]), (.pushNull, []), (.pop, [])]).2) := by
  have hFull : ∀ i ∈ openBranches, i.Full := by
    simp [openBranches, Written.Full, Opcode.operandWidths]
  have hFirst : StandsAt openBranches 1 1 (.jumpUnlessTruthy, [9999]) := ⟨rfl, rfl⟩
  have hSecond : StandsAt openBranches 3 7 (.jump, [9999]) := ⟨rfl, rfl⟩
  have hAlike := changes_amount_to_emission.1 openBranches hFull 1 1 _ 10 hFirst rfl
  have hThen := changes_amount_to_emission.1 (openBranches.set 1 (.jumpUnlessTruthy, [10]))
    (full_set hFull rfl) 3 7 (.jump, [9999]) 11 ⟨rfl, rfl⟩ rfl
  refine ⟨hFull, ?_⟩
  rw [← (hAlike.commutes 3 7 _ 11 (by decide) hSecond rfl).1, followed_by_of_ok hAlike.made]
  exact hThen.made

end Tandem.Code
