import Tandem.Proofs.Code.Reading
/-!
Streams inside longer streams. The instructions of a straight stream are executed one after the
other, and none of them names an offset or asks for the function it belongs to. So it does not
matter where in a longer stream they stand: the machine finds the same instructions there.
-/
namespace Tandem

/-- After the instruction the next one is executed, and it does not matter which function the
instruction belongs to. -/
def Opcode.isStraight : Opcode → Bool
  | jump | jumpUnlessTruthy | returnValue | returnNull | currentClosure => false
  | _ => true

namespace Code

/-- An item is straight unless it is an instruction that is not. -/
def Item.isStraight : Item → Bool
  | unknown _ => true
  | instruction op _ => op.isStraight

/-- One stream after the other. -/
instance : Append Code := ⟨fun first second => ⟨first.bytes ++ second.bytes⟩⟩

/-- The offsets at which instructions are met when a stream is read from its start, one instruction
after the other. -/
inductive Visits (code : Code) : Nat → Prop where
  | start : Visits code 0
  | next {offset : Nat} {i : Instruction} (prior : Visits code offset)
      (hHere : code.instructionAt? offset = some i) : Visits code (offset + i.length)

def Straight (code : Code) : Prop :=
  ∀ offset i, code.Visits offset → code.instructionAt? offset = some i → i.opcode.isStraight = true

/-- The bytes of the stream are found in another one from the offset `place` on. -/
def StandsIn (code : Code) (place : Nat) (other : Code) : Prop :=
  ∀ offset byte, code.byteAt? offset = some byte → other.byteAt? (place + offset) = some byte

section

variable (first second : Code)

@[simp]
theorem size_append : (first ++ second).size = first.size + second.size := Array.size_append

theorem byteAt?_append_right (offset : Nat) :
    (first ++ second).byteAt? (first.size + offset) = second.byteAt? offset := by
  show (first.bytes ++ second.bytes)[first.bytes.size + offset]? = second.bytes[offset]?
  rw [Array.getElem?_append_right (Nat.le_add_right _ _), Nat.add_sub_cancel_left]

/-- The machine finds the same instruction whatever stands before the stream. -/
theorem instructionAt?_append_right (offset : Nat) :
    (first ++ second).instructionAt? (first.size + offset) = second.instructionAt? offset := by
  have hDecode : ∀ op, Instruction.decode? (first ++ second) op (first.size + offset + 1) =
      Instruction.decode? second op (offset + 1) := by
    intro op
    cases op <;> simp [Instruction.decode?, wordAt?, Nat.add_assoc, byteAt?_append_right]
  simp only [instructionAt?, byteAt?_append_right, hDecode]

theorem unknownAt?_append_right (offset : Nat) :
    (first ++ second).unknownAt? (first.size + offset) = second.unknownAt? offset := by
  rw [unknownAt?, unknownAt?, byteAt?_append_right]

theorem standsIn_append_left : first.StandsIn 0 (first ++ second) := by
  intro offset byte hByte
  have hOffset : offset < first.bytes.size := (Array.getElem?_eq_some_iff.mp hByte).1
  rw [Nat.zero_add]
  exact (Array.getElem?_append_left hOffset).trans hByte

theorem standsIn_append_right : second.StandsIn first.size (first ++ second) :=
  fun offset _ hByte => (byteAt?_append_right first second offset).trans hByte

end

section

variable {code other : Code} {place offset : Nat}

theorem StandsIn.wordAt? (h : code.StandsIn place other) {word : Nat}
    (hWord : code.wordAt? offset = some word) : other.wordAt? (place + offset) = some word := by
  obtain ⟨high, hHigh, hWord⟩ := Option.bind_eq_some_iff.mp hWord
  obtain ⟨low, hLow, hWord⟩ := Option.bind_eq_some_iff.mp hWord
  simp [Code.wordAt?, h _ _ hHigh, h _ _ hLow, Nat.add_assoc, ← hWord]

/-- An instruction with all its operand bytes is found again. -/
theorem StandsIn.instructionAt? (h : code.StandsIn place other) {i : Instruction}
    (hHere : code.instructionAt? offset = some i) :
    other.instructionAt? (place + offset) = some i := by
  obtain ⟨byte, hByte, hDecode⟩ := Option.bind_eq_some_iff.mp hHere
  obtain ⟨op, hOp, hDecode⟩ := Option.bind_eq_some_iff.mp hDecode
  have hThere : Instruction.decode? other op (place + offset + 1) = some i := by
    rw [Nat.add_assoc]
    cases op with
    | getLocal | setLocal | getBuiltin | getFree | call =>
        obtain ⟨operand, hOperand, rfl⟩ := Option.map_eq_some_iff.mp hDecode
        exact Option.map_eq_some_iff.mpr ⟨operand, h _ _ hOperand, rfl⟩
    | constant | jumpUnlessTruthy | jump | getGlobal | setGlobal | array | hash =>
        obtain ⟨operand, hOperand, rfl⟩ := Option.map_eq_some_iff.mp hDecode
        exact Option.map_eq_some_iff.mpr ⟨operand, h.wordAt? hOperand, rfl⟩
    | closure =>
        obtain ⟨index, hIndex, hDecode⟩ := Option.bind_eq_some_iff.mp hDecode
        obtain ⟨free, hFree, hDecode⟩ := Option.bind_eq_some_iff.mp hDecode
        exact Option.bind_eq_some_iff.mpr
          ⟨index, h.wordAt? hIndex, Option.bind_eq_some_iff.mpr ⟨free, h _ _ hFree, hDecode⟩⟩
    | _ => exact hDecode
  simp [Code.instructionAt?, h _ _ hByte, hOp, hThere]

end

end Code

namespace Code

variable {code : Code} {entries : List Entry}

/-- A reading comes to all instructions that are met. -/
theorem Visits.readTo {offset : Nat} (h : code.Visits offset) : code.ReadTo offset := by
  induction h with
  | start => exact ReadTo.start
  | @next offset i prior hHere ih =>
      have hNext := ih.next (entryAt?_of_instructionAt? hHere)
      rwa [Entry.next, i.size_item] at hNext

/-- A stream can be seen to be straight from its scan. -/
theorem straight_of_scan?
    (h : code.scan?.any (fun entries => entries.all (·.item.isStraight)) = true) :
    code.Straight := by
  intro offset i hVisits hHere
  obtain ⟨entries, hScan, hItems⟩ := (Option.any_eq_true _ _).mp h
  obtain ⟨rest, hRest, hSuffix⟩ := (scan?_eq_some_iff.mp hScan).of_readTo hVisits.readTo
  obtain ⟨later, rfl, _⟩ := hRest.exists_rest (entryAt?_of_instructionAt? hHere)
  exact List.all_eq_true.mp hItems _ (hSuffix.mem List.mem_cons_self)

end Code

end Tandem
