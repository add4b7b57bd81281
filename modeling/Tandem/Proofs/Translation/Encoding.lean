import Tandem.Proofs.Machine.Fetch
/-!
Encoded instructions inside a stream. Where the bytes of an encoded instruction stand somewhere in
a stream, the instruction is found there, with the operand that was encoded if it fits into its two
bytes.
-/
namespace Tandem

/-- The part stands in the whole list, from `start` on. -/
def HoldsAt {α : Type} (whole : List α) (start : Nat) (part : List α) : Prop :=
  ∀ place < part.length, whole[start + place]? = part[place]?

namespace HoldsAt

variable {α : Type} {whole first second : List α} {start : Nat}

theorem refl (whole : List α) : HoldsAt whole 0 whole := by
  intro place _
  rw [Nat.zero_add]

theorem left (h : HoldsAt whole start (first ++ second)) : HoldsAt whole start first := by
  intro place hPlace
  have hWhole := h place (by rw [List.length_append]; omega)
  rw [hWhole, List.getElem?_append_left hPlace]

theorem right (h : HoldsAt whole start (first ++ second)) :
    HoldsAt whole (start + first.length) second := by
  intro place hPlace
  have hWhole := h (first.length + place) (by rw [List.length_append]; omega)
  rw [Nat.add_assoc, hWhole, List.getElem?_append_right (Nat.le_add_right _ _),
    Nat.add_sub_cancel_left]

theorem head {value : α} {rest : List α} (h : HoldsAt whole start (value :: rest)) :
    whole[start]? = some value := by
  simpa using h 0 (Nat.succ_pos _)

theorem end_le (h : HoldsAt whole start first) (hNonempty : 0 < first.length) :
    start + first.length ≤ whole.length := by
  have hLast := h (first.length - 1) (by omega)
  have hPart : first[first.length - 1]? = some _ := List.getElem?_eq_getElem (by omega)
  rw [hPart] at hLast
  obtain ⟨hPlace, _⟩ := List.getElem?_eq_some_iff.mp hLast
  omega

end HoldsAt

namespace Code

/-- Numbers below the width of a word come back as they were written. -/
theorem wordAt?_of_holdsAt {code : Code} {start n : Nat} (hn : n < 65536)
    (h : HoldsAt code.toList start (bigEndian 2 n)) : code.wordAt? start = some n := by
  have hHigh : code.byteAt? start = some (UInt8.ofNat (n >>> 8)) := by
    rw [byteAt?_eq_getElem?]
    exact h.head
  have hLow : code.byteAt? (start + 1) = some (UInt8.ofNat n) := by
    rw [byteAt?_eq_getElem?]
    exact h 1 (by simp)
  have hValue : n / 256 % 256 * 256 + n % 256 = n := by omega
  simp [wordAt?, hHigh, hLow, Nat.shiftRight_eq_div_pow, hValue]

/-- Where an instruction stands, the machine decodes it from the bytes after its opcode. -/
theorem instructionAt?_of_holdsAt {code : Code} {offset : Nat} {op : Opcode} {numbers : List Nat}
    (h : HoldsAt code.toList offset (op.encode numbers)) :
    code.instructionAt? offset = Instruction.decode? code op (offset + 1) := by
  have hByte : code.byteAt? offset = some op.toByte := by
    rw [byteAt?_eq_getElem?]
    exact h.head
  simp [instructionAt?, hByte, Opcode.ofByte?_toByte]

/-- The only operand of an instruction, if it takes two bytes. -/
theorem wordAt?_of_encode {code : Code} {offset n : Nat} {op : Opcode} (hn : n < 65536)
    (hWidths : op.operandWidths = [2]) (h : HoldsAt code.toList offset (op.encode [n])) :
    code.wordAt? (offset + 1) = some n := by
  have hBytes : op.encode [n] = [op.toByte] ++ bigEndian 2 n := by
    simp [Opcode.encode, hWidths]
  rw [hBytes] at h
  exact wordAt?_of_holdsAt hn h.right

/-- An instruction whose only operand takes two bytes is decoded as it was encoded. -/
theorem decode?_of_encode {code : Code} {offset n : Nat} {op : Opcode} {make : Nat → Instruction}
    (hDecode : ∀ code start, Instruction.decode? code op start = (code.wordAt? start).map make)
    (hWidths : op.operandWidths = [2]) (hn : n < 65536)
    (h : HoldsAt code.toList offset (op.encode [n])) :
    Instruction.decode? code op (offset + 1) = some (make n) := by
  rw [hDecode, wordAt?_of_encode hn hWidths h]
  rfl

end Code

end Tandem
