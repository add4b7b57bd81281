import Mathlib.Algebra.Ring.Nat
import Tandem.Code
/-!
Operands and their bytes. Numbers are written in big-endian form and reduced to their width; what
is read back is the reduced number, and writing what was read gives the same bytes again. The same
holds of all the operands of an instruction together.
-/
namespace Tandem

/-- One more byte at the end is the least significant one. -/
theorem ofBigEndian_concat (bytes : List UInt8) (byte : UInt8) :
    ofBigEndian (bytes ++ [byte]) = ofBigEndian bytes * 256 + byte.toNat := by
  rw [ofBigEndian, List.foldl_append]
  rfl

/-- The last byte of a number in big-endian form. -/
theorem bigEndian_succ (width n : Nat) :
    bigEndian (width + 1) n = bigEndian width (n / 256) ++ [UInt8.ofNat n] := by
  induction width generalizing n with
  | zero => simp [bigEndian]
  | succ width ih =>
      have hByte : n >>> (8 * (width + 1)) = (n / 256) >>> (8 * width) := by
        rw [Nat.mul_succ, Nat.add_comm, Nat.shiftRight_add, Nat.shiftRight_eq_div_pow n 8]
      rw [bigEndian, ih, bigEndian, hByte, List.cons_append]

/-- Reading what was written gives the number, reduced to the width in which it was written. -/
theorem ofBigEndian_bigEndian (width n : Nat) :
    ofBigEndian (bigEndian width n) = n % 256 ^ width := by
  induction width generalizing n with
  | zero => simp [bigEndian, ofBigEndian, Nat.mod_one]
  | succ width ih =>
      have hSplit : n % 256 ^ (width + 1) = n % 256 + 256 * (n / 256 % 256 ^ width) := by
        rw [Nat.pow_succ', Nat.mod_mul]
      rw [bigEndian_succ, ofBigEndian_concat, ih, hSplit, UInt8.toNat_ofNat']
      omega

/-- Writing what was read gives the same bytes. -/
theorem bigEndian_ofBigEndian (bytes : List UInt8) :
    bigEndian bytes.length (ofBigEndian bytes) = bytes := by
  -- Numbers grow at the end of the list, so the induction is on the reversed one.
  obtain ⟨reversed, rfl⟩ : ∃ reversed : List UInt8, bytes = reversed.reverse :=
    ⟨bytes.reverse, bytes.reverse_reverse.symm⟩
  induction reversed with
  | nil => rfl
  | cons byte rest ih =>
      have hByte := byte.toNat_lt
      have hHigh : (ofBigEndian rest.reverse * 256 + byte.toNat) / 256 =
          ofBigEndian rest.reverse := by omega
      have hLow : UInt8.ofNat (ofBigEndian rest.reverse * 256 + byte.toNat) = byte := by
        apply UInt8.toNat.inj
        rw [UInt8.toNat_ofNat']
        omega
      rw [List.reverse_cons, List.length_append, List.length_singleton, bigEndian_succ,
        ofBigEndian_concat, hHigh, ih, hLow]

theorem readNumber?_bigEndian (width n : Nat) (rest : List UInt8) :
    readNumber? width (bigEndian width n ++ rest) = some (n % 256 ^ width) := by
  have hLength : ¬ (bigEndian width n ++ rest).length < width := by simp
  rw [readNumber?, if_neg hLength, List.take_left' (length_bigEndian width n),
    ofBigEndian_bigEndian]

theorem bigEndian_of_readNumber? {width n : Nat} {bytes : List UInt8}
    (h : readNumber? width bytes = some n) :
    width ≤ bytes.length ∧ bigEndian width n = bytes.take width := by
  unfold readNumber? at h
  split at h
  · cases h
  · rename_i hLength
    cases h
    have hTake : (bytes.take width).length = width := List.length_take_of_le (by omega)
    have hBytes := bigEndian_ofBigEndian (bytes.take width)
    rw [hTake] at hBytes
    exact ⟨by omega, hBytes⟩

/-- Numbers one after the other, each in its width. -/
def bigEndians (widths numbers : List Nat) : List UInt8 :=
  (numbers.zip widths).flatMap fun (n, width) => bigEndian width n

def reduced (widths numbers : List Nat) : List Nat :=
  List.zipWith (fun n width => n % 256 ^ width) numbers widths

/-- Numbers that fit into their widths are not changed. -/
theorem reduced_of_fit {widths numbers : List Nat} (hLength : numbers.length = widths.length)
    (h : ∀ pair ∈ numbers.zip widths, pair.1 < 256 ^ pair.2) :
    reduced widths numbers = numbers := by
  induction numbers generalizing widths with
  | nil => rfl
  | cons n numbers ih =>
      cases widths with
      | nil => cases hLength
      | cons width widths =>
          have hHead : n < 256 ^ width := h (n, width) List.mem_cons_self
          have hRest : reduced widths numbers = numbers :=
            ih (Nat.succ.inj hLength) fun pair hPair => h pair (List.mem_cons_of_mem _ hPair)
          rw [reduced, List.zipWith_cons_cons, Nat.mod_eq_of_lt hHead]
          exact congrArg (n :: ·) hRest

theorem length_bigEndians {widths numbers : List Nat} (h : numbers.length = widths.length) :
    (bigEndians widths numbers).length = widths.sum := by
  induction numbers generalizing widths with
  | nil =>
      rw [List.eq_nil_of_length_eq_zero h.symm]
      rfl
  | cons n numbers ih =>
      cases widths with
      | nil => cases h
      | cons width widths =>
          have hRest : (bigEndians widths numbers).length = widths.sum := ih (Nat.succ.inj h)
          simpa [bigEndians] using hRest

theorem readNumbers?_bigEndians {widths numbers : List Nat} (h : numbers.length = widths.length)
    (rest : List UInt8) :
    readNumbers? widths (bigEndians widths numbers ++ rest) = some (reduced widths numbers) := by
  induction widths generalizing numbers with
  | nil =>
      rw [List.eq_nil_of_length_eq_zero h]
      rfl
  | cons width widths ih =>
      cases numbers with
      | nil => cases h
      | cons n numbers =>
          have hBytes : bigEndians (width :: widths) (n :: numbers) ++ rest =
              bigEndian width n ++ (bigEndians widths numbers ++ rest) := by
            simp [bigEndians]
          rw [readNumbers?, hBytes, readNumber?_bigEndian,
            List.drop_left' (length_bigEndian width n), ih (Nat.succ.inj h)]
          rfl

/-- Numbers are found wherever there are bytes enough for all of them. -/
theorem exists_readNumbers? {widths : List Nat} {bytes : List UInt8}
    (h : widths.sum ≤ bytes.length) : ∃ numbers, readNumbers? widths bytes = some numbers := by
  induction widths generalizing bytes with
  | nil => exact ⟨[], rfl⟩
  | cons width widths ih =>
      rw [List.sum_cons] at h
      have hFirst : readNumber? width bytes = some (ofBigEndian (bytes.take width)) :=
        if_neg (by omega)
      have hLeft : widths.sum ≤ (bytes.drop width).length := by
        rw [List.length_drop]
        omega
      obtain ⟨numbers, hRest⟩ := ih hLeft
      exact ⟨_ :: numbers, by rw [readNumbers?, hFirst, hRest]; rfl⟩

theorem bigEndians_of_readNumbers? {widths numbers : List Nat} {bytes : List UInt8}
    (h : readNumbers? widths bytes = some numbers) :
    numbers.length = widths.length ∧ widths.sum ≤ bytes.length ∧
      bigEndians widths numbers = bytes.take widths.sum := by
  induction widths generalizing numbers bytes with
  | nil =>
      cases h
      exact ⟨rfl, Nat.zero_le _, rfl⟩
  | cons width widths ih =>
      rw [readNumbers?] at h
      obtain ⟨n, hFirst, h⟩ := Option.bind_eq_some_iff.mp h
      obtain ⟨ns, hRest, h⟩ := Option.bind_eq_some_iff.mp h
      cases h
      obtain ⟨hWidth, hNumber⟩ := bigEndian_of_readNumber? hFirst
      obtain ⟨hLength, hSum, hNumbers⟩ := ih hRest
      rw [List.length_drop] at hSum
      refine ⟨congrArg Nat.succ hLength, ?_, ?_⟩
      · rw [List.sum_cons]
        omega
      · rw [List.sum_cons, List.take_add, ← hNumbers, ← hNumber]
        rfl

namespace Opcode

theorem encode_eq (op : Opcode) (operands : List Nat) :
    op.encode operands = op.toByte :: bigEndians op.operandWidths operands := rfl

theorem operandSize_eq_sum (op : Opcode) : op.operandSize = op.operandWidths.sum := rfl

theorem length_encode {op : Opcode} {operands : List Nat}
    (h : operands.length = op.operandWidths.length) :
    (op.encode operands).length = 1 + op.operandSize := by
  rw [encode_eq, List.length_cons, length_bigEndians h, operandSize_eq_sum, Nat.add_comm]

/-- Operands are missing exactly where fewer bytes follow than the opcode announces. -/
theorem readOperands?_eq_none_iff (op : Opcode) (bytes : List UInt8) :
    op.readOperands? bytes = none ↔ bytes.length < op.operandSize := by
  rw [readOperands?, operandSize_eq_sum]
  constructor
  · intro hNone
    refine Nat.not_le.mp fun hEnough => ?_
    obtain ⟨numbers, hNumbers⟩ := exists_readNumbers? hEnough
    rw [hNone] at hNumbers
    cases hNumbers
  · intro hShort
    refine Option.eq_none_iff_forall_ne_some.mpr fun numbers hNumbers => ?_
    obtain ⟨_, hEnough, _⟩ := bigEndians_of_readNumbers? hNumbers
    exact absurd hEnough (Nat.not_le.mpr hShort)

theorem eq_of_toByte_eq {op other : Opcode} (h : op.toByte = other.toByte) : op = other := by
  rw [← Option.some_inj, ← ofByte?_toByte op, h, ofByte?_toByte]

/-- The byte of an opcode stands for no other one. -/
theorem toByte_of_ofByte? {byte : UInt8} {op : Opcode} (h : ofByte? byte = some op) :
    op.toByte = byte := by
  obtain ⟨hPlace, hOp⟩ := List.getElem?_eq_some_iff.mp h
  have hAll : ∀ place (hPlace : place < all.length), all[place].toByte = UInt8.ofNat place := by
    decide
  rw [← hOp, hAll, UInt8.ofNat_toNat]

end Opcode

end Tandem
