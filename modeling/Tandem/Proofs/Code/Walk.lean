import Tandem.Code.Scan
import Tandem.Proofs.Code.Operands
/-!
Walks over a stream. A walk goes from one item to the next and ends where the stream ends; the scan
of a stream finds exactly the walk from its start, if there is one. The bytes of an item are those
from which it was read, so the items of a walk put together give the stream back.
-/
namespace Tandem.Code

namespace Item

def bytes : Item → List UInt8
  | unknown byte => [byte]
  | instruction op operands => op.encode operands

/-- The item of an instruction whose operands are given in any size. -/
def ofInstruction (i : Opcode × List Nat) : Item :=
  instruction i.1 (reduced i.1.operandWidths i.2)

theorem size_pos (item : Item) : 0 < item.size := by
  cases item with
  | unknown byte => exact Nat.succ_pos 0
  | instruction op operands => exact Nat.lt_add_right _ Nat.one_pos

/-- An encoded instruction is read as it was written, whatever follows it. -/
theorem ofBytes?_encode {i : Opcode × List Nat} (h : i.2.length = i.1.operandWidths.length)
    (rest : List UInt8) : ofBytes? (i.1.encode i.2 ++ rest) = some (ofInstruction i) := by
  rw [Opcode.encode_eq, List.cons_append, ofBytes?, Opcode.ofByte?_toByte]
  simp only [Opcode.readOperands?, readNumbers?_bigEndians h]
  rfl

/-- An item is made of the bytes at the start of those from which it was read. -/
theorem bytes_of_ofBytes? {list : List UInt8} {item : Item} (h : ofBytes? list = some item) :
    item.size ≤ list.length ∧ item.bytes = list.take item.size := by
  cases list with
  | nil => cases h
  | cons byte rest =>
      rw [ofBytes?] at h
      split at h
      · cases h
        exact ⟨Nat.succ_le_succ (Nat.zero_le _), rfl⟩
      · rename_i op hOp
        obtain ⟨operands, hOperands, rfl⟩ := Option.map_eq_some_iff.mp h
        obtain ⟨_, hSum, hBytes⟩ := bigEndians_of_readNumbers? hOperands
        rw [size, Opcode.operandSize_eq_sum, Nat.add_comm]
        refine ⟨Nat.succ_le_succ hSum, ?_⟩
        rw [bytes, Opcode.encode_eq, hBytes, Opcode.toByte_of_ofByte? hOp]
        rfl

end Item

/-- The entries are met one after the other from an offset on, and the stream ends where the last
one ends. -/
inductive Walk (code : Code) : Nat → List Entry → Prop where
  | finish : Walk code code.size []
  | meet {offset : Nat} {entry : Entry} {entries : List Entry}
      (hEntry : code.entryAt? offset = some entry) (rest : Walk code entry.next entries) :
      Walk code offset (entry :: entries)

variable {code : Code}

/-- What stands at an offset is read from the bytes that start there. -/
theorem ofBytes?_of_entryAt? {offset : Nat} {entry : Entry}
    (h : code.entryAt? offset = some entry) :
    entry.offset = offset ∧ Item.ofBytes? (code.toList.drop offset) = some entry.item := by
  obtain ⟨item, hItem, rfl⟩ := Option.map_eq_some_iff.mp h
  exact ⟨rfl, hItem⟩

/-- The bytes from an offset on are those of the items met from there on. -/
theorem Walk.bytes_eq {offset : Nat} {entries : List Entry} (walk : Walk code offset entries) :
    code.toList.drop offset = entries.flatMap fun entry => entry.item.bytes := by
  induction walk with
  | finish => rw [← length_toList, List.drop_length, List.flatMap_nil]
  | @meet offset entry entries hEntry rest ih =>
      obtain ⟨rfl, hItem⟩ := ofBytes?_of_entryAt? hEntry
      obtain ⟨_, hBytes⟩ := Item.bytes_of_ofBytes? hItem
      rw [List.flatMap_cons, ← ih, hBytes, Entry.next, ← List.drop_drop, List.take_append_drop]

/-- Bytes of an item that was met before are passed over. -/
theorem scanFrom_skip {skip : Nat} {bytes : List UInt8} (h : skip ≤ bytes.length) (offset : Nat) :
    scanFrom offset skip bytes = scanFrom (offset + skip) 0 (bytes.drop skip) := by
  induction skip generalizing offset bytes with
  | zero => rfl
  | succ skip ih =>
      cases bytes with
      | nil => cases h
      | cons byte rest =>
          rw [scanFrom, ih (Nat.le_of_succ_le_succ h), List.drop_succ_cons, Nat.add_right_comm,
            Nat.add_assoc]

theorem scanFrom_of_ofBytes? {bytes : List UInt8} {item : Item}
    (h : Item.ofBytes? bytes = some item) (offset : Nat) :
    scanFrom offset 0 bytes =
      (scanFrom (offset + item.size) 0 (bytes.drop item.size)).map (⟨offset, item⟩ :: ·) := by
  obtain ⟨hSize, _⟩ := Item.bytes_of_ofBytes? h
  have hPos := item.size_pos
  cases bytes with
  | nil => cases h
  | cons byte rest =>
      obtain ⟨size, hItem⟩ : ∃ size, item.size = size + 1 := ⟨item.size - 1, by omega⟩
      rw [hItem] at hSize
      rw [scanFrom, h, Option.bind_eq_bind, Option.bind_some, hItem, Nat.add_sub_cancel,
        scanFrom_skip (Nat.le_of_succ_le_succ hSize), List.drop_succ_cons, Nat.add_right_comm,
        Nat.add_assoc]
      cases scanFrom (offset + (size + 1)) 0 (rest.drop size) <;> rfl

/-- A scan is over at the end of the bytes; before it there is an item to go on from. -/
theorem scanFrom_cases {bytes : List UInt8} {offset : Nat} {entries : List Entry}
    (h : scanFrom offset 0 bytes = some entries) :
    bytes = [] ∧ entries = [] ∨
      ∃ item rest, Item.ofBytes? bytes = some item ∧ entries = ⟨offset, item⟩ :: rest ∧
        scanFrom (offset + item.size) 0 (bytes.drop item.size) = some rest := by
  cases hItem : Item.ofBytes? bytes with
  | some item =>
      rw [scanFrom_of_ofBytes? hItem] at h
      obtain ⟨rest, hRest, rfl⟩ := Option.map_eq_some_iff.mp h
      exact Or.inr ⟨item, rest, rfl, rfl, hRest⟩
  | none =>
      cases bytes with
      | nil =>
          cases h
          exact Or.inl ⟨rfl, rfl⟩
      | cons byte rest =>
          rw [scanFrom, hItem] at h
          cases h

theorem Walk.scanFrom_eq {offset : Nat} {entries : List Entry} (walk : Walk code offset entries) :
    scanFrom offset 0 (code.toList.drop offset) = some entries := by
  induction walk with
  | finish =>
      rw [← length_toList, List.drop_length]
      rfl
  | @meet offset entry entries hEntry rest ih =>
      obtain ⟨rfl, hItem⟩ := ofBytes?_of_entryAt? hEntry
      rw [scanFrom_of_ofBytes? hItem, List.drop_drop]
      exact congrArg (Option.map (entry :: ·)) ih

theorem walk_of_scanFrom {offset : Nat} {entries : List Entry} (hOffset : offset ≤ code.size)
    (h : scanFrom offset 0 (code.toList.drop offset) = some entries) :
    Walk code offset entries := by
  induction entries generalizing offset with
  | nil =>
      rcases scanFrom_cases h with ⟨hEnd, _⟩ | ⟨_, _, _, hEntries, _⟩
      · have hLength := List.drop_eq_nil_iff.mp hEnd
        rw [length_toList] at hLength
        rw [Nat.le_antisymm hOffset hLength]
        exact Walk.finish
      · cases hEntries
  | cons entry entries ih =>
      rcases scanFrom_cases h with ⟨_, hEntries⟩ | ⟨item, rest, hItem, hEntries, hRest⟩
      · cases hEntries
      · cases hEntries
        obtain ⟨hSize, _⟩ := Item.bytes_of_ofBytes? hItem
        rw [List.length_drop, length_toList] at hSize
        rw [List.drop_drop] at hRest
        refine Walk.meet (by rw [entryAt?, hItem]; rfl) (ih ?_ hRest)
        simp only [Entry.next]
        omega

/-- A scan finds the walk from the start of the stream, if there is one. -/
theorem scan?_eq_some_iff {entries : List Entry} :
    code.scan? = some entries ↔ Walk code 0 entries :=
  ⟨walk_of_scanFrom (Nat.zero_le _), Walk.scanFrom_eq⟩

end Tandem.Code
