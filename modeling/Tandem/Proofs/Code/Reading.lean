import Mathlib.Logic.ExistsUnique
import Tandem.Proofs.Code.Decoding
import Tandem.Proofs.Code.Walk
/-!
Readings of a stream from its start. A reading passes over a byte that is no opcode by itself and
over an opcode together with its operand bytes. It comes to the end of the stream unless it comes to
an opcode that lacks operand bytes. A scan fails in just that case; otherwise its entries are the
items that the reading has passed over, and every byte belongs to exactly one of them.
-/
namespace Tandem.Code

/-- An opcode stands at the offset, but fewer bytes follow it than its operands take up. -/
def CutShortAt (code : Code) (offset : Nat) : Prop :=
  ∃ byte op, code.byteAt? offset = some byte ∧ Opcode.ofByte? byte = some op ∧
    code.size < offset + 1 + op.operandSize

/-- The offsets that a reading from the start comes to. The end of the stream is one of them if no
opcode before it lacks operand bytes. -/
inductive ReadTo (code : Code) : Nat → Prop where
  | start : ReadTo code 0
  | unknown {offset : Nat} {byte : UInt8} (prior : ReadTo code offset)
      (hByte : code.byteAt? offset = some byte) (hOp : Opcode.ofByte? byte = none) :
      ReadTo code (offset + 1)
  | instruction {offset : Nat} {byte : UInt8} {op : Opcode} (prior : ReadTo code offset)
      (hByte : code.byteAt? offset = some byte) (hOp : Opcode.ofByte? byte = some op)
      (hRoom : offset + 1 + op.operandSize ≤ code.size) :
      ReadTo code (offset + 1 + op.operandSize)

/-- The entries list the whole stream, item by item. -/
structure ListedBy (code : Code) (entries : List Entry) : Prop where
  /-- There is an entry for every offset that a reading comes to before the end. -/
  offsets : ∀ offset, offset ∈ entries.map Entry.offset ↔ code.ReadTo offset ∧ offset < code.size
  increasing : (entries.map Entry.offset).Pairwise (· < ·)
  /-- Each entry shows what stands at its offset. -/
  shown : ∀ entry ∈ entries, code.entryAt? entry.offset = some entry ∧ entry.next ≤ code.size
  /-- Every byte belongs to one entry and to no other. -/
  covered : ∀ place < code.size,
    ∃! entry, entry ∈ entries ∧ entry.offset ≤ place ∧ place < entry.next
  /-- The bytes of the items, one after the other, are those of the stream. -/
  bytes : code.toList = entries.flatMap fun entry => entry.item.bytes

variable {code : Code}

theorem lt_size_of_byteAt? {offset : Nat} {byte : UInt8} (h : code.byteAt? offset = some byte) :
    offset < code.size := (Array.getElem?_eq_some_iff.mp h).1

theorem exists_byteAt?_of_lt {offset : Nat} (h : offset < code.size) :
    ∃ byte, code.byteAt? offset = some byte := ⟨_, Array.getElem?_eq_getElem h⟩

theorem entryAt?_of_unknown {offset : Nat} {byte : UInt8} (hByte : code.byteAt? offset = some byte)
    (hOp : Opcode.ofByte? byte = none) : code.entryAt? offset = some ⟨offset, .unknown byte⟩ := by
  rw [entryAt?, drop_eq_of_byteAt? hByte, Item.ofBytes?, hOp]
  rfl

/-- There is nothing to show at the end of a stream, beyond it, and where operand bytes are
missing. -/
theorem entryAt?_eq_none_iff (code : Code) (offset : Nat) :
    code.entryAt? offset = none ↔ code.size ≤ offset ∨ code.CutShortAt offset := by
  by_cases hEnd : code.size ≤ offset
  · have hBytes : code.toList.drop offset = [] := List.drop_eq_nil_iff.mpr (by simpa using hEnd)
    simp [entryAt?, hBytes, Item.ofBytes?, hEnd]
  · obtain ⟨byte, hByte⟩ := exists_byteAt?_of_lt (Nat.not_le.mp hEnd)
    cases hOp : Opcode.ofByte? byte with
    | none => simp [entryAt?_of_unknown hByte hOp, CutShortAt, hByte, hOp, hEnd]
    | some op =>
        have hShort : (code.toList.drop (offset + 1)).length < op.operandSize ↔
            code.size < offset + 1 + op.operandSize := by
          rw [List.length_drop, length_toList]
          omega
        rw [entryAt?_of_opcode hByte hOp, Option.map_eq_none_iff, Opcode.readOperands?_eq_none_iff,
          hShort]
        simp [CutShortAt, hByte, hOp, hEnd]

/-- Where no operand bytes are missing, the machine finds an instruction with the operands that are
read after the opcode. -/
theorem exists_instructionAt? {offset : Nat} {byte : UInt8} {op : Opcode}
    (hByte : code.byteAt? offset = some byte) (hOp : Opcode.ofByte? byte = some op)
    (hRoom : offset + 1 + op.operandSize ≤ code.size) :
    ∃ i, code.instructionAt? offset = some i ∧ i.opcode = op ∧
      op.readOperands? (code.toList.drop (offset + 1)) = some i.numbers := by
  have hEnough : op.readOperands? (code.toList.drop (offset + 1)) ≠ none := by
    rw [Ne, Opcode.readOperands?_eq_none_iff, List.length_drop, length_toList]
    omega
  obtain ⟨operands, hOperands⟩ := Option.ne_none_iff_exists'.mp hEnough
  have hRead := hOperands
  rw [readOperands?_eq] at hRead
  obtain ⟨i, hDecode, rfl⟩ := Option.map_eq_some_iff.mp hRead
  exact ⟨i, by simp [instructionAt?, hByte, hOp, hDecode], opcode_of_decode? hDecode, hOperands⟩

/-- Where operand bytes are missing, the machine finds nothing to execute. -/
theorem CutShortAt.instructionAt?_eq_none {offset : Nat} (h : code.CutShortAt offset) :
    code.instructionAt? offset = none ∧ code.unknownAt? offset = none := by
  have hEntry := (entryAt?_eq_none_iff code offset).mpr (Or.inr h)
  obtain ⟨byte, op, hByte, hOp, _⟩ := h
  rw [entryAt?_of_byteAt? hByte hOp, Option.map_eq_none_iff] at hEntry
  exact ⟨hEntry, by simp [unknownAt?, hByte, hOp]⟩

/-- A reading goes on after every item that it comes to. -/
theorem ReadTo.next {offset : Nat} {entry : Entry} (h : code.ReadTo offset)
    (hEntry : code.entryAt? offset = some entry) : code.ReadTo entry.next := by
  have hHere : ¬ (code.size ≤ offset ∨ code.CutShortAt offset) := by
    rw [← entryAt?_eq_none_iff, hEntry]
    exact Option.some_ne_none entry
  obtain ⟨hBefore, hWhole⟩ := not_or.mp hHere
  obtain ⟨byte, hByte⟩ := exists_byteAt?_of_lt (Nat.not_le.mp hBefore)
  cases hOp : Opcode.ofByte? byte with
  | none =>
      obtain rfl : ⟨offset, .unknown byte⟩ = entry :=
        Option.some.inj ((entryAt?_of_unknown hByte hOp).symm.trans hEntry)
      exact ReadTo.unknown h hByte hOp
  | some op =>
      rw [entryAt?_of_opcode hByte hOp] at hEntry
      obtain ⟨operands, _, rfl⟩ := Option.map_eq_some_iff.mp hEntry
      have hRoom : offset + 1 + op.operandSize ≤ code.size :=
        Nat.not_lt.mp fun hShort => hWhole ⟨byte, op, hByte, hOp, hShort⟩
      have hNext := ReadTo.instruction h hByte hOp hRoom
      rwa [Nat.add_assoc] at hNext

theorem ReadTo.le_size {offset : Nat} (h : code.ReadTo offset) : offset ≤ code.size := by
  cases h with
  | start => exact Nat.zero_le _
  | unknown prior hByte hOp => exact lt_size_of_byteAt? hByte
  | instruction prior hByte hOp hRoom => exact hRoom

/-- A reading either comes to the end, which makes a walk of the rest of it, or to an opcode that
lacks operand bytes. -/
theorem ReadTo.exists_walk_or_cutShort {offset : Nat} (h : code.ReadTo offset) :
    (∃ entries, Walk code offset entries) ∨ ∃ later, code.ReadTo later ∧ code.CutShortAt later := by
  -- What is left of the stream gets shorter with every item.
  generalize hLeft : code.size - offset = left
  induction left using Nat.strong_induction_on generalizing offset with
  | _ left ih =>
      cases hEntry : code.entryAt? offset with
      | none =>
          rcases (entryAt?_eq_none_iff code offset).mp hEntry with hEnd | hShort
          · rw [Nat.le_antisymm h.le_size hEnd]
            exact Or.inl ⟨[], Walk.finish⟩
          · exact Or.inr ⟨offset, h, hShort⟩
      | some entry =>
          obtain ⟨rfl, _⟩ := ofBytes?_of_entryAt? hEntry
          have hLater : entry.offset < entry.next := Nat.lt_add_of_pos_right entry.item.size_pos
          have hRoom := (h.next hEntry).le_size
          rcases ih (code.size - entry.next) (by omega) (h.next hEntry) rfl with
            ⟨entries, walk⟩ | hShort
          · exact Or.inl ⟨entry :: entries, Walk.meet hEntry walk⟩
          · exact Or.inr hShort

variable {entries : List Entry}

/-- A walk from where something stands starts with it. -/
theorem Walk.exists_rest {offset : Nat} (walk : Walk code offset entries) {entry : Entry}
    (hEntry : code.entryAt? offset = some entry) :
    ∃ rest, entries = entry :: rest ∧ Walk code entry.next rest := by
  cases walk with
  | finish =>
      rw [(entryAt?_eq_none_iff code code.size).mpr (Or.inl (Nat.le_refl _))] at hEntry
      cases hEntry
  | @meet _ found rest hFound hRest =>
      obtain rfl : found = entry := Option.some.inj (hFound.symm.trans hEntry)
      exact ⟨rest, rfl, hRest⟩

/-- Wherever a reading comes to, a walk from the start goes on with the items that are left. -/
theorem Walk.of_readTo (walk : Walk code 0 entries) {offset : Nat} (h : code.ReadTo offset) :
    ∃ rest, Walk code offset rest ∧ rest <:+ entries := by
  have hNext : ∀ {offset rest entry}, Walk code offset rest → rest <:+ entries →
      code.entryAt? offset = some entry → ∃ rest, Walk code entry.next rest ∧ rest <:+ entries := by
    intro offset rest entry hRest hSuffix hEntry
    obtain ⟨later, rfl, hLater⟩ := hRest.exists_rest hEntry
    exact ⟨later, hLater, (List.suffix_cons _ _).trans hSuffix⟩
  induction h with
  | start => exact ⟨entries, walk, List.suffix_rfl⟩
  | unknown prior hByte hOp ih =>
      obtain ⟨rest, hRest, hSuffix⟩ := ih
      exact hNext hRest hSuffix (entryAt?_of_unknown hByte hOp)
  | @instruction offset byte op prior hByte hOp hRoom ih =>
      obtain ⟨rest, hRest, hSuffix⟩ := ih
      obtain ⟨i, _, _, hOperands⟩ := exists_instructionAt? hByte hOp hRoom
      have hEntry := entryAt?_of_opcode hByte hOp
      rw [hOperands] at hEntry
      rw [Nat.add_assoc]
      exact hNext hRest hSuffix hEntry

/-- On a walk no opcode lacks operand bytes. -/
theorem Walk.not_cutShort (walk : Walk code 0 entries) {offset : Nat} (h : code.ReadTo offset) :
    ¬ code.CutShortAt offset := by
  intro hShort
  obtain ⟨rest, hRest, _⟩ := walk.of_readTo h
  have hNone := (entryAt?_eq_none_iff code offset).mpr (Or.inr hShort)
  cases hRest with
  | finish =>
      obtain ⟨byte, _, hByte, _⟩ := hShort
      exact absurd (lt_size_of_byteAt? hByte) (Nat.lt_irrefl _)
  | meet hEntry _ =>
      rw [hNone] at hEntry
      cases hEntry

/-- A scan fails exactly when a reading comes to an opcode that lacks operand bytes. -/
theorem scan?_eq_none_iff (code : Code) :
    code.scan? = none ↔ ∃ offset, code.ReadTo offset ∧ code.CutShortAt offset := by
  constructor
  · intro hNone
    rcases ReadTo.start.exists_walk_or_cutShort with ⟨entries, walk⟩ | hShort
    · rw [scan?_eq_some_iff.mpr walk] at hNone
      cases hNone
    · exact hShort
  · rintro ⟨offset, hRead, hShort⟩
    refine Option.eq_none_iff_forall_ne_some.mpr fun entries hScan => ?_
    exact (scan?_eq_some_iff.mp hScan).not_cutShort hRead hShort

/-- Every entry of a walk is met at its own offset, which is not before the start of the walk, and
ends within the stream. -/
theorem Walk.of_mem {offset : Nat} (walk : Walk code offset entries) {entry : Entry}
    (h : entry ∈ entries) :
    offset ≤ entry.offset ∧ code.entryAt? entry.offset = some entry ∧ entry.next ≤ code.size := by
  induction walk with
  | finish => cases h
  | @meet offset first rest hFirst walk ih =>
      obtain ⟨rfl, hItem⟩ := ofBytes?_of_entryAt? hFirst
      rcases List.mem_cons.mp h with rfl | hRest
      · have hSize := (Item.bytes_of_ofBytes? hItem).1
        have hPos := entry.item.size_pos
        rw [List.length_drop, length_toList] at hSize
        refine ⟨Nat.le_refl _, hFirst, ?_⟩
        rw [Entry.next]
        omega
      · obtain ⟨hLater, hHere, hEnd⟩ := ih hRest
        exact ⟨Nat.le_trans (Nat.le_add_right _ _) hLater, hHere, hEnd⟩

/-- An item ends before the next one starts. -/
theorem Walk.pairwise {offset : Nat} (walk : Walk code offset entries) :
    entries.Pairwise fun earlier later => earlier.next ≤ later.offset := by
  induction walk with
  | finish => exact List.Pairwise.nil
  | meet hEntry walk ih => exact List.Pairwise.cons (fun later hLater => (walk.of_mem hLater).1) ih

/-- Of two different entries one ends before the other starts. -/
theorem Walk.apart {offset : Nat} (walk : Walk code offset entries) {entry other : Entry}
    (hEntry : entry ∈ entries) (hOther : other ∈ entries) (hNe : entry ≠ other) :
    entry.next ≤ other.offset ∨ other.next ≤ entry.offset := by
  induction walk with
  | finish => cases hEntry
  | meet hFirst walk ih =>
      rcases List.mem_cons.mp hEntry with rfl | hLater
      · rcases List.mem_cons.mp hOther with rfl | hLater
        · exact absurd rfl hNe
        · exact Or.inl (walk.of_mem hLater).1
      · rcases List.mem_cons.mp hOther with rfl | hAlsoLater
        · exact Or.inr (walk.of_mem hLater).1
        · exact ih hLater hAlsoLater

/-- A reading that comes to the start of a walk comes to all its entries. -/
theorem Walk.readTo {offset : Nat} (walk : Walk code offset entries) (h : code.ReadTo offset)
    {entry : Entry} (hEntry : entry ∈ entries) : code.ReadTo entry.offset := by
  induction walk with
  | finish => cases hEntry
  | @meet offset first rest hFirst walk ih =>
      rcases List.mem_cons.mp hEntry with rfl | hRest
      · rw [(ofBytes?_of_entryAt? hFirst).1]
        exact h
      · exact ih (h.next hFirst) hRest

/-- Every byte from the start of the walk on belongs to an entry. -/
theorem Walk.exists_entry {offset : Nat} (walk : Walk code offset entries) {place : Nat}
    (hFrom : offset ≤ place) (hTo : place < code.size) :
    ∃ entry ∈ entries, entry.offset ≤ place ∧ place < entry.next := by
  induction walk with
  | finish => exact absurd hTo (Nat.not_lt.mpr hFrom)
  | @meet offset entry rest hEntry walk ih =>
      obtain ⟨rfl, _⟩ := ofBytes?_of_entryAt? hEntry
      by_cases hHere : place < entry.next
      · exact ⟨entry, List.mem_cons_self, hFrom, hHere⟩
      · obtain ⟨later, hLater, hCovers⟩ := ih (Nat.not_lt.mp hHere)
        exact ⟨later, List.mem_cons_of_mem _ hLater, hCovers⟩

theorem Entry.offset_lt_next (entry : Entry) : entry.offset < entry.next :=
  Nat.lt_add_of_pos_right entry.item.size_pos

/-- A walk through the whole stream lists it. -/
theorem Walk.listedBy (walk : Walk code 0 entries) : code.ListedBy entries where
  offsets offset := by
    constructor
    · intro hOffset
      obtain ⟨entry, hEntry, rfl⟩ := List.mem_map.mp hOffset
      obtain ⟨_, _, hEnd⟩ := walk.of_mem hEntry
      exact ⟨walk.readTo ReadTo.start hEntry, Nat.lt_of_lt_of_le entry.offset_lt_next hEnd⟩
    · rintro ⟨hRead, hBefore⟩
      obtain ⟨rest, hRest, hSuffix⟩ := walk.of_readTo hRead
      cases hRest with
      | finish => exact absurd hBefore (Nat.lt_irrefl _)
      | meet hEntry _ =>
          obtain ⟨rfl, _⟩ := ofBytes?_of_entryAt? hEntry
          exact List.mem_map_of_mem (hSuffix.mem List.mem_cons_self)
  increasing := by
    rw [List.pairwise_map]
    exact walk.pairwise.imp fun {earlier _} hLater =>
      Nat.lt_of_lt_of_le earlier.offset_lt_next hLater
  shown entry hEntry := (walk.of_mem hEntry).2
  covered place hPlace := by
    obtain ⟨entry, hEntry, hFrom, hTo⟩ := walk.exists_entry (Nat.zero_le _) hPlace
    refine ⟨entry, ⟨hEntry, hFrom, hTo⟩, ?_⟩
    rintro other ⟨hOther, hOtherFrom, hOtherTo⟩
    by_contra hNe
    rcases walk.apart hOther hEntry hNe with hBefore | hAfter
    · omega
    · omega
  bytes := walk.bytes_eq

end Tandem.Code
