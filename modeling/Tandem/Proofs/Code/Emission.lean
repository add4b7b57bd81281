import Tandem.Proofs.Code.Reading
import Tandem.Proofs.Code.RoundTrip
/-!
Instructions appended to an empty stream. Each one stands at the offset that appending it gave,
between the bytes of those before it and of those after it. So an instruction can be replaced by one
of the same size: all the others stay where they are and are read as before.
-/
namespace Tandem.Code

/-- The instruction is the one at `place`, and appending the instructions one after the other to an
empty stream gives `position` for it. -/
structure StandsAt (instructions : List Written) (place position : Nat) (i : Written) : Prop where
  written : instructions[place]? = some i
  start : (emitAll {} instructions).1[place]? = some position

theorem toList_assemble (instructions : List Written) :
    (assemble instructions).toList = instructions.flatMap fun i => i.1.encode i.2 :=
  toList_ofList _

/-- The bytes of an instruction lie between those of the others. -/
theorem toList_assemble_of_getElem? {instructions : List Written} {place : Nat} {i : Written}
    (h : instructions[place]? = some i) :
    (assemble instructions).toList =
      (assemble (instructions.take place)).toList ++ i.1.encode i.2 ++
        (assemble (instructions.drop (place + 1))).toList := by
  obtain ⟨hPlace, hi⟩ := List.getElem?_eq_some_iff.mp h
  have hSplit : instructions.take place ++ i :: instructions.drop (place + 1) = instructions := by
    rw [← hi, ← List.drop_eq_getElem_cons hPlace, List.take_append_drop]
  rw [toList_assemble, ← hSplit, List.flatMap_append, List.flatMap_cons, ← List.append_assoc,
    hSplit, ← toList_assemble, ← toList_assemble]

section

variable {instructions : List Written} (hFull : ∀ i ∈ instructions, i.Full)

include hFull

theorem size_assemble : (assemble instructions).size = (instructions.map Written.size).sum := by
  rw [← length_toList, toList_assemble, List.length_flatMap]
  congr 1
  exact List.map_congr_left fun i hi => Opcode.length_encode (hFull i hi)

theorem full_take (place : Nat) : ∀ i ∈ instructions.take place, i.Full :=
  fun i hi => hFull i (List.mem_of_mem_take hi)

/-- The stream holds the instructions and nothing else. -/
theorem emitAll_empty :
    emitAll {} instructions =
      ((entriesFrom 0 instructions).map Entry.offset, assemble instructions) := by
  rw [emitAll_eq {} hFull]
  exact Prod.ext rfl (eq_of_toList_eq (toList_ofList _))

/-- An instruction starts where those before it end. -/
theorem standsAt_iff {place position : Nat} {i : Written} :
    StandsAt instructions place position i ↔
      instructions[place]? = some i ∧
        position = (assemble (instructions.take place)).size := by
  have hStart : ∀ {i : Written}, instructions[place]? = some i →
      (emitAll {} instructions).1[place]? =
        some (assemble (instructions.take place)).size := by
    intro i hWritten
    have hPlace := (List.getElem?_eq_some_iff.mp hWritten).1
    rw [emitAll_empty hFull, size_assemble (full_take hFull place), offsets_entriesFrom,
      List.getElem?_map, List.getElem?_range hPlace]
    simp
  constructor
  · rintro ⟨hWritten, hPosition⟩
    rw [hStart hWritten] at hPosition
    exact ⟨hWritten, (Option.some.inj hPosition).symm⟩
  · rintro ⟨hWritten, rfl⟩
    exact ⟨hWritten, hStart hWritten⟩

/-- An instruction is read where it stands. -/
theorem StandsAt.entryAt? {place position : Nat} {i : Written}
    (h : StandsAt instructions place position i) :
    (emitAll {} instructions).2.entryAt? position = some ⟨position, Item.ofInstruction i⟩ := by
  obtain ⟨hWritten, rfl⟩ := (standsAt_iff hFull).mp h
  have hFull' : i.Full := hFull i (List.mem_of_getElem? hWritten)
  rw [emitAll_empty hFull, Code.entryAt?, toList_assemble_of_getElem? hWritten, List.append_assoc,
    List.drop_left' (length_toList _), Item.ofBytes?_encode hFull']
  rfl

/-- Every byte belongs to an instruction. -/
theorem exists_standsAt {offset : Nat} (hOffset : offset < (emitAll {} instructions).2.size) :
    ∃ place position i, StandsAt instructions place position i ∧ position ≤ offset ∧
      offset < position + i.size := by
  rw [emitAll_empty hFull] at hOffset
  have walk : Walk (assemble instructions) 0 (entriesFrom 0 instructions) :=
    walk_assemble (Nat.zero_le _) hFull rfl
  obtain ⟨entry, hEntry, hFrom, hTo⟩ := walk.exists_entry (Nat.zero_le _) hOffset
  obtain ⟨place, hPlace⟩ := List.mem_iff_getElem?.mp hEntry
  have hItem : (instructions.map Item.ofInstruction)[place]? = some entry.item := by
    rw [← items_entriesFrom 0 instructions, List.getElem?_map, hPlace]
    rfl
  have hStart : (emitAll {} instructions).1[place]? = some entry.offset := by
    rw [emitAll_empty hFull, List.getElem?_map, hPlace]
    rfl
  rw [List.getElem?_map] at hItem
  obtain ⟨i, hWritten, hShown⟩ := Option.map_eq_some_iff.mp hItem
  rw [Entry.next, ← hShown] at hTo
  exact ⟨place, entry.offset, i, ⟨hWritten, hStart⟩, hFrom, hTo⟩

variable {place position : Nat} {i j : Written}

/-- An instruction with all its operands can take the place of any other one. -/
theorem full_set (hj : j.Full) : ∀ k ∈ instructions.set place j, k.Full := by
  intro k hk
  rcases List.mem_or_eq_of_mem_set hk with hOld | rfl
  · exact hFull k hOld
  · exact hj

/-- If an instruction makes way for another one of the same size, all stand where they stood. -/
theorem StandsAt.starts_set (h : StandsAt instructions place position i) (hj : j.Full)
    (hSize : j.size = i.size) :
    (emitAll {} (instructions.set place j)).1 = (emitAll {} instructions).1 := by
  obtain ⟨hPlace, hi⟩ := List.getElem?_eq_some_iff.mp h.written
  have hSizes : (instructions.set place j).map Written.size = instructions.map Written.size := by
    have hBound : place < (instructions.map Written.size).length := by simpa using hPlace
    have hSame : (instructions.map Written.size)[place] = j.size := by
      rw [List.getElem_map, hi, hSize]
    rw [List.map_set, ← hSame, List.set_getElem_self]
  rw [emitAll_empty hFull, emitAll_empty (full_set hFull hj)]
  simp only [offsets_entriesFrom, List.length_set, List.map_take, hSizes]

theorem StandsAt.set_self (h : StandsAt instructions place position i) (hj : j.Full)
    (hSize : j.size = i.size) : StandsAt (instructions.set place j) place position j :=
  ⟨List.getElem?_set_self (List.getElem?_eq_some_iff.mp h.written).1,
    (h.starts_set hFull hj hSize).symm ▸ h.start⟩

theorem StandsAt.set_of_ne (h : StandsAt instructions place position i) (hj : j.Full)
    (hSize : j.size = i.size) {other start : Nat} {k : Written} (hNe : place ≠ other)
    (hOther : StandsAt instructions other start k) :
    StandsAt (instructions.set place j) other start k :=
  ⟨(List.getElem?_set_ne hNe).trans hOther.written,
    (h.starts_set hFull hj hSize).symm ▸ hOther.start⟩

end

end Tandem.Code
