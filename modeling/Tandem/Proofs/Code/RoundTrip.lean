import Tandem.Proofs.Code.Walk
/-!
Streams and the instructions in them. A stream that was put together from instructions is taken
apart into the same instructions again, at the offsets that appending them gave; only operands that
are too large for their place come back reduced. A stream of known opcodes that lacks no operand
bytes is put together again from what was found in it.
-/
namespace Tandem.Code

abbrev Written := Opcode × List Nat

/-- As many operands are given as the opcode announces. -/
def Written.Full (i : Written) : Prop := i.2.length = i.1.operandWidths.length

def Written.size (i : Written) : Nat := 1 + i.1.operandSize

/-- Appends instructions one after the other. The first result lists the offsets at which they
start. -/
def emitAll (code : Code) : List Written → List Nat × Code
  | [] => ([], code)
  | (op, operands) :: rest =>
    let (offset, longer) := code.emit op operands
    let (offsets, whole) := longer.emitAll rest
    (offset :: offsets, whole)

/-- What is met in a stream in which instructions stand one after the other from an offset on. -/
def entriesFrom (offset : Nat) : List Written → List Entry
  | [] => []
  | i :: rest => ⟨offset, Item.ofInstruction i⟩ :: entriesFrom (offset + i.size) rest

theorem eq_of_toList_eq {first second : Code} (h : first.toList = second.toList) :
    first = second := by
  obtain ⟨first⟩ := first
  obtain ⟨second⟩ := second
  exact congrArg Code.mk (Array.toList_inj.mp h)

theorem items_entriesFrom (offset : Nat) (instructions : List Written) :
    (entriesFrom offset instructions).map Entry.item = instructions.map Item.ofInstruction := by
  induction instructions generalizing offset with
  | nil => rfl
  | cons i rest ih => rw [entriesFrom, List.map_cons, List.map_cons, ih]

/-- An instruction starts after all the earlier ones. -/
theorem offsets_entriesFrom (offset : Nat) (instructions : List Written) :
    (entriesFrom offset instructions).map Entry.offset =
      (List.range instructions.length).map fun place =>
        offset + ((instructions.take place).map Written.size).sum := by
  induction instructions generalizing offset with
  | nil => rfl
  | cons i rest ih =>
      rw [entriesFrom, List.map_cons, ih, List.length_cons, List.range_succ_eq_map, List.map_cons,
        List.map_map]
      refine List.cons_eq_cons.mpr ⟨rfl, List.map_congr_left fun place _ => ?_⟩
      simp [Nat.add_assoc]

/-- Instructions appended to a stream stand after it, at the offsets that were given. -/
theorem emitAll_eq (code : Code) {instructions : List Written}
    (h : ∀ i ∈ instructions, i.Full) :
    code.emitAll instructions = ((entriesFrom code.size instructions).map Entry.offset,
      ofList (code.toList ++ (assemble instructions).toList)) := by
  induction instructions generalizing code with
  | nil =>
      refine Prod.ext rfl (eq_of_toList_eq ?_)
      simp [assemble, emitAll]
  | cons i rest ih =>
      obtain ⟨op, operands⟩ := i
      have hFull : operands.length = op.operandWidths.length := h (op, operands) List.mem_cons_self
      have hSize : (code.emit op operands).2.size = code.size + Written.size (op, operands) := by
        rw [← length_toList, toList_emit, List.length_append, length_toList,
          Opcode.length_encode hFull]
        rfl
      have hRest := ih (code.emit op operands).2 fun i hRest => h i (List.mem_cons_of_mem _ hRest)
      rw [hSize] at hRest
      simp only [emitAll, hRest]
      refine Prod.ext rfl (eq_of_toList_eq ?_)
      simp [assemble]

/-- Instructions that stand at the end of a stream are met there. -/
theorem walk_assemble {code : Code} {instructions : List Written} {offset : Nat}
    (hOffset : offset ≤ code.size) (h : ∀ i ∈ instructions, i.Full)
    (hBytes : code.toList.drop offset = (assemble instructions).toList) :
    Walk code offset (entriesFrom offset instructions) := by
  induction instructions generalizing offset with
  | nil =>
      have hLength := congrArg List.length hBytes
      simp [assemble] at hLength
      rw [Nat.le_antisymm hOffset (by omega)]
      exact Walk.finish
  | cons i rest ih =>
      have hFull : i.Full := h i List.mem_cons_self
      have hHead : code.toList.drop offset =
          i.1.encode i.2 ++ (assemble rest).toList := by
        rw [hBytes]
        simp [assemble]
      have hLength : (i.1.encode i.2).length = i.size := Opcode.length_encode hFull
      have hRest : code.toList.drop (offset + i.size) = (assemble rest).toList := by
        rw [← List.drop_drop, hHead, List.drop_left' hLength]
      have hRoom : offset + i.size ≤ code.size := by
        have hWhole := congrArg List.length hHead
        rw [List.length_drop, length_toList, List.length_append, hLength] at hWhole
        omega
      refine Walk.meet ?_ (ih hRoom (fun i hMem => h i (List.mem_cons_of_mem _ hMem)) hRest)
      rw [entryAt?, hHead, Item.ofBytes?_encode hFull]
      rfl

/-- The stream is made of what is met on a walk through it. -/
theorem assemble_of_walk {code : Code} {entries : List Entry} {instructions : List Written}
    (walk : Walk code 0 entries)
    (h : entries.map Entry.item = instructions.map fun i => .instruction i.1 i.2) :
    assemble instructions = code := by
  apply eq_of_toList_eq
  have hBytes := walk.bytes_eq
  rw [List.drop_zero] at hBytes
  calc (assemble instructions).toList
      = (instructions.map fun i => Item.instruction i.1 i.2).flatMap Item.bytes := by
        rw [assemble, toList_ofList, List.flatMap_map]
        rfl
    _ = entries.flatMap fun entry => entry.item.bytes := by rw [← h, List.flatMap_map]
    _ = code.toList := hBytes.symm

/-- Instructions with all their operands, appended to an empty stream, start each one after all the
earlier ones, and the stream is what they are assembled to. Reading it from one end to the other
meets them at just these offsets and ends where the stream ends; their operands are reduced to their
widths, so those that fit are unchanged. And a stream in which only instructions are met is what
they are assembled to. -/
theorem instructions_round_trip :
    (∀ instructions : List Written, (∀ i ∈ instructions, i.Full) →
      ∃ entries, (assemble instructions).scan? = some entries ∧
        Walk (assemble instructions) 0 entries ∧
        emitAll {} instructions = (entries.map Entry.offset, assemble instructions) ∧
        (entries.map Entry.offset = (List.range instructions.length).map fun place =>
          ((instructions.take place).map Written.size).sum) ∧
        entries.map Entry.item = instructions.map Item.ofInstruction) ∧
    (∀ i : Written, i.Full → (∀ pair ∈ i.2.zip i.1.operandWidths, pair.1 < 256 ^ pair.2) →
      Item.ofInstruction i = .instruction i.1 i.2) ∧
    ∀ (code : Code) (entries : List Entry) (instructions : List Written),
      code.scan? = some entries →
      (entries.map Entry.item = instructions.map fun i => .instruction i.1 i.2) →
      assemble instructions = code := by
  refine ⟨fun instructions h => ⟨entriesFrom 0 instructions, ?_⟩, fun i hFull hFit => ?_,
    fun code entries instructions hScan hItems => ?_⟩
  · have walk : Walk (assemble instructions) 0 (entriesFrom 0 instructions) :=
      walk_assemble (Nat.zero_le _) h rfl
    refine ⟨scan?_eq_some_iff.mpr walk, walk, ?_, ?_, items_entriesFrom 0 instructions⟩
    · rw [emitAll_eq {} h]
      exact Prod.ext rfl (eq_of_toList_eq (toList_ofList _))
    · simpa using offsets_entriesFrom 0 instructions
  · rw [Item.ofInstruction, reduced_of_fit hFull hFit]
  · exact assemble_of_walk (scan?_eq_some_iff.mp hScan) hItems

/-- An instruction with two operands that are too large for their places, one without operands and
one with an operand that fits. -/
def mixed : List Written := [(.closure, [65537, 300]), (.pop, []), (.jump, [7])]

/-- The three instructions are met where they were appended. Both operands of the first one are
reduced, so the stream is also made of the reduced ones. -/
theorem mixed_round_trip :
    (∀ i ∈ mixed, i.Full) ∧ emitAll {} mixed = ([0, 4, 5], assemble mixed) ∧
      (assemble mixed).scan? = some
        [⟨0, .instruction .closure [1, 44]⟩, ⟨4, .instruction .pop []⟩,
          ⟨5, .instruction .jump [7]⟩] ∧
      assemble [(.closure, [1, 44]), (.pop, []), (.jump, [7])] = assemble mixed := by
  have hFull : ∀ i ∈ mixed, i.Full := by simp [mixed, Written.Full, Opcode.operandWidths]
  have hMet : (assemble mixed).scan? = some
      [⟨0, .instruction .closure [1, 44]⟩, ⟨4, .instruction .pop []⟩,
        ⟨5, .instruction .jump [7]⟩] := by decide
  obtain ⟨entries, hScan, _, hEmit, _, _⟩ := instructions_round_trip.1 mixed hFull
  rw [hMet] at hScan
  cases hScan
  exact ⟨hFull, hEmit, hMet, instructions_round_trip.2.2 _ _ _ hMet rfl⟩

end Tandem.Code
