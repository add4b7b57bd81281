import Tandem.Value
/-!
Numbered slots for values. All slots hold null at the start; only those up to the last one written
are kept.
-/
namespace Tandem

/-- A fixed number of slots. Those that are not kept hold null. -/
structure Slots where
  size : Nat
  kept : Array Value := #[]
  deriving Inhabited

namespace Slots

/-- As many slots as there are values, but at least `least`, with the values in the first ones. -/
def ofList (least : Nat) (values : List Value) : Slots :=
  { size := max least values.length, kept := values.toArray }

/-- At least as many slots as `least`; the new ones hold null. -/
def widen (least : Nat) (slots : Slots) : Slots := { slots with size := max least slots.size }

/-- The value in a slot, whether or not there is such a slot. -/
def read (slots : Slots) (slot : Nat) : Value := slots.kept[slot]?.getD .null

def get? (slots : Slots) (slot : Nat) : Option Value :=
  if slot < slots.size then some (slots.read slot) else none

def write (slots : Slots) (slot : Nat) (value : Value) : Slots :=
  if slot < slots.kept.size then { slots with kept := slots.kept.setIfInBounds slot value }
  else
    { slots with
      kept := (slots.kept ++ Array.replicate (slot - slots.kept.size) Value.null).push value }

/-- The slots after writing a value to one of them, if there is such a slot. -/
def set? (slots : Slots) (slot : Nat) (value : Value) : Option Slots :=
  if slot < slots.size then some (slots.write slot value) else none

theorem read_write_self (slots : Slots) (slot : Nat) (value : Value) :
    (slots.write slot value).read slot = value := by
  unfold write read
  split
  · simp [*]
  · have h : (slots.kept ++ Array.replicate (slot - slots.kept.size) Value.null).size = slot := by
      simp; omega
    rw [Array.getElem?_push, h, if_pos rfl]
    rfl

/-- Slots between the last one kept and the one written are filled up with null, which they held
before. -/
theorem read_write_of_ne (slots : Slots) {slot other : Nat} (h : slot ≠ other) (value : Value) :
    (slots.write slot value).read other = slots.read other := by
  unfold write read
  split
  · simp [h]
  · rename_i hOut
    have hSize :
        (slots.kept ++ Array.replicate (slot - slots.kept.size) Value.null).size = slot := by
      simp; omega
    have hNe : other ≠ slot := fun he => h he.symm
    rw [Array.getElem?_push, hSize, if_neg hNe, Array.getElem?_append]
    split
    · rfl
    · rename_i hOther
      have hNone : slots.kept[other]? = none := by
        rw [Array.getElem?_eq_none_iff]; omega
      rw [hNone, Array.getElem?_replicate]
      split <;> rfl

theorem size_write (slots : Slots) (slot : Nat) (value : Value) :
    (slots.write slot value).size = slots.size := by
  unfold write
  split <;> rfl

def slice (slots : Slots) (start count : Nat) : List Value :=
  (List.range count).map fun place => slots.read (start + place)

theorem slice_one (slots : Slots) (start : Nat) : slots.slice start 1 = [slots.read start] := rfl

theorem slice_succ (slots : Slots) (start count : Nat) :
    slots.slice start (count + 1) = slots.read start :: slots.slice (start + 1) count := by
  simp [slice, List.range_succ_eq_map, Nat.add_assoc, Nat.add_comm 1]

theorem slice_add (slots : Slots) (start first second : Nat) :
    slots.slice start (first + second) =
      slots.slice start first ++ slots.slice (start + first) second := by
  simp [slice, List.range_add, Nat.add_assoc]

/-- A slice depends on its own slots only. -/
theorem slice_congr {slots others : Slots} {start count : Nat}
    (h : ∀ slot, start ≤ slot → slot < start + count → slots.read slot = others.read slot) :
    slots.slice start count = others.slice start count := by
  refine List.map_congr_left fun place hPlace => ?_
  have hCount := List.mem_range.mp hPlace
  exact h _ (Nat.le_add_right _ _) (by omega)

/-- The slots that do not hold null, in increasing order, with their values. -/
def occupied (slots : Slots) : List (Nat × Value) :=
  slots.kept.toList.zipIdx.filterMap fun (value, slot) =>
    match value with
    | .null => none
    | value => some (slot, value)

end Slots

end Tandem
