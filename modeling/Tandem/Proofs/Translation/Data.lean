import Tandem.Proofs.Translation.Meaning
import Tandem.Proofs.Value.Parts
import Tandem.Value.Equality
/-!
The values that plain expressions give: data alone, whose arrays and hashes have labels given out
in the course of the evaluation. Values of two expressions that are evaluated one after the other
have no such label in common, so they are identical only as far as their contents say so; and
values with the same bare form are equal.
-/
namespace Tandem

namespace Entries

def hashKeys (entries : Entries) : List HashKey := entries.map fun entry => entry.1.hashKey

/-- Only a key that is not there yet adds an entry, and it goes to the end. -/
theorem hashKeys_insert (key : Key) (value : Value) (entries : Entries) :
    hashKeys (insert key value entries) =
      if key.hashKey ∈ hashKeys entries then hashKeys entries
      else hashKeys entries ++ [key.hashKey] := by
  induction entries with
  | nil => simp [hashKeys, insert]
  | cons entry rest ih =>
      obtain ⟨entryKey, entryValue⟩ := entry
      by_cases h : entryKey.hashKey = key.hashKey
      · simp [hashKeys, insert, h]
      · have hOther : key.hashKey ≠ entryKey.hashKey := fun he => h he.symm
        simp only [hashKeys, insert, h, if_false, List.map_cons] at ih ⊢
        rw [ih]
        simp only [List.mem_cons, hOther, false_or]
        split
        · simp [*]
        · simp [*]

theorem nodup_insert {entries : Entries} (h : entries.hashKeys.Nodup) (key : Key) (value : Value) :
    (insert key value entries).hashKeys.Nodup := by
  rw [hashKeys_insert]
  split
  · exact h
  · rename_i hNew
    refine List.nodup_append.mpr ⟨h, by simp, ?_⟩
    rintro old hOld _ hKey rfl
    exact hNew (List.mem_singleton.mp hKey ▸ hOld)

/-- Where no key occurs twice, every entry is found under its key. -/
theorem find?_of_mem {entries : Entries} (h : entries.hashKeys.Nodup) {key : Key} {value : Value}
    (hEntry : (key, value) ∈ entries) : find? key.hashKey entries = some value := by
  induction entries with
  | nil => cases hEntry
  | cons entry rest ih =>
      obtain ⟨hFirst, hRest⟩ := List.nodup_cons.mp h
      rcases List.mem_cons.mp hEntry with hHere | hOther
      · cases hHere
        simp [find?]
      · have hKey : key.hashKey ∈ hashKeys rest := List.mem_map_of_mem hOther
        have hNe : entry.1.hashKey ≠ key.hashKey := by
          intro he
          rw [← he] at hKey
          exact hFirst hKey
        simp only [find?, hNe, if_false]
        exact ih hRest hOther

end Entries

/-- The label is one of those numbered from `low` on, below `high`. -/
def Label.Within (low high : Nat) (label : Label) : Prop :=
  ∃ n, label = .object n ∧ low ≤ n ∧ n < high

theorem Label.Within.mono {low high lower higher : Nat} {label : Label}
    (h : label.Within low high) (hLow : lower ≤ low) (hHigh : high ≤ higher) :
    label.Within lower higher := by
  obtain ⟨n, rfl, hFrom, hTo⟩ := h
  exact ⟨n, rfl, by omega, by omega⟩

namespace Value

/-- The value is data, with a label of the range if it is an array or a hash. -/
def DataIn (low high : Nat) : Value → Prop
  | null | integer _ | boolean _ | string _ _ => True
  | array id _ => id.Within low high
  | hash id entries => id.Within low high ∧ (Entries.hashKeys entries).Nodup
  | _ => False

/-- The value is data all the way down, and all its arrays and hashes have labels of the range. -/
def DataWithin (low high : Nat) (value : Value) : Prop := value.Throughout (DataIn low high)

variable {low high : Nat}

/-- Widening the range keeps what is known of values that were made earlier. -/
theorem DataWithin.mono {value : Value} (h : value.DataWithin low high) {lower higher : Nat}
    (hLow : lower ≤ low) (hHigh : high ≤ higher) : value.DataWithin lower higher := by
  refine Throughout.mono (fun part hPart => ?_) h
  cases part with
  | array id elements => exact hPart.mono hLow hHigh
  | hash id entries => exact ⟨hPart.1.mono hLow hHigh, hPart.2⟩
  | _ => exact hPart

theorem dataWithin_of_parts_eq_nil {value : Value} (hHere : value.DataIn low high)
    (hParts : value.parts = []) : value.DataWithin low high := by
  refine Throughout.intro hHere ?_
  rw [hParts]
  exact fun part hPart => absurd hPart List.not_mem_nil

@[simp]
theorem dataWithin_null : null.DataWithin low high := dataWithin_of_parts_eq_nil trivial rfl

@[simp]
theorem dataWithin_integer (n : Int64) : (integer n).DataWithin low high :=
  dataWithin_of_parts_eq_nil trivial rfl

@[simp]
theorem dataWithin_boolean (b : Bool) : (boolean b).DataWithin low high :=
  dataWithin_of_parts_eq_nil trivial rfl

@[simp]
theorem dataWithin_string (id : Label) (text : String) : (string id text).DataWithin low high :=
  dataWithin_of_parts_eq_nil trivial rfl

theorem dataWithin_array {id : Label} (hId : id.Within low high) {elements : List Value}
    (h : ∀ element ∈ elements, element.DataWithin low high) :
    (array id elements).DataWithin low high :=
  Throughout.intro hId h

theorem dataWithin_hash {id : Label} (hId : id.Within low high) {entries : Entries}
    (hNodup : entries.hashKeys.Nodup) (h : ∀ entry ∈ entries, entry.2.DataWithin low high) :
    (hash id entries).DataWithin low high := by
  refine Throughout.intro ⟨hId, hNodup⟩ fun part hPart => ?_
  obtain ⟨entry, hEntry, rfl⟩ := List.mem_map.mp hPart
  exact h entry hEntry

theorem DataWithin.getD {value? : Option Value}
    (h : ∀ value, value? = some value → value.DataWithin low high) :
    (value?.getD .null).DataWithin low high :=
  throughout_getD dataWithin_null h

theorem DataWithin.find? {id : Label} {entries : Entries}
    (h : (hash id entries).DataWithin low high) (key : HashKey) :
    ((Entries.find? key entries).getD .null).DataWithin low high := by
  refine DataWithin.getD fun value hValue => ?_
  obtain ⟨entry, hEntry, rfl⟩ := Entries.exists_mem_of_find? hValue
  exact h.inside _ (List.mem_map_of_mem hEntry)

/-- Error values are not data, so data passes every check. -/
theorem DataWithin.isError {value : Value} (h : value.DataWithin low high) :
    value.isError = false := by
  cases value with
  | error id message => cases h.here
  | _ => rfl

/-- Data of one type that is neither integer nor string, made one after the other, is identical
just as its bare forms are alike. -/
theorem identical_eq_alike {middle : Nat} {left right : Value}
    (hLeft : left.DataWithin low middle) (hRight : right.DataWithin middle high)
    (hType : left.typeName = right.typeName) (hInteger : left.typeName ≠ "INTEGER")
    (hString : left.typeName ≠ "STRING") :
    left.identical right = left.bare.alike right.bare := by
  have hLabel {a b : Label} (hA : a.Within low middle) (hB : b.Within middle high) : a ≠ b := by
    obtain ⟨n, rfl, _, hN⟩ := hA
    obtain ⟨k, rfl, hK, _⟩ := hB
    intro h
    cases h
    omega
  cases left with
  | integer n => exact absurd rfl hInteger
  | string id text => exact absurd rfl hString
  | null => cases right <;> simp [typeName] at hType; rfl
  | boolean a => cases right <;> simp [typeName] at hType; rfl
  | array a xs =>
      cases right <;> simp [typeName] at hType
      simpa [identical, bare, alike] using hLabel hLeft.here hRight.here
  | hash a xs =>
      cases right <;> simp [typeName] at hType
      simpa [identical, bare, alike] using hLabel hLeft.here.1 hRight.here.1
  | _ => cases hLeft.here

theorem sameElements_of_bare_eq {xs ys : List Value}
    (h : ∀ x ∈ xs, ∀ y, x.bare = y.bare → x.same y = true)
    (hBare : bareElements xs = bareElements ys) : sameElements xs ys = true := by
  induction xs generalizing ys with
  | nil =>
      cases ys with
      | nil => rfl
      | cons y ys => cases hBare
  | cons x xs ih =>
      cases ys with
      | nil => cases hBare
      | cons y ys =>
          simp only [bareElements, List.cons.injEq] at hBare
          simp only [sameElements, Bool.and_eq_true]
          exact ⟨h x List.mem_cons_self y hBare.1,
            ih (fun x hX => h x (List.mem_cons_of_mem _ hX)) hBare.2⟩

theorem entriesWithin_of_find? {xs ys : Entries}
    (h : ∀ entry ∈ xs, ∃ other, Entries.find? entry.1.hashKey ys = some other ∧
      entry.2.same other = true) : entriesWithin xs ys = true := by
  induction xs with
  | nil => rfl
  | cons entry xs ih =>
      obtain ⟨other, hFind, hSame⟩ := h entry List.mem_cons_self
      obtain ⟨key, value⟩ := entry
      simp only [entriesWithin, hFind, hSame, Bool.true_and]
      exact ih fun entry hEntry => h entry (List.mem_cons_of_mem _ hEntry)

/-- Data with the same bare form has the same contents. -/
theorem same_of_bare_eq {left right : Value} (h : left.DataWithin low high)
    (hBare : left.bare = right.bare) : left.same right = true := by
  induction h generalizing right with
  | @intro left here inside ih =>
      cases left with
      | null => cases right <;> simp [bare] at hBare; rfl
      | integer n => cases right <;> simp [bare] at hBare; simp [same, identical, hBare]
      | boolean b => cases right <;> simp [bare] at hBare; simp [same, identical, hBare]
      | string id text => cases right <;> simp [bare] at hBare; simp [same, hBare]
      | array id xs =>
          cases right <;> simp [bare] at hBare
          exact sameElements_of_bare_eq (fun x hX y => ih x hX) hBare
      | hash id xs =>
          cases right <;> simp [bare] at hBare
          rename_i other ys
          have hLength : xs.length = ys.length := by
            rw [← length_bareEntries xs, hBare, length_bareEntries]
          simp only [same, hLength, BEq.rfl, Bool.true_and]
          refine entriesWithin_of_find? fun entry hEntry => ?_
          have hFind := Entries.find?_of_mem here.2 hEntry
          have hOther := congrArg (Entries.find? entry.1.hashKey) hBare
          rw [Entries.find?_bareEntries, Entries.find?_bareEntries, hFind] at hOther
          obtain ⟨value, hValue, hSame⟩ := Option.map_eq_some_iff.mp hOther.symm
          exact ⟨value, hValue, ih entry.2 (List.mem_map_of_mem hEntry) hSame.symm⟩
      | _ => cases here

end Value

end Tandem
