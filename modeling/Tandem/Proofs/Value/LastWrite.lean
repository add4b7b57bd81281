import Tandem.Proofs.Translation.Data
/-!
Hashes made of pairs that are stored one after the other. A key keeps the place at which it first
came up and ends up with what was stored under it last, whatever was stored in between.
-/
namespace Tandem

namespace Entries

def insertAll (pairs : List (Key × Value)) (entries : Entries) : Entries :=
  pairs.foldl (fun entries (key, value) => insert key value entries) entries

/-- The last of the pairs whose key is told apart by `key`, if any. -/
def lastPair? (key : HashKey) (pairs : List (Key × Value)) : Option (Key × Value) :=
  pairs.reverse.find? fun pair => pair.1.hashKey = key

/-- The entries are what the pairs come to if the last pair of each key counts. -/
structure LastWrites (pairs : List (Key × Value)) (entries : Entries) : Prop where
  /-- No key has two entries. -/
  once : entries.hashKeys.Nodup
  /-- The entries are those of all keys, in the order in which the keys first came up. -/
  order : entries.hashKeys = (pairs.map fun pair => pair.1.hashKey).eraseDups
  /-- Every entry is the last pair of its key. -/
  last : ∀ entry ∈ entries, lastPair? entry.1.hashKey pairs = some entry

theorem lastPair?_concat (key : HashKey) (pairs : List (Key × Value)) (pair : Key × Value) :
    lastPair? key (pairs ++ [pair]) =
      if pair.1.hashKey = key then some pair else lastPair? key pairs := by
  by_cases h : pair.1.hashKey = key <;> simp [lastPair?, h]

theorem lastPair?_eq_none_iff {key : HashKey} {pairs : List (Key × Value)} :
    lastPair? key pairs = none ↔ key ∉ pairs.map fun pair => pair.1.hashKey := by
  simp only [lastPair?, List.find?_eq_none, List.mem_reverse, decide_eq_true_eq, List.mem_map,
    not_exists, not_and]

/-- Storing a value leaves no other entry under its key. -/
theorem ne_of_mem_insert {entries : Entries} (hOnce : entries.hashKeys.Nodup) {key : Key}
    {value : Value} {entry : Key × Value} (h : entry ∈ insert key value entries) :
    entry = (key, value) ∨ entry ∈ entries ∧ entry.1.hashKey ≠ key.hashKey := by
  induction entries with
  | nil => exact Or.inl (List.mem_singleton.mp h)
  | cons first rest ih =>
      obtain ⟨hFirst, hRest⟩ := List.nodup_cons.mp hOnce
      rw [insert] at h
      split at h
      · rename_i hKey
        rcases List.mem_cons.mp h with hNew | hOld
        · exact Or.inl hNew
        · have hMem : entry.1.hashKey ∈ hashKeys rest := List.mem_map_of_mem hOld
          refine Or.inr ⟨List.mem_cons_of_mem _ hOld, fun hSame => hFirst ?_⟩
          rw [hSame, ← hKey] at hMem
          exact hMem
      · rename_i hKey
        rcases List.mem_cons.mp h with hHere | hLater
        · rw [hHere]
          exact Or.inr ⟨List.mem_cons_self, hKey⟩
        · exact (ih hRest hLater).imp id fun hOther => ⟨List.mem_cons_of_mem _ hOther.1, hOther.2⟩

/-- One more pair is the last one of its key, and leaves those of all other keys as they were. -/
theorem LastWrites.insert {pairs : List (Key × Value)} {entries : Entries}
    (h : LastWrites pairs entries) (key : Key) (value : Value) :
    LastWrites (pairs ++ [(key, value)]) (entries.insert key value) := by
  refine ⟨nodup_insert h.once key value, ?_, fun entry hEntry => ?_⟩
  · rw [hashKeys_insert, h.order, List.map_append, List.eraseDups_append]
    by_cases hMem : key.hashKey ∈ pairs.map fun pair => pair.1.hashKey
    · rw [if_pos (List.mem_eraseDups.mpr hMem)]
      simp [List.removeAll, hMem]
    · rw [if_neg fun hOld => hMem (List.mem_eraseDups.mp hOld)]
      simp [List.removeAll, hMem, List.eraseDups_cons]
  · rw [lastPair?_concat]
    rcases ne_of_mem_insert h.once hEntry with rfl | ⟨hOld, hOther⟩
    · exact if_pos rfl
    · rw [if_neg hOther.symm]
      exact h.last entry hOld

/-- Pairs that are stored one after the other are the last ones of their keys, or leave those that
were. -/
theorem LastWrites.insertAll {before : List (Key × Value)} {entries : Entries}
    (h : LastWrites before entries) (pairs : List (Key × Value)) :
    LastWrites (before ++ pairs) (insertAll pairs entries) := by
  induction pairs generalizing before entries with
  | nil =>
      rw [List.append_nil]
      exact h
  | cons pair pairs ih =>
      rw [List.append_cons]
      exact ih (h.insert pair.1 pair.2)

/-- Storing pairs one after the other comes to the last pair of each key. -/
theorem lastWrites_ofPairs (pairs : List (Key × Value)) : LastWrites pairs (ofPairs pairs) := by
  have hNone : LastWrites [] [] :=
    ⟨List.nodup_nil, rfl, fun entry hEntry => absurd hEntry List.not_mem_nil⟩
  exact hNone.insertAll pairs

theorem find?_eq_none {key : HashKey} {entries : Entries} (h : key ∉ entries.hashKeys) :
    find? key entries = none := by
  induction entries with
  | nil => rfl
  | cons entry rest ih =>
      obtain ⟨hFirst, hRest⟩ := not_or.mp (mt List.mem_cons.mpr h)
      rw [find?, if_neg (Ne.symm hFirst)]
      exact ih hRest

/-- What is found under a key is the value of the last pair of that key. -/
theorem LastWrites.find?_eq {pairs : List (Key × Value)} {entries : Entries}
    (h : LastWrites pairs entries) (key : HashKey) :
    find? key entries = (lastPair? key pairs).map Prod.snd := by
  have hMem : key ∈ entries.hashKeys ↔ key ∈ pairs.map fun pair => pair.1.hashKey := by
    rw [h.order, List.mem_eraseDups]
  by_cases hKey : key ∈ entries.hashKeys
  · obtain ⟨entry, hEntry, rfl⟩ := List.mem_map.mp hKey
    rw [find?_of_mem h.once hEntry, h.last entry hEntry]
    rfl
  · rw [find?_eq_none hKey, lastPair?_eq_none_iff.mpr fun hPair => hKey (hMem.mpr hPair)]
    rfl

/-- A key that is not there yet goes to the end. -/
theorem insert_of_new {key : Key} {entries : Entries} (h : key.hashKey ∉ entries.hashKeys)
    (value : Value) : insert key value entries = entries ++ [(key, value)] := by
  induction entries with
  | nil => rfl
  | cons first rest ih =>
      obtain ⟨hFirst, hRest⟩ := not_or.mp (mt List.mem_cons.mpr h)
      rw [insert, if_neg (Ne.symm hFirst), ih hRest]
      rfl

/-- Pairs with different keys are stored as they come. -/
theorem ofPairs_of_nodup {pairs : List (Key × Value)} (h : (hashKeys pairs).Nodup) :
    ofPairs pairs = pairs := by
  suffices hStored : ∀ stored : Entries, (hashKeys (stored ++ pairs)).Nodup →
      insertAll pairs stored = stored ++ pairs from hStored [] h
  intro stored hNodup
  induction pairs generalizing stored with
  | nil => exact (List.append_nil stored).symm
  | cons pair rest ih =>
      have hNew : pair.1.hashKey ∉ hashKeys stored := by
        intro hOld
        rw [hashKeys, List.map_append] at hNodup
        exact (List.nodup_append.mp hNodup).2.2 _ hOld _ List.mem_cons_self rfl
      have hNext : insertAll (pair :: rest) stored = insertAll rest (stored ++ [pair]) :=
        congrArg (insertAll rest) (insert_of_new hNew pair.2)
      rw [List.append_cons] at hNodup ⊢
      rw [hNext]
      exact ih (List.nodup_cons.mp h).2 _ hNodup

end Entries

def HashKey.typeName : HashKey → String
  | integer _ => "INTEGER"
  | boolean _ => "BOOLEAN"
  | string _ => "STRING"

/-- A key tells its type, so keys of different types are told apart. -/
theorem Value.typeName_of_hashKey? {value : Value} {key : HashKey}
    (h : value.hashKey? = some key) : value.typeName = key.typeName := by
  cases value with
  | integer n | boolean b | string id text =>
      cases h
      rfl
  | _ => cases h

end Tandem
