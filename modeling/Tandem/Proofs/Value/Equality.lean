import Mathlib.Data.List.Nodup
import Mathlib.Data.List.Perm.Subperm
import Tandem.Proofs.Value.LastWrite
/-!
Equality of contents as an equivalence. Hashes are compared from one side only: they are equally
long, and every entry of the one is found in the other. Since no key has two entries, a count shows
that this leaves nothing over in the other one, so the entries of equal hashes are the same up to
their order. Values that can be keys are equal just when nothing tells them apart as keys.
-/
namespace Tandem

namespace Value

/-- In a hash, no key has two entries. -/
def HasKeysOnce : Value → Prop
  | hash _ entries => (Entries.hashKeys entries).Nodup
  | _ => True

/-- In all hashes inside the value, at any depth, no key has two entries. -/
def KeysOnce (value : Value) : Prop := value.Throughout HasKeysOnce

/-- What equality of contents asks of two values. Values that have no contents to look into are one
and the same. -/
inductive SameContents : Value → Value → Prop where
  | null : SameContents null null
  | integer (n : Int64) : SameContents (integer n) (integer n)
  | boolean (b : Bool) : SameContents (boolean b) (boolean b)
  | string (id other : Label) (text : String) : SameContents (string id text) (string other text)
  | array (id other : Label) {xs ys : List Value}
      (h : List.Forall₂ (fun x y => x.same y = true) xs ys) :
      SameContents (array id xs) (array other ys)
  | hash (id other : Label) {xs ys : Entries} (hLength : xs.length = ys.length)
      (hWithin : entriesWithin xs ys = true) : SameContents (hash id xs) (hash other ys)
  | function (id : Label) (parameters others : List String) (body otherBody : List Stmt)
      (scope otherScope : Nat) :
      SameContents (function id parameters body scope) (function id others otherBody otherScope)
  | builtin (b : Builtin) : SameContents (builtin b) (builtin b)
  | error (id other : Label) (message : String) :
      SameContents (error id message) (error other message)
  | returning {x y : Value} (h : x.same y = true) : SameContents (returning x) (returning y)
  | compiled (id other : Label) (f : CompiledFunction) :
      SameContents (compiled id f) (compiled other f)
  | closure (id : Label) (f g : CompiledFunction) (free others : List Value) :
      SameContents (closure id f free) (closure id g others)

theorem sameElements_iff {xs ys : List Value} :
    sameElements xs ys = true ↔ List.Forall₂ (fun x y => x.same y = true) xs ys := by
  induction xs generalizing ys with
  | nil => cases ys <;> simp [sameElements]
  | cons x xs ih => cases ys <;> simp [sameElements, ih]

theorem sameContents_of_same {a b : Value} (h : a.same b = true) : SameContents a b := by
  cases a with
  | null => cases b <;> simp [same, identical] at h; exact .null
  | integer n => cases b <;> simp [same, identical] at h; exact h ▸ .integer n
  | boolean p => cases b <;> simp [same, identical] at h; exact h ▸ .boolean p
  | string id text => cases b <;> simp [same, identical] at h; exact h ▸ .string id _ text
  | array id xs =>
      cases b <;> simp [same, identical] at h
      exact .array id _ (sameElements_iff.mp h)
  | hash id xs => cases b <;> simp [same, identical] at h; exact .hash id _ h.1 h.2
  | function id parameters body scope =>
      cases b <;> simp [same, identical] at h
      exact h ▸ .function id parameters _ body _ scope _
  | builtin f => cases b <;> simp [same, identical] at h; exact h ▸ .builtin f
  | error id message => cases b <;> simp [same, identical] at h; exact h ▸ .error id _ message
  | returning x => cases b <;> simp [same, identical] at h; exact .returning h
  | compiled id f => cases b <;> simp [same, identical] at h; exact h ▸ .compiled id _ f
  | closure id f free => cases b <;> simp [same, identical] at h; exact h ▸ .closure id f _ free _

theorem SameContents.same {a b : Value} (h : SameContents a b) : a.same b = true := by
  cases h with
  | array id other h => simpa [Value.same] using sameElements_iff.mpr h
  | hash id other hLength hWithin => simp [Value.same, hLength, hWithin]
  | returning h => simpa [Value.same] using h
  | _ => simp [Value.same, identical]

theorem find?_of_entriesWithin {xs ys : Entries} (h : entriesWithin xs ys = true) :
    ∀ entry ∈ xs, ∃ other, Entries.find? entry.1.hashKey ys = some other ∧
      entry.2.same other = true := by
  induction xs with
  | nil => exact fun entry hEntry => absurd hEntry List.not_mem_nil
  | cons first rest ih =>
      obtain ⟨key, value⟩ := first
      rw [entriesWithin, Bool.and_eq_true] at h
      refine List.forall_mem_cons.mpr ⟨?_, ih h.2⟩
      cases hFind : Entries.find? key.hashKey ys with
      | none => simp [hFind] at h
      | some other => exact ⟨other, rfl, by simpa [hFind] using h.1⟩

/-- Of two entries under one key only the first would be found, so a hash with such entries need not
equal itself. -/
theorem same_refl {a : Value} (h : a.KeysOnce) : a.same a = true := by
  induction h with
  | @intro a here inside ih =>
      refine SameContents.same ?_
      cases a with
      | null => exact .null
      | integer n => exact .integer n
      | boolean b => exact .boolean b
      | string id text => exact .string id id text
      | array id xs => exact .array id id (List.forall₂_same.mpr ih)
      | hash id xs =>
          refine .hash id id rfl (entriesWithin_of_find? fun entry hEntry => ?_)
          exact ⟨entry.2, Entries.find?_of_mem here hEntry, ih _ (List.mem_map_of_mem hEntry)⟩
      | function id parameters body scope => exact .function id _ _ _ _ _ _
      | builtin b => exact .builtin b
      | error id message => exact .error id id message
      | returning x => exact .returning (ih x List.mem_cons_self)
      | compiled id f => exact .compiled id id f
      | closure id f free => exact .closure id _ _ _ _

/-- A pair of related lists may be turned around if the relation may be for their members. -/
theorem forall₂_flip_of_mem {α : Type} {R S : α → α → Prop} {xs ys : List α}
    (h : List.Forall₂ R xs ys) (hFlip : ∀ x ∈ xs, ∀ y ∈ ys, R x y → S y x) :
    List.Forall₂ S ys xs := by
  induction h with
  | nil => exact .nil
  | cons hHead _ ih =>
      refine .cons (hFlip _ List.mem_cons_self _ List.mem_cons_self hHead) (ih ?_)
      exact fun x hX y hY => hFlip x (List.mem_cons_of_mem _ hX) y (List.mem_cons_of_mem _ hY)

theorem forall₂_trans_of_mem {α : Type} {R S T : α → α → Prop} {xs ys zs : List α}
    (hLeft : List.Forall₂ R xs ys) (hRight : List.Forall₂ S ys zs)
    (hTrans : ∀ x ∈ xs, ∀ y z, R x y → S y z → T x z) : List.Forall₂ T xs zs := by
  induction hLeft generalizing zs with
  | nil =>
      cases hRight
      exact .nil
  | cons hHead _ ih =>
      cases hRight with
      | cons hNext hRest =>
          refine .cons (hTrans _ List.mem_cons_self _ _ hHead hNext) (ih hRest ?_)
          exact fun x hX => hTrans x (List.mem_cons_of_mem _ hX)

/-- Members that all have a counterpart in a list can be paired with members of that list. -/
theorem exists_forall₂_of_mem {α : Type} {R : α → α → Prop} {xs ys : List α}
    (h : ∀ x ∈ xs, ∃ y ∈ ys, R x y) : ∃ matched, matched ⊆ ys ∧ List.Forall₂ R xs matched := by
  induction xs with
  | nil => exact ⟨[], List.nil_subset ys, .nil⟩
  | cons x xs ih =>
      obtain ⟨⟨y, hY, hHead⟩, hRest⟩ := List.forall_mem_cons.mp h
      obtain ⟨matched, hSubset, hMatched⟩ := ih hRest
      exact ⟨y :: matched, List.cons_subset.mpr ⟨hY, hSubset⟩, .cons hHead hMatched⟩

def SamePair (first second : Key × Value) : Prop :=
  first.1.toValue.same second.1.toValue = true ∧ first.2.same second.2 = true

/-- The entries of the one hash are those of the other one, each with an equal key and an equal
value, in whatever order. -/
def SamePairs (xs ys : Entries) : Prop :=
  ∃ matched : Entries, matched.Perm ys ∧ List.Forall₂ SamePair xs matched

/-- Keys are equal just when nothing tells them apart. -/
theorem same_toValue_iff {key other : Key} :
    key.toValue.same other.toValue = true ↔ key.hashKey = other.hashKey := by
  cases key <;> cases other <;> simp [Key.toValue, Key.hashKey, same, identical]

theorem hashKeys_eq_of_forall₂ {xs ys : Entries} (h : List.Forall₂ SamePair xs ys) :
    xs.hashKeys = ys.hashKeys := by
  induction h with
  | nil => rfl
  | cons hHead _ ih => exact congrArg₂ List.cons (same_toValue_iff.mp hHead.1) ih

theorem SamePairs.nodup {xs ys : Entries} (h : SamePairs xs ys) (hOnce : xs.hashKeys.Nodup) :
    ys.hashKeys.Nodup := by
  obtain ⟨matched, hPerm, hMatched⟩ := h
  rw [hashKeys_eq_of_forall₂ hMatched] at hOnce
  exact (hPerm.map _).nodup_iff.mp hOnce

/-- If the entries of one hash are found in another one that is no longer, they are all that there
is in the other one. -/
theorem samePairs_of_entriesWithin {xs ys : Entries} (hOnce : xs.hashKeys.Nodup)
    (hLength : xs.length = ys.length) (hWithin : entriesWithin xs ys = true) : SamePairs xs ys := by
  have hFound : ∀ entry ∈ xs, ∃ other ∈ ys, SamePair entry other := by
    intro entry hEntry
    obtain ⟨value, hFind, hSame⟩ := find?_of_entriesWithin hWithin entry hEntry
    obtain ⟨other, hOther, hKey, rfl⟩ := Entries.exists_entry_of_find? hFind
    exact ⟨other, hOther, same_toValue_iff.mpr hKey.symm, hSame⟩
  obtain ⟨matched, hSubset, hMatched⟩ := exists_forall₂_of_mem hFound
  have hNodup : matched.Nodup := by
    rw [hashKeys_eq_of_forall₂ hMatched] at hOnce
    exact List.Nodup.of_map _ hOnce
  have hCount : ys.length ≤ matched.length :=
    Nat.le_of_eq (hLength.symm.trans hMatched.length_eq)
  exact ⟨matched, (List.subperm_of_subset hNodup hSubset).perm_of_length_le hCount, hMatched⟩

theorem entriesWithin_of_samePairs {xs ys : Entries} (hOnce : ys.hashKeys.Nodup)
    (h : SamePairs xs ys) : xs.length = ys.length ∧ entriesWithin xs ys = true := by
  obtain ⟨matched, hPerm, hMatched⟩ := h
  refine ⟨hMatched.length_eq.trans hPerm.length_eq, entriesWithin_of_find? fun entry hEntry => ?_⟩
  have hCounterpart : ∃ other ∈ matched, SamePair entry other := by
    obtain ⟨place, hPlace, rfl⟩ := List.getElem_of_mem hEntry
    exact ⟨_, List.getElem_mem _, hMatched.get hPlace (hMatched.length_eq ▸ hPlace)⟩
  obtain ⟨other, hOther, hKey, hSame⟩ := hCounterpart
  refine ⟨other.2, ?_, hSame⟩
  rw [same_toValue_iff.mp hKey]
  exact Entries.find?_of_mem hOnce (hPerm.mem_iff.mp hOther)

/-- The comparison of hashes looks from one side only. As no key occurs twice and the numbers of
entries are the same, nothing on the other side is left over. -/
theorem same_hash_iff {id other : Label} {xs ys : Entries} (hXs : xs.hashKeys.Nodup)
    (hYs : ys.hashKeys.Nodup) : (hash id xs).same (hash other ys) = true ↔ SamePairs xs ys := by
  constructor
  · intro h
    cases sameContents_of_same h with
    | hash _ _ hLength hWithin => exact samePairs_of_entriesWithin hXs hLength hWithin
  · intro h
    obtain ⟨hLength, hWithin⟩ := entriesWithin_of_samePairs hYs h
    exact SameContents.same (.hash id other hLength hWithin)

theorem SamePairs.symm {xs ys : Entries} (h : SamePairs xs ys)
    (hSymm : ∀ x ∈ xs, ∀ y ∈ ys, x.2.same y.2 = true → y.2.same x.2 = true) : SamePairs ys xs := by
  obtain ⟨matched, hPerm, hMatched⟩ := h
  have hFlipped : List.Forall₂ SamePair matched xs := by
    refine forall₂_flip_of_mem hMatched fun x hX y hY hSame => ⟨?_, ?_⟩
    · exact same_toValue_iff.mpr (same_toValue_iff.mp hSame.1).symm
    · exact hSymm x hX y (hPerm.mem_iff.mp hY) hSame.2
  obtain ⟨others, hOthers, hBack⟩ := List.perm_comp_forall₂ hPerm.symm hFlipped
  exact ⟨others, hBack, hOthers⟩

theorem same_symm {a b : Value} (hA : a.KeysOnce) (hB : b.KeysOnce) (h : a.same b = true) :
    b.same a = true := by
  induction hA generalizing b with
  | @intro a here inside ih =>
      refine SameContents.same ?_
      cases sameContents_of_same h with
      | null => exact .null
      | integer n => exact .integer n
      | boolean b => exact .boolean b
      | string id other text => exact .string other id text
      | array id other hElements =>
          refine .array other id (forall₂_flip_of_mem hElements fun x hX y hY => ?_)
          exact ih x hX (hB.inside y hY)
      | @hash id other xs ys hLength hWithin =>
          have hPairs : SamePairs ys xs := by
            refine (samePairs_of_entriesWithin here hLength hWithin).symm fun x hX y hY => ?_
            exact ih x.2 (List.mem_map_of_mem hX) (hB.inside _ (List.mem_map_of_mem hY))
          obtain ⟨hLength, hWithin⟩ := entriesWithin_of_samePairs here hPairs
          exact .hash other id hLength hWithin
      | function id parameters others body otherBody scope otherScope =>
          exact .function id others parameters otherBody body otherScope scope
      | builtin f => exact .builtin f
      | error id other message => exact .error other id message
      | returning hValue =>
          exact .returning (ih _ List.mem_cons_self (hB.inside _ List.mem_cons_self) hValue)
      | compiled id other f => exact .compiled other id f
      | closure id f g free others => exact .closure id g f others free

theorem same_trans {a b c : Value} (hLeft : a.same b = true) (hRight : b.same c = true) :
    a.same c = true := by
  induction a.throughout_true generalizing b c with
  | @intro a here inside ih =>
      refine SameContents.same ?_
      have hNext := sameContents_of_same hRight
      cases sameContents_of_same hLeft with
      | array id other hElements =>
          cases hNext with
          | array _ last hOthers =>
              exact .array id last (forall₂_trans_of_mem hElements hOthers fun x hX y z => ih x hX)
      | hash id other hLength hWithin =>
          cases hNext with
          | hash _ last hNextLength hNextWithin =>
              refine .hash id last (hLength.trans hNextLength) ?_
              refine entriesWithin_of_find? fun entry hEntry => ?_
              obtain ⟨_, hFind, hSame⟩ := find?_of_entriesWithin hWithin entry hEntry
              obtain ⟨middle, hMiddle, hKey, rfl⟩ := Entries.exists_entry_of_find? hFind
              obtain ⟨value, hNextFind, hNextSame⟩ :=
                find?_of_entriesWithin hNextWithin middle hMiddle
              refine ⟨value, hKey ▸ hNextFind, ?_⟩
              exact ih entry.2 (List.mem_map_of_mem hEntry) hSame hNextSame
      | returning hValue =>
          cases hNext with
          | returning hOther => exact .returning (ih _ List.mem_cons_self hValue hOther)
      | null | integer | boolean | string | function | builtin | error | compiled | closure =>
          cases hNext
          constructor

/-- Values that can be keys are equal just when nothing tells them apart as keys. -/
theorem hashKey_eq_iff_same {a b : Value} {key other : HashKey} (hA : a.hashKey? = some key)
    (hB : b.hashKey? = some other) : key = other ↔ a.same b = true := by
  obtain ⟨first, hFirst, rfl⟩ := Option.map_eq_some_iff.mp hA
  obtain ⟨second, hSecond, rfl⟩ := Option.map_eq_some_iff.mp hB
  rw [← toValue_of_toKey? hFirst, ← toValue_of_toKey? hSecond]
  exact same_toValue_iff.symm

/-- Equality of contents is an equivalence relation. Two hashes are equal if and only if they hold
equal keys with equal values, so the order in which these were stored makes no difference; and two
values that can be keys stand for the same key if and only if they are equal. -/
theorem equality_is_an_equivalence :
    (∀ a : Value, a.KeysOnce → a.same a = true) ∧
    (∀ a b : Value, a.KeysOnce → b.KeysOnce → a.same b = b.same a) ∧
    (∀ a b c : Value, a.same b = true → b.same c = true → a.same c = true) ∧
    (∀ (id other : Label) (xs ys : Entries), xs.hashKeys.Nodup → ys.hashKeys.Nodup →
      ((hash id xs).same (hash other ys) = true ↔ SamePairs xs ys)) ∧
    (∀ (id other : Label) (pairs others : List (Key × Value)), (Entries.hashKeys pairs).Nodup →
      SamePairs pairs others →
        (hash id (Entries.ofPairs pairs)).same (hash other (Entries.ofPairs others)) = true) ∧
    ∀ (a b : Value) (key other : HashKey), a.hashKey? = some key → b.hashKey? = some other →
      (key = other ↔ a.same b = true) := by
  refine ⟨fun a => same_refl, fun a b hA hB => ?_, fun a b c => same_trans,
    fun id other xs ys => same_hash_iff, fun id other pairs others hOnce hPairs => ?_,
    fun a b key other => hashKey_eq_iff_same⟩
  · exact Bool.eq_iff_iff.mpr ⟨same_symm hA hB, same_symm hB hA⟩
  · have hOthers := hPairs.nodup hOnce
    rw [Entries.ofPairs_of_nodup hOnce, Entries.ofPairs_of_nodup hOthers]
    exact (same_hash_iff hOnce hOthers).mpr hPairs

/-- A number and a text as keys, the values of which are a text and an array. -/
def numberFirst : Entries :=
  [(.integer 1, .string (.object 2) "x"), (.string (.object 3) "k", .array (.object 4) [.null])]

/-- The same contents, made once more and stored the other way round. -/
def textFirst : Entries :=
  [(.string (.object 7) "k", .array (.object 8) [.null]), (.integer 1, .string (.object 9) "x")]

/-- A hash in an array that a function has been left with. -/
def handedOut (outer inner : Nat) (entries : Entries) : Value :=
  .returning (.array (.object outer) [.hash (.object inner) entries])

theorem keysOnce_handedOut {entries : Entries} (hOnce : entries.hashKeys.Nodup)
    (hValues : ∀ value ∈ entries.map Prod.snd, value.KeysOnce) (outer inner : Nat) :
    (handedOut outer inner entries).KeysOnce :=
  .intro trivial (List.forall_mem_singleton.mpr (.intro trivial
    (List.forall_mem_singleton.mpr (.intro hOnce hValues))))

theorem samePairs_numberFirst : SamePairs numberFirst textFirst :=
  ⟨textFirst.reverse, List.reverse_perm textFirst,
    .cons ⟨by decide, by decide⟩ (.cons ⟨by decide, by decide⟩ .nil)⟩

theorem reordered_hashes_are_equal :
    (handedOut 5 6 textFirst).same (handedOut 5 6 textFirst) = true ∧
    (handedOut 0 1 numberFirst).same (handedOut 5 6 textFirst) =
      (handedOut 5 6 textFirst).same (handedOut 0 1 numberFirst) ∧
    (handedOut 0 1 numberFirst).same (handedOut 10 11 numberFirst) = true ∧
    (hash (.object 1) numberFirst).same (hash (.object 6) textFirst) = true ∧
    (hash (.object 1) (Entries.ofPairs numberFirst)).same
      (hash (.object 6) (Entries.ofPairs textFirst)) = true ∧
    (string (.object 3) "k").same (string (.object 7) "k") = true := by
  have hText : (string (.object 2) "x").KeysOnce := .intro trivial nofun
  have hArray (id : Label) : (array id [null]).KeysOnce :=
    .intro trivial (List.forall_mem_singleton.mpr (.intro trivial nofun))
  have hNumberOnce : numberFirst.hashKeys.Nodup := by decide
  have hTextOnce : textFirst.hashKeys.Nodup := by decide
  have hNumberFirst := keysOnce_handedOut hNumberOnce (List.forall_mem_cons.mpr
    ⟨hText, List.forall_mem_singleton.mpr (hArray _)⟩) 0 1
  have hTextFirst := keysOnce_handedOut hTextOnce (List.forall_mem_cons.mpr
    ⟨hArray _, List.forall_mem_singleton.mpr (.intro trivial nofun)⟩) 5 6
  obtain ⟨hRefl, hSymm, hTrans, hHashes, hStored, hKeys⟩ := equality_is_an_equivalence
  refine ⟨hRefl _ hTextFirst, hSymm _ _ hNumberFirst hTextFirst, ?_, ?_, ?_, ?_⟩
  · exact hTrans _ (handedOut 5 6 textFirst) _ (by decide) (by decide)
  · exact (hHashes _ _ _ _ hNumberOnce hTextOnce).mpr samePairs_numberFirst
  · exact hStored _ _ _ _ hNumberOnce samePairs_numberFirst
  · exact (hKeys _ _ (.string "k") (.string "k") rfl rfl).mp rfl

end Value

end Tandem
