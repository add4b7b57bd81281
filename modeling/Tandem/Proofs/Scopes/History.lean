import Tandem.Proofs.Evaluation.Reach
/-!
Scopes and their history. All that ever happens to scopes is that one is opened or that a name is
bound in one. A scope is opened inside an older one, so that following the scopes around it comes to
an end, and it stays where it is. What a name stands for can be read off the history: it is what the
name was bound to last, in the first scope on the way outward in which it was ever bound.
-/
namespace Tandem

namespace Value

/-- All functions inside the value were written in one of the first `opened` scopes. -/
def CapturesBelow (opened : Nat) (value : Value) : Prop :=
  value.Everywhere true (WrittenIn (· < opened))

theorem CapturesBelow.mono {opened more : Nat} {value : Value} (h : value.CapturesBelow opened)
    (hMore : opened ≤ more) : value.CapturesBelow more :=
  Everywhere.mono h fun _ hPart id parameters body scope hFunction =>
    Nat.lt_of_lt_of_le (hPart id parameters body scope hFunction) hMore

end Value

/-- What happens to scopes. -/
inductive ScopeChange where
  /-- A scope is opened, inside another one or by itself. -/
  | opened (outer : Option ScopeId)
  | bound (name : String) (value : Value) (id : ScopeId)

/-- What the change binds the name to in the scope, if that is what it does. -/
def ScopeChange.value? (name : String) (id : ScopeId) : ScopeChange → Option Value
  | .opened _ => none
  | .bound other value home => if other = name ∧ home = id then some value else none

theorem ScopeChange.value?_eq_some_iff {name : String} {id : ScopeId} {change : ScopeChange}
    {value : Value} : change.value? name id = some value ↔ change = .bound name value id := by
  cases change with
  | opened outer => simp [value?]
  | bound other bound home =>
      simp only [value?, Option.ite_none_right_eq_some, Option.some.injEq]
      constructor
      · rintro ⟨⟨rfl, rfl⟩, rfl⟩
        rfl
      · rintro ⟨⟩
        exact ⟨⟨rfl, rfl⟩, rfl⟩

namespace Scopes

/-- The scopes that a history leads to. The latest change comes first. -/
def ofHistory : List ScopeChange → Scopes
  | [] => {}
  | .opened outer :: earlier => ((ofHistory earlier).openScope outer).2
  | .bound name value id :: earlier => (ofHistory earlier).bind name value id

/-- A history that can come about: a scope is opened inside one that is open, names are bound in
scopes that are open, and no function can have been written in a scope that is not. -/
def Possible : List ScopeChange → Prop
  | [] => True
  | .opened outer :: earlier =>
    (∀ id, outer = some id → id < (ofHistory earlier).all.size) ∧ Possible earlier
  | .bound _ value id :: earlier =>
    (id < (ofHistory earlier).all.size ∧ value.CapturesBelow (ofHistory earlier).all.size) ∧
      Possible earlier

/-- The scopes from a scope outward, itself first, up to one that is not inside another. -/
inductive Chain (scopes : Scopes) : ScopeId → List ScopeId → Prop where
  | outermost {id : ScopeId} (hOpen : id < scopes.all.size) (hParent : scopes.parent? id = none) :
      Chain scopes id [id]
  | inside {id outer : ScopeId} {further : List ScopeId} (hParent : scopes.parent? id = some outer)
      (hFurther : Chain scopes outer further) : Chain scopes id (id :: further)

/-- The look-up of a name as a recursion with no limit to its depth. -/
inductive LooksUp (name : String) (scopes : Scopes) : ScopeId → Option Value → Prop where
  | here {id : ScopeId} {value : Value} (hBound : scopes.bound? name id = some value) :
      LooksUp name scopes id (some value)
  | around {id outer : ScopeId} {result : Option Value} (hBound : scopes.bound? name id = none)
      (hParent : scopes.parent? id = some outer) (hOuter : LooksUp name scopes outer result) :
      LooksUp name scopes id result
  | nowhere {id : ScopeId} (hBound : scopes.bound? name id = none)
      (hParent : scopes.parent? id = none) : LooksUp name scopes id none

def NeverBound (history : List ScopeChange) (name : String) (id : ScopeId) : Prop :=
  ∀ value, .bound name value id ∉ history

/-- When the name was bound in the scope for the last time, it was bound to the value. -/
def LastBound (history : List ScopeChange) (name : String) (id : ScopeId) (value : Value) : Prop :=
  ∃ later earlier, history = later ++ .bound name value id :: earlier ∧ NeverBound later name id

/-- The scope is on the chain, and the name was never bound in a scope that comes before it. -/
def Nearest (history : List ScopeChange) (name : String) (chain : List ScopeId) (home : ScopeId) :
    Prop :=
  ∃ nearer further, chain = nearer ++ home :: further ∧
    ∀ scope ∈ nearer, NeverBound history name scope

section

variable {scopes others : Scopes} {id outer : ScopeId} {chain : List ScopeId} {name : String}

theorem lt_size_of_parent? (h : scopes.parent? id = some outer) : id < scopes.all.size := by
  obtain ⟨scope, hScope, _⟩ := Option.bind_eq_some_iff.mp h
  exact (Array.getElem?_eq_some_iff.mp hScope).1

/-- There is just one way outward. -/
theorem Chain.eq {other : List ScopeId} (h : scopes.Chain id chain)
    (hOther : scopes.Chain id other) : other = chain := by
  induction h generalizing other with
  | outermost hOpen hParent =>
      cases hOther with
      | outermost _ _ => rfl
      | inside hInside _ => exact absurd (hParent.symm.trans hInside) nofun
  | inside hParent hFurther ih =>
      cases hOther with
      | outermost _ hNone => exact absurd (hNone.symm.trans hParent) nofun
      | inside hInside hRest =>
          cases hParent.symm.trans hInside
          rw [ih hRest]

/-- What happens to scopes moves none of those on the chain. -/
theorem Chain.of_parent?_eq (h : scopes.Chain id chain)
    (hSize : scopes.all.size ≤ others.all.size)
    (hParent : ∀ id < scopes.all.size, others.parent? id = scopes.parent? id) :
    others.Chain id chain := by
  induction h with
  | outermost hOpen hNone =>
      exact Chain.outermost (Nat.lt_of_lt_of_le hOpen hSize) ((hParent _ hOpen).trans hNone)
  | inside hInside hFurther ih =>
      exact Chain.inside ((hParent _ (lt_size_of_parent? hInside)).trans hInside) ih

theorem Chain.bind (h : scopes.Chain id chain) (name : String) (value : Value) (home : ScopeId) :
    (scopes.bind name value home).Chain id chain :=
  h.of_parent?_eq (Nat.le_of_eq (size_bind name value home scopes).symm) fun _ _ =>
    parent?_bind name value home _ scopes

theorem Chain.openScope (h : scopes.Chain id chain) (outer : Option ScopeId) :
    (scopes.openScope outer).2.Chain id chain := by
  refine h.of_parent?_eq ?_ fun id hId => ?_
  · rw [size_openScope]
    exact Nat.le_succ _
  · rw [parent?_openScope, if_neg (Nat.ne_of_lt hId)]

/-- Where scopes lie inside older ones, there are no more scopes on a chain than there are numbers
up to that of the first. -/
theorem Chain.length_le (h : scopes.Chain id chain)
    (hOlder : ∀ {id outer}, scopes.parent? id = some outer → outer < id) :
    chain.length ≤ id + 1 := by
  induction h with
  | outermost hOpen hParent => exact Nat.succ_le_succ (Nat.zero_le _)
  | inside hParent hFurther ih =>
      rw [List.length_cons]
      exact Nat.succ_le_succ (Nat.le_trans ih (hOlder hParent))

/-- A look-up that may go as deep as the chain is long goes along the whole chain. -/
theorem Chain.findWithin_eq (h : scopes.Chain id chain) (name : String) {depth : Nat}
    (hDepth : chain.length ≤ depth + 1) :
    findWithin name scopes depth id = chain.findSome? fun scope => scopes.bound? name scope := by
  induction h generalizing depth with
  | outermost hOpen hParent =>
      rw [List.findSome?_cons, List.findSome?_nil]
      cases depth with
      | zero =>
          rw [findWithin_zero]
          cases scopes.bound? name _ <;> rfl
      | succ depth =>
          rw [findWithin_succ, hParent]
          cases scopes.bound? name _ <;> rfl
  | @inside id outer further hParent hFurther ih =>
      have hLength : further.length ≤ depth := Nat.le_of_succ_le_succ hDepth
      obtain ⟨first, rest, hChain⟩ : ∃ first rest, further = first :: rest := by
        cases hFurther <;> exact ⟨_, _, rfl⟩
      cases depth with
      | zero => simp [hChain] at hLength
      | succ depth =>
          rw [findWithin_succ, hParent, Option.bind_some, ih hLength, List.findSome?_cons]
          cases scopes.bound? name id <;> rfl

/-- Where scopes lie inside older ones, the limit is never met. -/
theorem Chain.find?_eq (h : scopes.Chain id chain)
    (hOlder : ∀ {id outer}, scopes.parent? id = some outer → outer < id) (name : String) :
    scopes.find? name id = chain.findSome? fun scope => scopes.bound? name scope :=
  h.findWithin_eq name (h.length_le hOlder)

/-- Without a limit, the look-up comes to what is found on the chain. -/
theorem Chain.looksUp (h : scopes.Chain id chain) (name : String) :
    LooksUp name scopes id (chain.findSome? fun scope => scopes.bound? name scope) := by
  induction h with
  | outermost hOpen hParent =>
      rw [List.findSome?_cons, List.findSome?_nil]
      cases hBound : scopes.bound? name _ with
      | some value => exact LooksUp.here hBound
      | none => exact LooksUp.nowhere hBound hParent
  | inside hParent hFurther ih =>
      rw [List.findSome?_cons]
      cases hBound : scopes.bound? name _ with
      | some value => exact LooksUp.here hBound
      | none => exact LooksUp.around hBound hParent ih

/-- The look-up comes to one result. -/
theorem LooksUp.eq {result other : Option Value} (h : LooksUp name scopes id result)
    (hOther : LooksUp name scopes id other) : other = result := by
  induction h with
  | here hBound =>
      cases hOther with
      | here hSame => exact hSame.symm.trans hBound
      | around hNone _ _ => exact absurd (hNone.symm.trans hBound) nofun
      | nowhere hNone _ => exact absurd (hNone.symm.trans hBound) nofun
  | around hNone hParent hOuter ih =>
      cases hOther with
      | here hBound => exact absurd (hNone.symm.trans hBound) nofun
      | around _ hSame hRest =>
          cases hParent.symm.trans hSame
          exact ih hRest
      | nowhere _ hOutermost => exact absurd (hOutermost.symm.trans hParent) nofun
  | nowhere hNone hParent =>
      cases hOther with
      | here hBound => exact absurd (hNone.symm.trans hBound) nofun
      | around _ hInside _ => exact absurd (hParent.symm.trans hInside) nofun
      | nowhere _ _ => rfl

end

section

variable {history : List ScopeChange} {id outer : ScopeId} {chain : List ScopeId} {name : String}

theorem neverBound_iff :
    NeverBound history name id ↔ history.findSome? (ScopeChange.value? name id) = none := by
  rw [List.findSome?_eq_none_iff]
  constructor
  · intro hNever change hChange
    cases hValue : change.value? name id with
    | none => rfl
    | some value => exact absurd (ScopeChange.value?_eq_some_iff.mp hValue ▸ hChange) (hNever value)
  · intro hNone value hMem
    exact absurd ((hNone _ hMem).symm.trans (ScopeChange.value?_eq_some_iff.mpr rfl)) nofun

theorem lastBound_iff {value : Value} :
    LastBound history name id value ↔
      history.findSome? (ScopeChange.value? name id) = some value := by
  rw [List.findSome?_eq_some_iff]
  constructor
  · rintro ⟨later, earlier, hHistory, hNever⟩
    exact ⟨later, _, earlier, hHistory, ScopeChange.value?_eq_some_iff.mpr rfl,
      List.findSome?_eq_none_iff.mp (neverBound_iff.mp hNever)⟩
  · rintro ⟨later, change, earlier, hHistory, hValue, hNone⟩
    exact ⟨later, earlier, ScopeChange.value?_eq_some_iff.mp hValue ▸ hHistory,
      neverBound_iff.mpr (List.findSome?_eq_none_iff.mpr hNone)⟩

/-- Every scope lies inside an older one. -/
theorem Possible.outer_lt (h : Possible history)
    (hParent : (ofHistory history).parent? id = some outer) : outer < id := by
  induction history with
  | nil => cases hParent
  | cons change earlier ih =>
      cases change with
      | opened around =>
          rw [ofHistory, parent?_openScope] at hParent
          split at hParent
          · rename_i hNew
            exact hNew ▸ h.1 outer hParent
          · exact ih h.2 hParent
      | bound other value home =>
          rw [ofHistory, parent?_bind] at hParent
          exact ih h.2 hParent

/-- A scope binds a name to what it was bound to last. -/
theorem Possible.bound?_eq (h : Possible history) (name : String) (id : ScopeId) :
    (ofHistory history).bound? name id = history.findSome? (ScopeChange.value? name id) := by
  induction history with
  | nil => rfl
  | cons change earlier ih =>
      rw [List.findSome?_cons]
      cases change with
      | opened around => rw [ofHistory, bound?_openScope, ih h.2, ScopeChange.value?]
      | bound other value home =>
          rw [ofHistory, bound?_bind, ih h.2, ScopeChange.value?]
          by_cases hHere : other = name ∧ home = id
          · rw [if_pos ⟨hHere.2.symm, h.1.1, hHere.1.symm⟩, if_pos hHere]
          · rw [if_neg fun hAll => hHere ⟨hAll.2.2.symm, hAll.1.symm⟩, if_neg hHere]

/-- Functions that are bound somewhere were written in scopes that are open. -/
theorem Possible.capturesBelow (h : Possible history) {value : Value}
    (hBound : (ofHistory history).bound? name id = some value) :
    value.CapturesBelow (ofHistory history).all.size := by
  induction history with
  | nil => cases hBound
  | cons change earlier ih =>
      cases change with
      | opened around =>
          rw [ofHistory, bound?_openScope] at hBound
          refine (ih h.2 hBound).mono ?_
          rw [ofHistory, size_openScope]
          exact Nat.le_succ _
      | bound other bound home =>
          rw [ofHistory, bound?_bind] at hBound
          rw [ofHistory, size_bind]
          split at hBound
          · exact Option.some.inj hBound ▸ h.1.2
          · exact ih h.2 hBound

/-- Every open scope has a chain, since the way outward leads to ever older scopes. -/
theorem Possible.exists_chain (h : Possible history) (hOpen : id < (ofHistory history).all.size) :
    ∃ chain, (ofHistory history).Chain id chain := by
  induction id using Nat.strongRecOn with
  | ind id ih =>
      cases hParent : (ofHistory history).parent? id with
      | none => exact ⟨[id], Chain.outermost hOpen hParent⟩
      | some outer =>
          have hOlder : outer < id := h.outer_lt hParent
          obtain ⟨further, hFurther⟩ := ih outer hOlder (Nat.lt_trans hOlder hOpen)
          exact ⟨id :: further, Chain.inside hParent hFurther⟩

/-- Whatever happens later, a scope keeps its chain. -/
theorem Chain.later (h : (ofHistory history).Chain id chain) (later : List ScopeChange) :
    (ofHistory (later ++ history)).Chain id chain := by
  induction later with
  | nil => exact h
  | cons change rest ih =>
      cases change with
      | opened around => exact ih.openScope around
      | bound name value home => exact ih.bind name value home

/-- A look-up finds what the history says, scope by scope along the chain. -/
theorem Possible.find?_eq (h : Possible history) (hChain : (ofHistory history).Chain id chain)
    (name : String) :
    (ofHistory history).find? name id =
      chain.findSome? fun scope => history.findSome? (ScopeChange.value? name scope) := by
  rw [hChain.find?_eq h.outer_lt name]
  exact congrArg (chain.findSome? ·) (funext fun scope => h.bound?_eq name scope)

/-- A look-up after a name has been bound once more. -/
theorem Possible.find?_bind (h : Possible history) (hChain : (ofHistory history).Chain id chain)
    {home : ScopeId} (hHome : home < (ofHistory history).all.size) (name other : String)
    (value : Value) :
    ((ofHistory history).bind name value home).find? other id =
      chain.findSome? fun scope =>
        if scope = home ∧ other = name then some value
        else history.findSome? (ScopeChange.value? other scope) := by
  have hOlder {inner outer : ScopeId}
      (hParent : ((ofHistory history).bind name value home).parent? inner = some outer) :
      outer < inner := h.outer_lt (parent?_bind name value home inner _ ▸ hParent)
  rw [(hChain.bind name value home).find?_eq hOlder other]
  refine congrArg (chain.findSome? ·) (funext fun scope => ?_)
  rw [bound?_bind, h.bound?_eq]
  simp only [hHome, true_and]

/-- If the nearest scope counts, the look-up comes to what is found there. -/
theorem Nearest.findSome?_eq {home : ScopeId} {value : Value} {found : ScopeId → Option Value}
    (h : Nearest history name chain home) (hHome : found home = some value)
    (hOthers : ∀ scope, scope ≠ home → NeverBound history name scope → found scope = none) :
    chain.findSome? found = some value := by
  obtain ⟨nearer, further, rfl, hNever⟩ := h
  induction nearer with
  | nil => rw [List.nil_append, List.findSome?_cons, hHome]
  | cons scope rest ih =>
      have hRest := ih fun other hOther => hNever other (List.mem_cons_of_mem _ hOther)
      rw [List.cons_append, List.findSome?_cons]
      by_cases hSame : scope = home
      · rw [hSame, hHome]
      · rw [hOthers scope hSame (hNever scope List.mem_cons_self)]
        exact hRest

/-- A scope that does not count for a look-up may bind whatever it likes. -/
theorem findSome?_eq_of_not_nearest {home : ScopeId} {found : ScopeId → Option Value}
    (h : ¬ Nearest history name chain home)
    (hOthers : ∀ scope, scope ≠ home →
      found scope = history.findSome? (ScopeChange.value? name scope)) :
    chain.findSome? found =
      chain.findSome? fun scope => history.findSome? (ScopeChange.value? name scope) := by
  induction chain with
  | nil => rfl
  | cons scope rest ih =>
      have hScope : scope ≠ home := by
        rintro rfl
        exact h ⟨[], rest, rfl, fun other hOther => absurd hOther List.not_mem_nil⟩
      rw [List.findSome?_cons, List.findSome?_cons, hOthers scope hScope]
      cases hBound : history.findSome? (ScopeChange.value? name scope) with
      | some value => rfl
      | none =>
          refine ih ?_
          rintro ⟨nearer, further, rfl, hNever⟩
          refine h ⟨scope :: nearer, further, rfl, ?_⟩
          exact List.forall_mem_cons.mpr ⟨neverBound_iff.mpr hBound, hNever⟩

end

end Scopes

end Tandem
