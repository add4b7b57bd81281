import Tandem.Proofs.Evaluation.OwnScope
import Tandem.Proofs.Value.Contents
/-!
What can be got at from a scope: the scopes around it, and the scopes that functions have kept,
wherever such a function is found in what is bound in a scope that can be got at. A region of
scopes contains everything that can be got at from any of its scopes.
-/
namespace Tandem

namespace Value

/-- A function was written in a scope of the region. Nothing is asked of other values. -/
def WrittenIn (region : ScopeId → Prop) (value : Value) : Prop :=
  ∀ id parameters body scope, value = .function id parameters body scope → region scope

@[simp]
theorem writtenIn_function {region : ScopeId → Prop} {id : Label} {parameters : List String}
    {body : List Stmt} {scope : ScopeId} :
    (function id parameters body scope).WrittenIn region ↔ region scope := by
  constructor
  · exact fun h => h _ _ _ _ rfl
  · rintro h _ _ _ _ ⟨⟩
    exact h

/-- What is admitted in a region: the predicate holds, and functions were written there. -/
def Admitted (holds : Value → Prop) (region : ScopeId → Prop) (value : Value) : Prop :=
  holds value ∧ value.WrittenIn region

section

variable {closures : Bool} {region : ScopeId → Prop} {holds : Value → Prop} {value : Value}

theorem Everywhere.admitted (h : value.Everywhere closures holds)
    (hCaptures : ∀ id, value.Captures closures id → region id) :
    value.Everywhere closures (Admitted holds region) := by
  intro part hPart
  refine ⟨h part hPart, ?_⟩
  rintro id parameters body scope rfl
  exact hCaptures scope ⟨id, parameters, body, hPart⟩

/-- The scopes kept by functions that were written in a region belong to it. -/
theorem Everywhere.region_of_captures (h : value.Everywhere closures (Admitted holds region))
    {id : ScopeId} (hCaptures : value.Captures closures id) : region id := by
  obtain ⟨label, parameters, body, hFunction⟩ := hCaptures
  exact writtenIn_function.mp (h _ hFunction).2

theorem Everywhere.of_admitted (h : value.Everywhere closures (Admitted holds region)) :
    value.Everywhere closures holds :=
  h.mono fun _ => And.left

/-- Values that hold no others and are no functions are admitted in every region. -/
theorem everywhere_admitted_of_contents_eq_nil (hHere : holds value)
    (hFunction : ∀ id parameters body scope, value ≠ .function id parameters body scope)
    (hContents : value.contents closures = []) :
    value.Everywhere closures (Admitted holds region) :=
  everywhere_of_contents_eq_nil
    ⟨hHere, fun id parameters body scope h => absurd h (hFunction id parameters body scope)⟩ hContents

end

end Value

namespace Scope

theorem find?_bind (name other : String) (value : Value) (scope : Scope) :
    (scope.bind name value).find? other =
      if other = name then some value else scope.find? other := by
  by_cases h : other = name
  · rw [if_pos h, h, find?_bind_self]
  · rw [if_neg h, find?_bind_of_ne h]

end Scope

namespace Scopes

def parent? (id : ScopeId) (scopes : Scopes) : Option ScopeId := scopes.all[id]?.bind Scope.parent

def bound? (name : String) (id : ScopeId) (scopes : Scopes) : Option Value :=
  scopes.all[id]?.bind (Scope.find? name)

theorem exists_mem_of_bound? {name : String} {id : ScopeId} {scopes : Scopes} {value : Value}
    (h : scopes.bound? name id = some value) :
    ∃ scope, scopes.all[id]? = some scope ∧ (name, value) ∈ scope.bindings := by
  obtain ⟨scope, hScope, hFind⟩ := Option.bind_eq_some_iff.mp h
  obtain ⟨_, _, hBindings, _⟩ := List.lookup_eq_some_iff.mp hFind
  exact ⟨scope, hScope, hBindings ▸ List.mem_append_right _ List.mem_cons_self⟩

/-- A scope lies in the same place and binds the same names to the same values in both. The order
in which the names were bound does not matter. -/
structure AgreeAt (id : ScopeId) (first second : Scopes) : Prop where
  parent : first.parent? id = second.parent? id
  bound : ∀ name, first.bound? name id = second.bound? name id

/-- The scopes that can be got at from some of them, the roots. -/
inductive Reachable (closures : Bool) (roots : ScopeId → Prop) (scopes : Scopes) :
    ScopeId → Prop where
  | root {id : ScopeId} (hRoot : roots id) : Reachable closures roots scopes id
  | parent {id outer : ScopeId} (prior : Reachable closures roots scopes id)
      (hParent : scopes.parent? id = some outer) : Reachable closures roots scopes outer
  | captured {id outer : ScopeId} {name : String} {value : Value}
      (prior : Reachable closures roots scopes id) (hBound : scopes.bound? name id = some value)
      (hCaptures : value.Captures closures outer) : Reachable closures roots scopes outer

theorem Reachable.mono {closures : Bool} {roots more : ScopeId → Prop} {scopes : Scopes}
    {id : ScopeId} (h : Reachable closures roots scopes id) (hMore : ∀ id, roots id → more id) :
    Reachable closures more scopes id := by
  induction h with
  | root hRoot => exact root (hMore _ hRoot)
  | parent prior hParent ih => exact ih.parent hParent
  | captured prior hBound hCaptures ih => exact ih.captured hBound hCaptures

/-- The predicate holds of everything that is bound in scopes that can be got at, and of everything
inside it. -/
def BindsOnly (closures : Bool) (roots : ScopeId → Prop) (holds : Value → Prop) (scopes : Scopes) :
    Prop :=
  ∀ id, Reachable closures roots scopes id →
    ∀ name value, scopes.bound? name id = some value → value.Everywhere closures holds

/-- A region contains the scopes around its own, and the predicate holds of whatever is bound in
it. The scopes that are not open yet all count as part of it. -/
structure Contained (closures : Bool) (region : ScopeId → Prop) (holds : Value → Prop)
    (scopes : Scopes) : Prop where
  parent : ∀ {id outer}, region id → scopes.parent? id = some outer → region outer
  bound : ∀ {id name value}, region id → scopes.bound? name id = some value →
    value.Everywhere closures holds
  unopened : ∀ id, scopes.all.size ≤ id → region id

section

variable (name other : String) (value : Value) (own id : ScopeId) (scopes : Scopes)

@[simp]
theorem parent?_bind : (scopes.bind name value own).parent? id = scopes.parent? id := by
  simp only [parent?, bind, Array.getElem?_modify]
  by_cases h : own = id
  · rw [if_pos h]
    cases scopes.all[id]? with
    | none => rfl
    | some scope => rfl
  · rw [if_neg h]

/-- Binding a name in a scope that is not open does nothing. -/
theorem bound?_bind : (scopes.bind name value own).bound? other id =
    if id = own ∧ own < scopes.all.size ∧ other = name then some value
    else scopes.bound? other id := by
  simp only [bound?, bind, Array.getElem?_modify]
  by_cases hOwn : own = id
  · rw [if_pos hOwn, hOwn]
    by_cases hOpen : id < scopes.all.size
    · simp [hOpen, Scope.find?_bind]
    · simp [hOpen]
  · rw [if_neg hOwn, if_neg fun hAll => hOwn hAll.1.symm]

/-- A scope that has just been opened binds nothing, so that no look-up within one scope can tell
the difference. -/
theorem bound?_openScope (outer : Option ScopeId) :
    (scopes.openScope outer).2.bound? name id = scopes.bound? name id := by
  simp only [bound?, openScope, Array.getElem?_push]
  by_cases h : id = scopes.all.size
  · rw [if_pos h, h, Array.getElem?_eq_none (Nat.le_refl _)]
    rfl
  · rw [if_neg h]

theorem parent?_openScope (outer : Option ScopeId) :
    (scopes.openScope outer).2.parent? id =
      if id = scopes.all.size then outer else scopes.parent? id := by
  simp only [parent?, openScope, Array.getElem?_push]
  by_cases h : id = scopes.all.size
  · rw [if_pos h, if_pos h]
    rfl
  · rw [if_neg h, if_neg h]

@[simp]
theorem size_openScope (outer : Option ScopeId) :
    (scopes.openScope outer).2.all.size = scopes.all.size + 1 := by
  simp [openScope]

end

section

variable {first second : Scopes} {id own : ScopeId}

theorem AgreeAt.refl (id : ScopeId) (scopes : Scopes) : scopes.AgreeAt id scopes :=
  ⟨rfl, fun _ => rfl⟩

/-- Scopes that are not open are the same everywhere. -/
theorem AgreeAt.of_unopened (hFirst : first.all.size ≤ id) (hSecond : second.all.size ≤ id) :
    first.AgreeAt id second := by
  constructor
  · simp [parent?, hFirst, hSecond]
  · simp [bound?, hFirst, hSecond]

theorem AgreeAt.bind (hSize : first.all.size = second.all.size) (h : first.AgreeAt id second)
    (name : String) (value : Value) (own : ScopeId) :
    (first.bind name value own).AgreeAt id (second.bind name value own) where
  parent := by rw [parent?_bind, parent?_bind, h.parent]
  bound := fun other => by rw [bound?_bind, bound?_bind, h.bound, hSize]

theorem AgreeAt.openScope (hSize : first.all.size = second.all.size) (h : first.AgreeAt id second)
    (outer : Option ScopeId) : (first.openScope outer).2.AgreeAt id (second.openScope outer).2 where
  parent := by rw [parent?_openScope, parent?_openScope, hSize, h.parent]
  bound := fun name => by rw [bound?_openScope, bound?_openScope, h.bound]

theorem findWithin_zero (name : String) (scopes : Scopes) (id : ScopeId) :
    findWithin name scopes 0 id = scopes.bound? name id := by
  rw [findWithin.eq_def, bound?]
  cases hScope : scopes.all[id]? with
  | none => simp [hScope]
  | some scope => cases hFind : scope.find? name <;> simp [hScope, hFind]

theorem findWithin_succ (name : String) (scopes : Scopes) (depth : Nat) (id : ScopeId) :
    findWithin name scopes (depth + 1) id =
      (scopes.bound? name id).or ((scopes.parent? id).bind (findWithin name scopes depth)) := by
  rw [findWithin.eq_def, bound?, parent?]
  cases hScope : scopes.all[id]? with
  | none => simp [hScope]
  | some scope =>
      cases hFind : scope.find? name <;> cases hParent : scope.parent <;>
        simp [hScope, hFind, hParent]

/-- A look-up that starts in a region stays in it, so it comes to the same in all scopes that agree
on the region. -/
theorem findWithin_congr {region : ScopeId → Prop}
    (hAgree : ∀ id, region id → first.AgreeAt id second)
    (hParent : ∀ {id outer}, region id → first.parent? id = some outer → region outer)
    (name : String) (depth : Nat) (hId : region id) :
    findWithin name first depth id = findWithin name second depth id := by
  induction depth generalizing id with
  | zero => rw [findWithin_zero, findWithin_zero, (hAgree id hId).bound]
  | succ depth ih =>
      rw [findWithin_succ, findWithin_succ, (hAgree id hId).bound, ← (hAgree id hId).parent]
      cases hOuter : first.parent? id with
      | none => rfl
      | some outer => rw [Option.bind_some, Option.bind_some, ih (hParent hId hOuter)]

/-- What a look-up finds is bound in a scope of the region in which it starts. -/
theorem exists_bound?_of_findWithin {region : ScopeId → Prop} {scopes : Scopes}
    (hParent : ∀ {id outer}, region id → scopes.parent? id = some outer → region outer)
    {name : String} {depth : Nat} {value : Value} (hId : region id)
    (h : findWithin name scopes depth id = some value) :
    ∃ home, region home ∧ scopes.bound? name home = some value := by
  induction depth generalizing id with
  | zero =>
      rw [findWithin_zero] at h
      exact ⟨id, hId, h⟩
  | succ depth ih =>
      rw [findWithin_succ] at h
      rcases Option.or_eq_some_iff.mp h with hHere | ⟨_, hAround⟩
      · exact ⟨id, hId, hHere⟩
      · obtain ⟨outer, hOuter, hFound⟩ := Option.bind_eq_some_iff.mp hAround
        exact ih (hParent hId hOuter) hFound

end

section

variable {closures : Bool} {region : ScopeId → Prop} {holds : Value → Prop} {scopes : Scopes}

theorem Contained.bind (h : scopes.Contained closures region holds) (name : String) {value : Value}
    (hValue : value.Everywhere closures holds) (own : ScopeId) :
    (scopes.bind name value own).Contained closures region holds where
  parent := fun hId hOuter => h.parent hId (parent?_bind name value own _ scopes ▸ hOuter)
  bound := by
    intro id other bound hId hBound
    rw [bound?_bind] at hBound
    split at hBound
    · exact Option.some.inj hBound ▸ hValue
    · exact h.bound hId hBound
  unopened := fun id hId => h.unopened id (size_bind name value own scopes ▸ hId)

theorem Contained.openScope (h : scopes.Contained closures region holds) {outer : ScopeId}
    (hOuter : region outer) :
    (scopes.openScope (some outer)).2.Contained closures region holds where
  parent := by
    intro id found hId hFound
    rw [parent?_openScope] at hFound
    split at hFound
    · exact Option.some.inj hFound ▸ hOuter
    · exact h.parent hId hFound
  bound := fun hId hBound => h.bound hId (bound?_openScope _ _ scopes _ ▸ hBound)
  unopened := by
    intro id hId
    rw [size_openScope] at hId
    exact h.unopened id (Nat.le_of_succ_le hId)

/-- Of two scopes the outer one makes up a region if nothing bound in it leads to the inner one. -/
theorem contained_outer {outer inner : Scope} (hParent : outer.parent = none)
    (hBound : ∀ binding ∈ outer.bindings, binding.2.Everywhere closures holds) :
    ({ all := #[outer, inner] } : Scopes).Contained closures (· ≠ 1) holds where
  parent := by
    rintro (_ | _ | id) found hId hFound
    · exact absurd (hFound.symm.trans hParent) (Option.some_ne_none found)
    · exact absurd rfl hId
    · cases hFound
  bound := by
    rintro (_ | _ | id) name value hId hFound
    · obtain ⟨_, ⟨⟩, hMem⟩ := exists_mem_of_bound? hFound
      exact hBound _ hMem
    · exact absurd rfl hId
    · cases hFound
  unopened := fun id hId => Nat.ne_of_gt hId

/-- What can be got at from scopes of a region lies in the region. -/
theorem Contained.of_reachable
    (h : scopes.Contained closures region (Value.Admitted holds region))
    {roots : ScopeId → Prop} (hRoots : ∀ id, roots id → region id) {id : ScopeId}
    (hReachable : Reachable closures roots scopes id) : region id := by
  induction hReachable with
  | root hRoot => exact hRoots _ hRoot
  | parent prior hParent ih => exact h.parent ih hParent
  | captured prior hBound hCaptures ih =>
      exact (h.bound ih hBound).region_of_captures hCaptures

/-- Whatever can be got at from scopes of a region is admitted there. -/
theorem Contained.bindsOnly
    (h : scopes.Contained closures region (Value.Admitted holds region))
    {roots : ScopeId → Prop} (hRoots : ∀ id, roots id → region id) :
    scopes.BindsOnly closures roots holds := by
  intro id hReachable name value hBound
  exact (h.bound (h.of_reachable hRoots hReachable) hBound).of_admitted

/-- The scopes that can be got at from the roots, and those that are not open yet. -/
def regionFrom (closures : Bool) (roots : ScopeId → Prop) (scopes : Scopes) (id : ScopeId) : Prop :=
  Reachable closures roots scopes id ∨ scopes.all.size ≤ id

theorem regionFrom_of_root {roots : ScopeId → Prop} {id : ScopeId} (h : roots id) :
    regionFrom closures roots scopes id :=
  Or.inl (Reachable.root h)

/-- Every function inside a value that is bound in reach was written in reach. -/
theorem contained_regionFrom {roots : ScopeId → Prop} (h : scopes.BindsOnly closures roots holds) :
    scopes.Contained closures (regionFrom closures roots scopes)
      (Value.Admitted holds (regionFrom closures roots scopes)) where
  parent := by
    intro id outer hId hOuter
    rcases hId with hReachable | hUnopened
    · exact Or.inl (hReachable.parent hOuter)
    · simp [parent?, Array.getElem?_eq_none hUnopened] at hOuter
  bound := by
    intro id name value hId hBound
    rcases hId with hReachable | hUnopened
    · exact (h id hReachable name value hBound).admitted fun scope hCaptures =>
        Or.inl (hReachable.captured hBound hCaptures)
    · simp [bound?, Array.getElem?_eq_none hUnopened] at hBound
  unopened := fun _ hUnopened => Or.inr hUnopened

end

end Scopes

end Tandem
