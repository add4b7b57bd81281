import Tandem.Proofs.Evaluation.Effects
/-!
Evaluation writes to no scope but its own. Functions keep the scopes in which they were written
and may be called from anywhere, so this is not evident from the place of a call: a body could
reach the scope that it captured, that of its caller or any scope around these. All that it
binds goes to the scope opened for the call.
-/
namespace Tandem

/-- Of the scopes that are there before, only `own` may have other bindings after, and not even
that one may lie inside another scope than before. Scopes may have been added. -/
structure Scopes.ChangedWithin (own : ScopeId) (before after : Scopes) : Prop where
  size_le : before.all.size ≤ after.all.size
  others : ∀ id < before.all.size, id ≠ own → after.all[id]? = before.all[id]?
  parent : own < before.all.size →
    (after.all[own]?).map Scope.parent = (before.all[own]?).map Scope.parent

namespace Scopes

theorem ChangedWithin.refl (own : ScopeId) (scopes : Scopes) : scopes.ChangedWithin own scopes :=
  ⟨Nat.le_refl _, fun _ _ _ => rfl, fun _ => rfl⟩

theorem ChangedWithin.trans {own : ScopeId} {first second third : Scopes}
    (hFirst : first.ChangedWithin own second) (hSecond : second.ChangedWithin own third) :
    first.ChangedWithin own third where
  size_le := Nat.le_trans hFirst.size_le hSecond.size_le
  others := by
    intro id hId hNe
    have hMiddle : id < second.all.size := Nat.lt_of_lt_of_le hId hFirst.size_le
    exact (hSecond.others id hMiddle hNe).trans (hFirst.others id hId hNe)
  parent := by
    intro hOwn
    have hMiddle : own < second.all.size := Nat.lt_of_lt_of_le hOwn hFirst.size_le
    exact (hSecond.parent hMiddle).trans (hFirst.parent hOwn)

@[simp]
theorem size_bind (name : String) (value : Value) (id : ScopeId) (scopes : Scopes) :
    (scopes.bind name value id).all.size = scopes.all.size := by
  simp [bind]

theorem getElem?_bind_of_ne {own id : ScopeId} (h : id ≠ own) (name : String) (value : Value)
    (scopes : Scopes) : (scopes.bind name value own).all[id]? = scopes.all[id]? := by
  simp [bind, Array.getElem?_modify, Ne.symm h]

/-- Binding a name leaves the scope where it is. -/
theorem parent_bind (name : String) (value : Value) (own : ScopeId) (scopes : Scopes) :
    ((scopes.bind name value own).all[own]?).map Scope.parent =
      (scopes.all[own]?).map Scope.parent := by
  cases h : scopes.all[own]? with
  | none => simp [bind, Array.getElem?_modify, h]
  | some scope => simp [bind, Array.getElem?_modify, h, Scope.bind]

theorem ChangedWithin.bind (own : ScopeId) (scopes : Scopes) (name : String) (value : Value) :
    scopes.ChangedWithin own (scopes.bind name value own) where
  size_le := by simp
  others := fun _ _ hNe => getElem?_bind_of_ne hNe name value scopes
  parent := fun _ => parent_bind name value own scopes

theorem ChangedWithin.bindAll (own : ScopeId) (scopes : Scopes)
    (bindings : List (String × Value)) :
    scopes.ChangedWithin own (scopes.bindAll bindings own) := by
  induction bindings generalizing scopes with
  | nil => exact ChangedWithin.refl own scopes
  | cons binding rest ih =>
      exact (ChangedWithin.bind own scopes binding.1 binding.2).trans (ih _)

/-- A new scope gets a number of its own, so what happens within it leaves all scopes that were
there before as they are. -/
theorem getElem?_of_changedWithin_opened {scopes after : Scopes} {outer : Option ScopeId}
    (h : (scopes.openScope outer).2.ChangedWithin (scopes.openScope outer).1 after)
    {id : ScopeId} (hId : id < scopes.all.size) : after.all[id]? = scopes.all[id]? := by
  have hOpened : (scopes.openScope outer).2.all = scopes.all.push { parent := outer } := rfl
  have hOwn : id ≠ (scopes.openScope outer).1 := Nat.ne_of_lt hId
  have hOther := h.others id (by
    rw [hOpened, Array.size_push]
    exact Nat.lt_succ_of_lt hId) hOwn
  rw [hOther, hOpened, Array.getElem?_push, if_neg (Nat.ne_of_lt hId)]

theorem ChangedWithin.of_opened {scopes after : Scopes} {outer : Option ScopeId}
    (h : (scopes.openScope outer).2.ChangedWithin (scopes.openScope outer).1 after)
    (own : ScopeId) : scopes.ChangedWithin own after where
  size_le := by
    have hSize : (scopes.openScope outer).2.all.size = scopes.all.size + 1 := by
      simp [openScope]
    have hGrown := h.size_le
    omega
  others := fun _ hId _ => getElem?_of_changedWithin_opened h hId
  parent := fun hOwn => by rw [getElem?_of_changedWithin_opened h hOwn]

end Scopes

namespace Evaluation

/-- Only the scopes of a store matter here, so labels, printing and tracing are admitted for
nothing. -/
theorem effectLaw_changedWithin :
    EffectLaw fun own before after => before.scopes.ChangedWithin own after.scopes where
  refl := fun own store => Scopes.ChangedWithin.refl own store.scopes
  trans := Scopes.ChangedWithin.trans
  host := fun own store _ => Scopes.ChangedWithin.refl own store.scopes
  bind := fun own store name value => Scopes.ChangedWithin.bind own store.scopes name value
  call := by
    intro own store outer bindings after h
    have hParameters := Scopes.ChangedWithin.bindAll (store.scopes.openScope (some outer)).1
      (store.scopes.openScope (some outer)).2 bindings
    exact (hParameters.trans h).of_opened own

/-- Whatever a node does, and however its evaluation ends, it changes the bindings of no scope
but the one in which it is evaluated, and moves no scope. A call changes no scope that was there
before it at all: neither the one that the function captured nor those of its callers. -/
theorem evaluation_changes_own_scope_only (settings : Settings) (steps : Nat) :
    (∀ n scope store outcome after,
      node settings steps n scope store = some (outcome, after) →
        store.scopes.ChangedWithin scope after.scopes) ∧
    ∀ callee arguments store outcome after,
      apply settings (expression settings steps) callee arguments store = some (outcome, after) →
        ∀ id < store.scopes.all.size, after.scopes.all[id]? = store.scopes.all[id]? := by
  constructor
  · intro n scope store outcome after h
    exact effectLaw_changedWithin.node settings steps n scope store outcome after h
  · intro callee arguments store outcome after h id hId
    -- The law holds in every scope, so also in one that is not there yet.
    have hCall := effectLaw_changedWithin.apply settings steps store.scopes.all.size callee arguments
    exact (hCall store outcome after h).others id hId (Nat.ne_of_lt hId)

/-- A function that binds `y` in its own scope and hands out one more function that does so. -/
def nestedBinder : Value :=
  .function (.object 0) ["x"]
    [.binding "y" (.identifier "x"),
     .expression (.function ["z"]
      [.binding "y" (.identifier "z"), .expression (.identifier "x")])] 0

/-- An outer scope that binds `f` and `y`, and an empty scope inside it. -/
def twoScopes : Store :=
  { scopes :=
      { all := #[{ bindings := [("f", nestedBinder), ("y", .integer 7)] }, { parent := some 0 }] }
    host := { labels := { objects := 1 } } }

/-- In the inner scope, `let y = f(1)(2)` binds `y` there, in the scopes of both calls and in no
other scope. Called by itself, `f` leaves both scopes as they are. -/
theorem nested_calls_change_own_scope_only :
    (∃ outcome after,
      node {} 4 (.statement (.binding "y"
        (.call (.call (.identifier "f") [.integer 1]) [.integer 2]))) 1 twoScopes =
          some (outcome, after) ∧ twoScopes.scopes.ChangedWithin 1 after.scopes) ∧
    ∃ outcome after,
      apply {} (expression {} 4) nestedBinder [.integer 1] twoScopes = some (outcome, after) ∧
        ∀ id < 2, after.scopes.all[id]? = twoScopes.scopes.all[id]? := by
  constructor
  · have hEnds : (node {} 4 (.statement (.binding "y"
        (.call (.call (.identifier "f") [.integer 1]) [.integer 2]))) 1 twoScopes).isSome := by
      decide +kernel
    obtain ⟨⟨outcome, after⟩, h⟩ := Option.isSome_iff_exists.mp hEnds
    exact ⟨outcome, after, h, (evaluation_changes_own_scope_only {} 4).1 _ _ _ _ _ h⟩
  · have hEnds : (apply {} (expression {} 4) nestedBinder [.integer 1] twoScopes).isSome := by
      decide +kernel
    obtain ⟨⟨outcome, after⟩, h⟩ := Option.isSome_iff_exists.mp hEnds
    exact ⟨outcome, after, h, (evaluation_changes_own_scope_only {} 4).2 _ _ _ _ _ h⟩

end Evaluation

end Tandem
