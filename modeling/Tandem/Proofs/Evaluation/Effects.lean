import Tandem.Proofs.Evaluation.Pairing
/-!
What evaluation can do to its store. It gives out labels, prints and traces, binds names in the
scope that it is given, and opens scopes for calls. A relation between stores that admits each of
these, and can be chained, holds between the stores before and after every evaluation.
-/
namespace Tandem

/-- Every run of an evaluation that comes to a result relates the store that it leaves to the one
from which it started, whether the result is a value or a failure. -/
def Evaluation.Respects {α : Type} (relation : Store → Store → Prop) (x : Evaluation α) : Prop :=
  ∀ store outcome after, x store = some (outcome, after) → relation store after

/-- A family of relations between stores, one for each scope, that admits everything evaluation
in that scope can do by itself. A call is admitted in every scope if its body is admitted in the
scope opened for it. -/
structure EffectLaw (relation : ScopeId → Store → Store → Prop) : Prop where
  refl : ∀ scope store, relation scope store store
  trans : ∀ {scope first second third}, relation scope first second →
    relation scope second third → relation scope first third
  host : ∀ scope (store : Store) host, relation scope store { store with host := host }
  bind : ∀ scope (store : Store) name value,
    relation scope store { store with scopes := store.scopes.bind name value scope }
  call : ∀ scope (store : Store) outer bindings after,
    relation (store.scopes.openScope (some outer)).1
      { store with
        scopes := (store.scopes.openScope (some outer)).2.bindAll bindings
          (store.scopes.openScope (some outer)).1 } after →
    relation scope store after

namespace Evaluation

variable {α β : Type} {relation : Store → Store → Prop} {results : α → Prop} {x : Evaluation α}

/-- The evaluation respects the relation and comes to such results only. -/
def Leaves (relation : Store → Store → Prop) (results : α → Prop) (x : Evaluation α) : Prop :=
  ∀ store outcome after, x store = some (outcome, after) →
    relation store after ∧ ∀ value, outcome = .ok value → results value

theorem Leaves.respects (h : x.Leaves relation results) : x.Respects relation :=
  fun store outcome after hEnd => (h store outcome after hEnd).1

theorem leaves_pure (hRefl : ∀ store, relation store store) {value : α} (hValue : results value) :
    (pure value : Evaluation α).Leaves relation results := by
  rintro store _ _ ⟨⟩
  refine ⟨hRefl store, ?_⟩
  rintro _ ⟨⟩
  exact hValue

/-- Relations that can be chained need to be checked part by part only. -/
theorem Leaves.bind {final : β → Prop} {next : α → Evaluation β}
    (hFirst : x.Leaves relation results)
    (hTrans : ∀ first second third, relation first second → relation second third →
      relation first third)
    (hNext : ∀ value, results value → (next value).Leaves relation final) :
    (x >>= next).Leaves relation final := by
  intro store outcome after h
  rw [bind_apply] at h
  cases hx : x store with
  | none => simp [hx] at h
  | some answer =>
      obtain ⟨middleOutcome, middle⟩ := answer
      obtain ⟨hMiddle, hValue⟩ := hFirst store middleOutcome middle hx
      rw [hx] at h
      cases middleOutcome with
      | ok value =>
          have hRest := hNext value (hValue value rfl) middle outcome after h
          exact ⟨hTrans store middle after hMiddle hRest.1, hRest.2⟩
      | error failure =>
          cases h
          exact ⟨hMiddle, nofun⟩

/-- All that is done with the host is admitted. -/
theorem leaves_onHost (hHost : ∀ (store : Store) host, relation store { store with host := host })
    {action : StateM Host α} (hAction : ∀ host, results (action.run host).1) :
    (onHost action).Leaves relation results := by
  rintro store _ _ ⟨⟩
  refine ⟨hHost store _, ?_⟩
  rintro _ ⟨⟩
  exact hAction store.host

/-- A failure only takes a label. -/
theorem leaves_fail (hHost : ∀ (store : Store) host, relation store { store with host := host })
    (cause : EvaluationError) : (fail cause : Evaluation α).Leaves relation results := by
  intro store outcome after h
  rw [fail_apply] at h
  cases h
  exact ⟨hHost store _, nofun⟩

end Evaluation

namespace EffectLaw

open Evaluation

variable {relation : ScopeId → Store → Store → Prop} (law : EffectLaw relation)
  {settings : Settings}

include law

/-- Nothing has to be known of values, so everything is admitted as data. -/
def pairing (settings : Settings) : Pairing settings settings where
  closures := false
  strict := false
  region _ _ := True
  holds _ _ := True
  Compared own known results x _ := x.Leaves (relation own) (results known)
  data _ := dataLaw_true
  region_mono _ _ := trivial
  holds_mono _ _ := trivial
  pure h := leaves_pure (law.refl _) (h _ (Nat.le_refl _))
  bind h hNext := h.bind (fun _ _ _ hFirst hSecond => law.trans hFirst hSecond) fun value hValue =>
    hNext _ value (Nat.le_refl _) hValue
  weaken h hWeaker := fun store outcome after hEnd =>
    (h store outcome after hEnd).imp id fun hResults value hValue =>
      hWeaker _ value (hResults value hValue)
  outOfSteps := nofun
  freshLabel := leaves_onHost (law.host _) fun _ => trivial
  fail cause := leaves_fail (law.host _) cause
  check := by
    intro own known results value h
    cases value with
    | error id message =>
        rintro store _ _ ⟨⟩
        exact ⟨law.refl own store, nofun⟩
    | _ => exact leaves_pure (law.refl own) (h rfl _ (Nat.le_refl _))
  trace := by
    intro own known node
    unfold Evaluation.trace
    split
    · exact leaves_onHost (law.host own) fun _ => trivial
    · exact leaves_pure (law.refl own) trivial
  identifier := by
    intro own known name _ store outcome after h
    have hTrivial (value : Value) : value.Everywhere false fun _ => True := fun _ _ => trivial
    refine ⟨?_, fun value _ => hTrivial value⟩
    rw [identifier_apply] at h
    split at h
    · cases h
      exact law.refl own store
    · split at h
      · cases h
        exact law.refl own store
      · rw [fail_apply] at h
        cases h
        exact law.host own store _
  bindName := by
    rintro own known name value _ _ store _ _ ⟨⟩
    exact ⟨law.bind own store name value, fun _ _ => trivial⟩
  enter := by
    intro α own outer known results next other _ parameters arguments _ hNext store outcome after h
    have hBody := hNext known (store.scopes.openScope (some outer)).1 (Nat.le_refl _) trivial _
      outcome after h
    exact ⟨law.call own store outer (parameters.zip arguments) after hBody.1, hBody.2⟩
  call _ _ _ := leaves_onHost (law.host _) fun _ _ _ _ => trivial

/-- Whatever is admitted as data, the relation holds. -/
theorem respects {α : Type} {own : ScopeId} {results : Nat → α → Prop} {x : Evaluation α}
    (h : (law.pairing settings).Compared own 0 results x x) : x.Respects (relation own) :=
  Leaves.respects h

theorem keeps (value : Value) : (law.pairing settings).Keeps 0 value := fun _ _ => trivial

theorem expression (steps : Nat) : (law.pairing settings).Agree
    (Evaluation.expression settings steps) (Evaluation.expression settings steps) :=
  (law.pairing settings).expression steps

/-- The relation holds between the stores before and after the evaluation of every node. -/
theorem node (settings : Settings) (steps : Nat) (n : Node) (scope : ScopeId) :
    (Evaluation.node settings steps n scope).Respects (relation scope) :=
  law.respects ((law.pairing settings).nodeWith rfl (law.expression steps) n trivial)

/-- A call is admitted in every scope, not just in that of the caller: its body runs in a scope
of its own. -/
theorem apply (settings : Settings) (steps : Nat) (scope : ScopeId) (callee : Value)
    (arguments : List Value) :
    (Evaluation.apply settings (Evaluation.expression settings steps) callee arguments).Respects
      (relation scope) :=
  law.respects ((law.pairing settings).apply (law.expression steps) scope
    ((law.keeps callee).yielded false) fun value _ => law.keeps value)

end EffectLaw

end Tandem
