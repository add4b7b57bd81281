import Tandem.Proofs.Evaluation.SideBySide
import Tandem.Proofs.Quiet
/-!
Changes of the host that programs cannot see. Evaluation from stores that differ in nothing else
comes out the same, under the same settings or under settings that leave traces of the same kind.
-/
namespace Tandem.Evaluation

/-- A way for stores to be alike that concerns nothing but what programs cannot see of the host. -/
structure HostLaw (alike : Store → Store → Prop) : Prop where
  scopes {first second : Store} : alike first second → second.scopes = first.scopes
  bind {first second : Store} (h : alike first second) (scopes : Scopes) :
    alike { first with scopes := scopes } { second with scopes := scopes }
  host {first second : Store} {α : Type} {action : StateM Host α} (h : alike first second)
    (hQuiet : Host.Quiet action) :
    (action.run second.host).1 = (action.run first.host).1 ∧
      alike { first with host := (action.run first.host).2 }
        { second with host := (action.run second.host).2 }

namespace HostLaw

variable {alike : Store → Store → Prop} (law : HostLaw alike)

include law

/-- Quiet actions are done alike on both sides, whatever differs in what is not seen. -/
theorem onHost {α : Type} {action : StateM Host α} (hQuiet : Host.Quiet action) :
    SideBySide alike (fun _ => True) (onHost action) (onHost action) := by
  intro first second hAlike
  obtain ⟨hResult, hAfter⟩ := law.host hAlike hQuiet
  show Beside _ _ (some (.ok (action.run first.host).1, _))
    (some (.ok (action.run second.host).1, _))
  rw [hResult]
  exact Beside.value trivial hAfter

theorem freshLabel : SideBySide alike (fun _ => True) freshLabel freshLabel :=
  law.onHost Host.quiet_freshLabel

theorem fail {α : Type} {holds : α → Prop} (cause : EvaluationError) :
    SideBySide alike holds (fail cause : Evaluation α) (fail cause) :=
  law.freshLabel.bind fun _ _ _ _ hAlike => Beside.failure hAlike

theorem identifier {holds : Value → Prop} (name : String) (scope : ScopeId)
    (hAll : ∀ value, holds value) :
    SideBySide alike holds (identifier name scope) (identifier name scope) := by
  intro first second hAlike
  rw [identifier_apply, identifier_apply, law.scopes hAlike]
  cases first.scopes.find? name scope with
  | some value => exact Beside.value (hAll value) hAlike
  | none =>
      cases Builtin.ofName? name with
      | some b => exact Beside.value (hAll _) hAlike
      | none => exact law.fail _ _ _ hAlike

theorem openCall (outer : ScopeId) (parameters : List String) (arguments : List Value) :
    SideBySide alike (fun _ => True) (openCall outer parameters arguments)
      (openCall outer parameters arguments) := by
  intro first second hAlike
  show Beside _ _ (some (.ok (first.scopes.openScope (some outer)).1, _))
    (some (.ok (second.scopes.openScope (some outer)).1, { second with scopes := _ }))
  rw [law.scopes hAlike]
  exact Beside.value trivial (law.bind hAlike _)

theorem bindName (name : String) (value : Value) (scope : ScopeId) :
    SideBySide alike (fun _ => True)
      (modify fun store => { store with scopes := store.scopes.bind name value scope })
      (modify fun store => { store with scopes := store.scopes.bind name value scope }) := by
  intro first second hAlike
  have hAfter := law.bind hAlike (first.scopes.bind name value scope)
  show Beside _ _ (some (.ok (), _)) (some (.ok (), { second with scopes := _ }))
  rw [law.scopes hAlike]
  exact Beside.value trivial hAfter

/-- Evaluation comes out the same from such stores as soon as tracing does. -/
def pairing {settings others : Settings}
    (hTrace : ∀ node, SideBySide alike (fun _ => True) (trace settings node) (trace others node)) :
    Pairing settings others where
  closures := false
  strict := false
  region _ _ := True
  holds _ _ := True
  Compared _ known results x y := SideBySide alike (results known) x y
  data _ := dataLaw_true
  region_mono _ _ := trivial
  holds_mono _ _ := trivial
  pure h := sideBySide_pure (h _ (Nat.le_refl _))
  bind h hNext := h.bind fun value hValue => hNext _ value (Nat.le_refl _) hValue
  weaken h hWeaker := h.mono (hWeaker _)
  outOfSteps _ _ _ := Beside.unfinished
  freshLabel := law.freshLabel
  fail := law.fail
  check h := sideBySide_check fun hValue => h hValue _ (Nat.le_refl _)
  trace := hTrace
  identifier name _ := law.identifier name _ fun _ _ _ => trivial
  bindName name _ _ _ := law.bindName name _ _
  enter _ parameters _ _ hNext :=
    (law.openCall _ parameters _).bind fun scope _ => hNext _ scope (Nat.le_refl _) trivial
  call b arguments _ := (law.onHost (b.quiet_call arguments)).mono fun _ _ _ _ _ => trivial

/-- From stores that are alike, every node comes out the same. -/
theorem node {settings others : Settings}
    (hTrace : ∀ node, SideBySide alike (fun _ => True) (trace settings node) (trace others node))
    (steps : Nat) (n : Node) (scope : ScopeId) :
    SideBySide alike (fun _ => True) (node settings steps n scope) (node others steps n scope) := by
  let c := law.pairing hTrace
  have hNode : c.Compared scope 0 c.Keeps (Evaluation.node settings steps n scope)
    (Evaluation.node others steps n scope) := c.nodeWith rfl (c.expression steps) n trivial
  exact hNode.mono fun _ _ => trivial

end HostLaw

end Tandem.Evaluation
