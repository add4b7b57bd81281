import Tandem.Proofs.Evaluation.Host
/-!
What tracing does to evaluation. Before each node a trace message may be written; nothing else that
evaluation does looks at the messages. So a tree comes to the same value and leaves the same scopes
and the same lines whether or not it is traced.
-/
namespace Tandem

def Store.untraced (store : Store) : Store := { store with host := store.host.untraced }

namespace Evaluation

variable {α : Type}

/-- From stores that differ in their trace messages at most, the evaluations come out the same,
trace messages aside. -/
def SameUntraced (x y : Evaluation α) : Prop :=
  SideBySide (fun first second => first.untraced = second.untraced) (fun _ => True) x y

/-- Trace messages are among what programs cannot see. -/
theorem hostLaw_untraced :
    HostLaw (fun first second : Store => first.untraced = second.untraced) where
  scopes h := (congrArg Store.scopes h).symm
  bind h _ := congrArg (Store.mk _) (congrArg Store.host h)
  host h hQuiet := by
    obtain ⟨hResult, hAfter⟩ := hQuiet.untraced_eq (congrArg Store.host h)
    obtain ⟨hScopes, _⟩ := Store.mk.inj h
    refine ⟨hResult.symm, ?_⟩
    simp only [Store.untraced, hScopes, hAfter]

/-- A trace message is all that tracing a node makes of the store. -/
theorem sameUntraced_trace (settings others : Settings) (node : Node) :
    SameUntraced (trace settings node) (trace others node) := by
  have hTrace : ∀ (settings : Settings) (store : Store), ∃ after,
      trace settings node store = some (.ok (), after) ∧ after.untraced = store.untraced := by
    intro settings store
    unfold trace
    split <;> exact ⟨_, rfl, rfl⟩
  intro first second hAlike
  obtain ⟨firstAfter, hFirst, hFirstAfter⟩ := hTrace settings first
  obtain ⟨secondAfter, hSecond, hSecondAfter⟩ := hTrace others second
  rw [hFirst, hSecond]
  exact Beside.value trivial (hFirstAfter.trans (hAlike.trans hSecondAfter.symm))

theorem sameUntraced_node (settings others : Settings) (steps : Nat) (n : Node)
    (scope : ScopeId) :
    SameUntraced (node settings steps n scope) (node others steps n scope) :=
  hostLaw_untraced.node (sameUntraced_trace settings others) steps n scope

end Evaluation

/-- What the evaluation of a node answers, the trace messages erased. -/
def Node.evaluateUntraced (settings : Settings) (steps : Nat) (n : Node) (scope : ScopeId)
    (store : Store) : Option (Value × Store) :=
  (n.evaluate settings steps scope store).map fun (value, after) => (value, after.untraced)

/-- Evaluation comes out the same under all settings, trace messages aside. -/
theorem Node.evaluateUntraced_eq (settings others : Settings) (steps : Nat) (n : Node)
    (scope : ScopeId) (store : Store) :
    n.evaluateUntraced settings steps scope store =
      n.evaluateUntraced others steps scope store := by
  have hBeside := Evaluation.sameUntraced_node settings others steps n scope store store rfl
  unfold evaluateUntraced evaluate
  generalize Evaluation.node settings steps n scope store = left at hBeside ⊢
  generalize Evaluation.node others steps n scope store = right at hBeside ⊢
  cases hBeside with
  | unfinished => rfl
  | value _ hAlike => exact congrArg (fun after => some (_, after)) hAlike
  | failure hAlike => exact congrArg (fun after => some (_, after)) hAlike

end Tandem
