import Tandem.Proofs.Evaluation.Host
/-!
Two ways in which evaluation does not depend on what it is given. More steps than needed change
nothing, and neither do lines that have been printed before: these stay in front of what the
evaluation prints, which is its own output.
-/
namespace Tandem

namespace Evaluation

/-- Where the one evaluation comes to a result, the other comes to the same, and all values are such
results. -/
def Extends {α : Type} (results : α → Prop) (x y : Evaluation α) : Prop :=
  ∀ store answer, x store = some answer → y store = some answer ∧
    ∀ value, answer.1 = .ok value → results value

section

variable {α β : Type} {results : α → Prop}

theorem extends_refl {x : Evaluation α}
    (hResults : ∀ store value after, x store = some (.ok value, after) → results value) :
    Extends results x x := by
  rintro store ⟨outcome, after⟩ h
  refine ⟨h, ?_⟩
  rintro value rfl
  exact hResults store value after h

theorem Extends.bind {final : β → Prop} {x y : Evaluation α} {next other : α → Evaluation β}
    (h : Extends results x y)
    (hNext : ∀ value, results value → Extends final (next value) (other value)) :
    Extends final (x >>= next) (y >>= other) := by
  intro store answer hAnswer
  rw [bind_apply] at hAnswer ⊢
  cases hFirst : x store with
  | none => simp [hFirst] at hAnswer
  | some first =>
      obtain ⟨hSame, hResults⟩ := h store first hFirst
      rw [hSame]
      rw [hFirst] at hAnswer
      obtain ⟨outcome, middle⟩ := first
      cases outcome with
      | ok value => exact hNext value (hResults value rfl) middle answer hAnswer
      | error failure =>
          cases hAnswer
          exact ⟨rfl, nofun⟩

end

/-- All that evaluation does by itself takes no steps. -/
def extending (settings : Settings) : Pairing settings settings where
  closures := false
  strict := false
  region _ _ := True
  holds _ _ := True
  Compared _ known results x y := Extends (results known) x y
  data _ := dataLaw_true
  region_mono _ _ := trivial
  holds_mono _ _ := trivial
  pure h := extends_refl (by
    rintro _ _ _ ⟨⟩
    exact h _ (Nat.le_refl _))
  bind h hNext := h.bind fun value hValue => hNext _ value (Nat.le_refl _) hValue
  weaken h hWeaker := fun store answer hAnswer =>
    (h store answer hAnswer).imp id fun hResults value hValue =>
      hWeaker _ value (hResults value hValue)
  outOfSteps := nofun
  freshLabel := extends_refl fun _ _ _ _ => trivial
  fail _ := extends_refl (by
    rintro _ _ _ ⟨⟩)
  check := by
    intro own known results value h
    cases value with
    | error id message => exact extends_refl (by rintro _ _ _ ⟨⟩)
    | _ =>
        refine extends_refl ?_
        rintro _ _ _ ⟨⟩
        exact h rfl _ (Nat.le_refl _)
  trace _ := extends_refl fun _ _ _ _ => trivial
  identifier _ _ := extends_refl fun _ _ _ _ _ _ => trivial
  bindName _ _ _ _ := extends_refl fun _ _ _ _ => trivial
  enter _ _ _ _ hNext :=
    (extends_refl fun _ _ _ _ => trivial).bind fun scope _ =>
      hNext _ scope (Nat.le_refl _) trivial
  call _ _ _ := extends_refl fun _ _ _ _ _ _ _ => trivial

theorem agree_of_more_steps (settings : Settings) (steps more : Nat) :
    (extending settings).Agree (expression settings steps)
      (expression settings (steps + more)) := by
  induction steps with
  | zero => exact fun _ _ _ _ _ => nofun
  | succ steps ih =>
      rw [Nat.add_right_comm]
      exact fun _ _ _ hPlaced hScope => (extending settings).expressionWith ih hPlaced hScope

/-- A result stays the same however many steps there are left in the end. -/
theorem node_of_more_steps {settings : Settings} {steps : Nat} {n : Node} {scope : ScopeId}
    {store : Store} {answer : Except Failure Value × Store}
    (h : node settings steps n scope store = some answer) (more : Nat) :
    node settings (steps + more) n scope store = some answer := by
  have hNode : (extending settings).Compared scope 0 (extending settings).Keeps
    (node settings steps n scope) (node settings (steps + more) n scope) :=
    (extending settings).nodeWith rfl (agree_of_more_steps settings steps more) n trivial
  exact (hNode store answer h).1

end Evaluation

theorem Node.evaluate_of_more_steps {settings : Settings} {steps : Nat} {n : Node}
    {scope : ScopeId} {store : Store} {answer : Value × Store}
    (h : n.evaluate settings steps scope store = some answer) (more : Nat) :
    n.evaluate settings (steps + more) scope store = some answer := by
  unfold evaluate at h ⊢
  cases hNode : Evaluation.node settings steps n scope store with
  | none => simp [hNode] at h
  | some result =>
      rw [Evaluation.node_of_more_steps hNode more]
      rw [hNode] at h
      exact h

def Store.printedAfter (earlier : Array String) (store : Store) : Store :=
  { store with host := store.host.printedAfter earlier }

def Store.unprinted (store : Store) : Store := { store with host := store.host.unprinted }

theorem Store.printedAfter_unprinted (store : Store) :
    store.unprinted.printedAfter store.host.printed = store := by
  simp [printedAfter, unprinted, Host.printedAfter, Host.unprinted]

namespace Evaluation

/-- Lines printed before are among what programs cannot see. -/
theorem hostLaw_printedAfter (earlier : Array String) :
    HostLaw (fun first second : Store => second = first.printedAfter earlier) where
  scopes := by
    rintro first _ rfl
    rfl
  bind := by
    rintro first _ rfl scopes
    rfl
  host := by
    rintro first _ _ action rfl hQuiet
    have hRun : action.run (first.printedAfter earlier).host = _ :=
      hQuiet _ (Host.unseen_printedAfter earlier) first.host
    rw [hRun]
    exact ⟨rfl, rfl⟩

/-- Tracing has nothing to do with lines printed. -/
theorem sideBySide_trace_printedAfter (earlier : Array String) (settings : Settings)
    (node : Node) :
    SideBySide (fun first second => second = first.printedAfter earlier) (fun _ => True)
      (trace settings node) (trace settings node) := by
  rintro first _ rfl
  unfold trace
  split <;> exact Beside.value trivial rfl

end Evaluation

namespace Node

variable (settings : Settings) (steps : Nat) (n : Node) (scope : ScopeId)

theorem evaluate_printedAfter (earlier : Array String) (store : Store) :
    n.evaluate settings steps scope (store.printedAfter earlier) =
      (n.evaluate settings steps scope store).map fun (value, after) =>
        (value, after.printedAfter earlier) := by
  have hBeside := (Evaluation.hostLaw_printedAfter earlier).node
    (Evaluation.sideBySide_trace_printedAfter earlier settings) steps n scope store _ rfl
  unfold evaluate
  generalize Evaluation.node settings steps n scope store = left at hBeside ⊢
  generalize Evaluation.node settings steps n scope (store.printedAfter earlier) = right
    at hBeside ⊢
  cases hBeside with
  | unfinished => rfl
  | value _ hAfter =>
      subst hAfter
      rfl
  | failure hAfter =>
      subst hAfter
      rfl

/-- What has been printed before can be put in front afterwards. -/
theorem evaluate_eq_map_unprinted (store : Store) :
    n.evaluate settings steps scope store =
      (n.evaluate settings steps scope store.unprinted).map fun (value, after) =>
        (value, after.printedAfter store.host.printed) := by
  rw [← evaluate_printedAfter, Store.printedAfter_unprinted]

/-- The lines that the evaluation of the node prints, if it comes to a result. -/
def output? (store : Store) : Option (Array String) :=
  (n.evaluate settings steps scope store.unprinted).map fun (_, after) => after.host.printed

/-- Evaluation prints its output after the lines that are there before. -/
theorem map_printed_evaluate (store : Store) :
    ((n.evaluate settings steps scope store).map fun (_, after) => after.host.printed) =
      (n.output? settings steps scope store).map (store.host.printed ++ ·) := by
  rw [evaluate_eq_map_unprinted, output?, Option.map_map, Option.map_map]
  rfl

end Node

end Tandem
