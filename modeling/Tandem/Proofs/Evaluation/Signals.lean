import Tandem.Proofs.Evaluation.SideBySide
import Tandem.Session
/-!
Signals and data. A return raises a signal, which is a value on its way to the call or the program
that takes it off. Nothing that keeps a value looks whether it is a signal, so a signal that is
raised where a value is kept becomes data. In a well-placed program that cannot happen.

No result shows what calls along the way are given. Evaluation can therefore be watched: it is
stuck as soon as a call is handed a signal or answers with one.
-/
namespace Tandem

namespace Value

def isReturning : Value → Bool
  | returning _ => true
  | _ => false

/-- No signal, and no function in which a signal could become data. -/
def Orderly (value : Value) : Prop :=
  value.isReturning = false ∧
    ∀ id parameters body scope, value = .function id parameters body scope → placedAll body = true

end Value

theorem dataLaw_orderly (region : ScopeId → Prop) :
    DataLaw true region (Value.Admitted Value.Orderly region) := by
  refine dataLaw_within region ?_ ?_ (fun hLenient => by cases hLenient)
  · intro value hData
    cases value with
    | function id parameters body scope => cases hData
    | returning carried => cases hData
    | _ => exact ⟨rfl, by rintro _ _ _ _ ⟨⟩⟩
  · intro id parameters body scope
    constructor
    · exact fun hOrderly _ => hOrderly.2 _ _ _ _ rfl
    · rintro hPlaced
      refine ⟨rfl, ?_⟩
      rintro _ _ _ _ ⟨⟩
      exact hPlaced rfl

namespace Evaluation

def require (condition : Bool) : Evaluation Unit := if condition then pure () else outOfSteps

/-- An expression as before, except that a call is stuck if an argument or its answer is a
signal. -/
def watchedWith (settings : Settings) (evaluate : Evaluator) : Evaluator
  | .call callee arguments, scope => do
    trace settings (.expression (.call callee arguments))
    let calleeValue ← evaluate callee scope
    let values ← expressions evaluate scope arguments
    require (values.all fun value => !value.isReturning)
    let answer ← apply settings evaluate calleeValue values
    require (!answer.isReturning)
    return answer
  | e, scope => expressionWith settings evaluate e scope

/-- An expression, in a number of steps, with all calls on the way watched. -/
def watched (settings : Settings) : (steps : Nat) → Evaluator
  | 0 => fun _ _ => outOfSteps
  | steps + 1 => watchedWith settings (watched settings steps)

section

variable {alike : Store → Store → Prop} {holds : Value → Prop} {x y : Evaluation Value}

theorem SideBySide.require_before {condition : Bool} (h : SideBySide alike holds x y)
    (hCondition : condition = true) :
    SideBySide alike holds x (require condition >>= fun _ => y) := by
  subst hCondition
  exact h

theorem SideBySide.require_after {condition : Value → Bool} (h : SideBySide alike holds x y)
    (hCondition : ∀ value, holds value → condition value = true) :
    SideBySide alike holds x
      (y >>= fun value => require (condition value) >>= fun _ => pure value) := by
  intro first second hAlike
  have hBeside := h first second hAlike
  rw [bind_apply]
  generalize x first = left, y second = right at hBeside
  cases hBeside with
  | unfinished => exact Beside.unfinished
  | value hValue hAfter =>
      exact ((sideBySide_pure hValue).require_before (hCondition _ hValue)) _ _ hAfter
  | failure hAfter => exact Beside.failure hAfter

end

variable {closures : Bool} {region : ScopeId → Prop}

/-- Under the law no call is ever handed a signal and none answers with one, so watching the calls
makes no difference. -/
theorem agree_watched (settings : Settings) (steps : Nat) :
    ((dataLaw_orderly region).pairing closures settings).Agree (expression settings steps)
      (watched settings steps) := by
  let c := (dataLaw_orderly region).pairing closures settings
  show c.Agree _ _
  induction steps with
  | zero => exact fun _ _ _ _ _ _ _ _ => Beside.unfinished
  | succ steps ih =>
      intro e scope known hPlaced hScope
      cases e with
      | call callee arguments =>
          have hBoth : callee.placed = true ∧ keptAll arguments = true := by
            simpa [Expr.placed] using hPlaced rfl
          refine c.bind (c.trace _) fun opened _ _ _ => ?_
          refine c.bind (ih callee scope opened (fun _ => hBoth.1) hScope)
            fun more calleeValue _ hCallee => ?_
          refine c.bind (c.expressions ih (fun _ => hBoth.2) hScope) fun most values _ hValues => ?_
          have hNoSignal (value : Value) (h : c.Keeps most value) :
              (!value.isReturning) = true := by
            rw [(Value.Everywhere.here h).1.1, Bool.not_false]
          have hArguments : (values.all fun value => !value.isReturning) = true :=
            List.all_eq_true.mpr fun value hMem => hNoSignal value (hValues value hMem)
          have hApply := c.apply ih scope hCallee hValues
          have hAnswer := (SideBySide.require_after hApply hNoSignal).require_before hArguments
          exact hAnswer.mono fun value hValue => hValue.yielded _
      -- Calls alone are watched.
      | _ => exact c.expressionWith ih hPlaced hScope

theorem evaluate_of_runProgramIn {settings : Settings} {steps : Nat} {body : List Stmt}
    {scope : ScopeId} {store after : Store} {value : Value}
    (h : runProgramIn settings steps body scope store = some (.ok value, after)) :
    (Node.program body).evaluate settings steps scope store = some (value, after) := by
  obtain ⟨⟨found, _⟩, hEvaluate, hResult⟩ := Option.map_eq_some_iff.mp h
  cases found with
  | error id message => cases hResult
  | _ =>
      cases hResult
      exact hEvaluate

/-- Where nothing that can raise a signal stands in a place in which values are kept, neither in
the program nor in a function that can be got at, no signal becomes data. The result holds none at
any depth, no scope that can be got at afterwards binds one, and no call along the way is handed one
or answers with one: the run comes to the same with all its calls watched. All functions around are
still well placed, so this goes for the next program as well. -/
theorem placed_signals_never_become_data (closures : Bool) (settings : Settings) (steps : Nat)
    {body : List Stmt} {scope : ScopeId} {store : Store} (hBody : placedAll body = true)
    (hStore : store.scopes.BindsOnly closures (· = scope) Value.Orderly) :
    (program settings (watched settings steps) body scope store).map Prod.fst =
        (program settings (expression settings steps) body scope store).map Prod.fst ∧
      ∀ value after,
        (Node.program body).evaluate settings steps scope store = some (value, after) ∨
          runProgramIn settings steps body scope store = some (.ok value, after) →
        value.Everywhere closures Value.Orderly ∧
          after.scopes.BindsOnly closures (fun id => id = scope ∨ value.Captures closures id)
            Value.Orderly := by
  have hScope : Scopes.regionFrom closures (· = scope) store.scopes scope :=
    Scopes.regionFrom_of_root rfl
  have hBeside := (dataLaw_orderly _).program (agree_watched settings steps) (fun _ => hBody) hScope
    store store (Store.alike_self hStore)
  refine ⟨hBeside.outcome_eq.symm, fun value after hRun => ?_⟩
  have hEvaluate : (Node.program body).evaluate settings steps scope store = some (value, after) :=
    hRun.elim id evaluate_of_runProgramIn
  rw [Node.evaluate, node, nodeWith] at hEvaluate
  generalize program settings (expression settings steps) body scope store = left,
    program settings (watched settings steps) body scope store = right at hBeside hEvaluate
  generalize Scopes.regionFrom closures (· = scope) store.scopes = region at hBeside hScope
  have hEnd : value.Everywhere closures (Value.Admitted Value.Orderly region) ∧
      after.scopes.Contained closures region (Value.Admitted Value.Orderly region) := by
    cases hBeside with
    | unfinished => cases hEvaluate
    | value hValue hAfter =>
        cases hEvaluate
        exact ⟨hValue, hAfter.contained⟩
    | failure hAfter =>
        cases hEvaluate
        refine ⟨Value.everywhere_admitted_of_contents_eq_nil ⟨rfl, ?_⟩ ?_ rfl, hAfter.contained⟩
        · rintro _ _ _ _ ⟨⟩
        · rintro _ _ _ _ ⟨⟩
  refine ⟨hEnd.1.of_admitted, hEnd.2.bindsOnly ?_⟩
  rintro root (rfl | hCaptures)
  · exact hScope
  · exact hEnd.1.region_of_captures hCaptures

/-- A function that returns early if its argument holds. -/
def earlyReturn : Value :=
  .function (.object 0) ["x"]
    [.expression (.conditional (.identifier "x") [.returning (.integer 1)] none),
      .expression (.integer 2)] 0

/-- The outermost scope binds `f`, and a scope inside it a signal. -/
def hiddenSignal : Store :=
  { scopes :=
      { all := #[{ bindings := [("f", earlyReturn)] },
          { bindings := [("s", .returning (.integer 3))], parent := some 0 }] }
    host := { labels := { objects := 1 } } }

theorem hiddenSignal_bindsOnly :
    hiddenSignal.scopes.BindsOnly true (· = 0) Value.Orderly := by
  have hContained : hiddenSignal.scopes.Contained true (· ≠ 1)
      (Value.Admitted Value.Orderly (· ≠ 1)) := by
    refine Scopes.contained_outer rfl ?_
    simp only [List.forall_mem_cons]
    refine ⟨Value.everywhere_of_contents_eq_nil
      ⟨⟨rfl, ?_⟩, Value.writtenIn_function.mpr Nat.zero_ne_one⟩ rfl, by simp⟩
    rintro _ _ _ _ ⟨⟩
    rfl
  exact hContained.bindsOnly fun id hId => by rw [hId]; exact Nat.zero_ne_one

/-- `let a = f(true)` and `return [a, f(false)]`: the early return ends the one call and nothing
else. -/
def earlyReturns : List Stmt :=
  [.binding "a" (.call (.identifier "f") [.boolean true]),
    .returning (.array [.identifier "a", .call (.identifier "f") [.boolean false]])]

theorem early_returns_never_become_data :
    placedAll earlyReturns = true ∧ hiddenSignal.scopes.BindsOnly true (· = 0) Value.Orderly ∧
      ∃ id after,
        runProgramIn {} 4 earlyReturns 0 hiddenSignal =
            some (.ok (.array id [.integer 1, .integer 2]), after) ∧
          (program {} (watched {} 4) earlyReturns 0 hiddenSignal).map Prod.fst =
            (program {} (expression {} 4) earlyReturns 0 hiddenSignal).map Prod.fst ∧
          after.scopes.BindsOnly true
            (fun scope => scope = 0 ∨
              (Value.array id [.integer 1, .integer 2]).Captures true scope) Value.Orderly := by
  have hPlaced : placedAll earlyReturns = true := rfl
  have hRun : ∃ id after, runProgramIn {} 4 earlyReturns 0 hiddenSignal =
      some (.ok (.array id [.integer 1, .integer 2]), after) := ⟨_, _, rfl⟩
  obtain ⟨id, after, hRun⟩ := hRun
  have hLaw := placed_signals_never_become_data true {} 4 hPlaced hiddenSignal_bindsOnly
  exact ⟨hPlaced, hiddenSignal_bindsOnly, id, after, hRun, hLaw.1, (hLaw.2 _ after (Or.inr hRun)).2⟩

/-- `if (true) { return 1 }` -/
def earlyOne : Expr := .conditional (.boolean true) [.returning (.integer 1)] none

/-- `fn(y) { 2 }` -/
def ignoring : Expr := .function ["y"] [.expression (.integer 2)]

def emptyScope : Store := { scopes := { all := #[{}] } }

/-- Where `if (true) { return 1 }` is not well placed its signal becomes data, though none could be
got at before: as the result of a program that returns it, as an element of an array, as what a name
is bound to and as the argument of a call, which is stuck when it is watched. -/
theorem misplaced_signals_become_data :
    emptyScope.scopes.BindsOnly true (· = 0) (fun value => value.isReturning = false) ∧
      (∃ after, runProgramIn {} 3 [.returning earlyOne] 0 emptyScope =
        some (.ok (.returning (.integer 1)), after)) ∧
      (∃ id after, runProgramIn {} 3 [.expression (.array [earlyOne])] 0 emptyScope =
        some (.ok (.array id [.returning (.integer 1)]), after)) ∧
      (∃ after, runProgramIn {} 3 [.binding "x" earlyOne] 0 emptyScope = some (.ok .null, after) ∧
        after.scopes.bound? "x" 0 = some (.returning (.integer 1))) ∧
      (∃ after, runProgramIn {} 3 [.expression (.call ignoring [earlyOne])] 0 emptyScope =
        some (.ok (.integer 2), after)) ∧
      program {} (watched {} 3) [.expression (.call ignoring [earlyOne])] 0 emptyScope = none := by
  refine ⟨?_, ⟨_, rfl⟩, ⟨_, _, rfl⟩, ⟨_, rfl, rfl⟩, ⟨_, rfl⟩, rfl⟩
  rintro (_ | id) _ name value hBound
  · cases hBound
  · cases hBound

end Evaluation

end Tandem
