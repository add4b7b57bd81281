import Tandem.Proofs.Evaluation.Failures
import Tandem.Proofs.Evaluation.Output
/-!
Statements one after the other. A list of statements can be cut in two anywhere: the first part ends
everything with an error or a return signal, or else the second part goes on from the store that the
first has left, whether it is evaluated in one go with it or by itself.
-/
namespace Tandem

namespace Value

/-- The value ends a list of statements before its end. -/
def Ends (value : Value) : Prop :=
  value.isError = true ∨ ∃ carried, value = .returning carried

theorem unwrapReturn_of_not_returning {value : Value}
    (h : ∀ carried, value ≠ .returning carried) : value.unwrapReturn = value := by
  cases value with
  | returning carried => exact absurd rfl (h carried)
  | _ => rfl

end Value

namespace Evaluation

section

variable {settings : Settings} {evaluate : Evaluator} {scope : ScopeId}

/-- How statements go on after others. -/
def continueWith (settings : Settings) (evaluate : Evaluator) (scope : ScopeId)
    (second : List Stmt) : Value → Evaluation Value
  | .returning value => return .returning value
  | value => statements settings evaluate scope second value

theorem continueWith_of_not_returning {value : Value} (h : ∀ carried, value ≠ .returning carried)
    (second : List Stmt) :
    continueWith settings evaluate scope second value =
      statements settings evaluate scope second value := by
  cases value with
  | returning carried => exact absurd rfl (h carried)
  | _ => rfl

theorem statements_cons (s : Stmt) (rest : List Stmt) (last : Value) :
    statements settings evaluate scope (s :: rest) last =
      statement settings evaluate s scope >>= continueWith settings evaluate scope rest := by
  rw [statements]
  refine bind_congr fun value => ?_
  cases value <;> rfl

/-- The first part is evaluated as it would be alone, and then the second unless a signal ends it
all. -/
theorem statements_append (first second : List Stmt) {last : Value}
    (hLast : ∀ carried, last ≠ .returning carried) :
    statements settings evaluate scope (first ++ second) last =
      statements settings evaluate scope first last >>=
        continueWith settings evaluate scope second := by
  induction first generalizing last with
  | nil =>
      rw [List.nil_append, statements, pure_bind]
      exact (continueWith_of_not_returning hLast second).symm
  | cons s rest ih =>
      rw [List.cons_append, statements_cons, statements_cons, bind_assoc]
      refine bind_congr fun value => ?_
      by_cases hValue : ∃ carried, value = .returning carried
      · obtain ⟨carried, rfl⟩ := hValue
        rfl
      · have hOther := not_exists.mp hValue
        rw [continueWith_of_not_returning hOther, continueWith_of_not_returning hOther, ih hOther]

/-- What was computed before the first statement does not matter. -/
theorem statements_of_ne_nil {body : List Stmt} (h : body ≠ []) (last other : Value) :
    statements settings evaluate scope body last =
      statements settings evaluate scope body other := by
  cases body with
  | nil => exact absurd rfl h
  | cons s rest => rw [statements_cons, statements_cons]

def continueProgramWith (settings : Settings) (evaluate : Evaluator) (scope : ScopeId)
    (second : List Stmt) : Value → Evaluation Value
  | .returning value => return value
  | value => programStatements settings evaluate scope second value

theorem programStatements_cons (s : Stmt) (rest : List Stmt) (last : Value) :
    programStatements settings evaluate scope (s :: rest) last =
      statement settings evaluate s scope >>= continueProgramWith settings evaluate scope rest := by
  rw [programStatements]
  refine bind_congr fun value => ?_
  cases value <;> rfl

/-- The statements of a program come to what those of a block come to, with the signal that ends
them taken off. A value that is not handed on as a signal is none, so nothing else is taken off. -/
theorem programStatements_eq (body : List Stmt) {last : Value}
    (hLast : ∀ carried, last ≠ .returning carried) :
    programStatements settings evaluate scope body last =
      (do return (← statements settings evaluate scope body last).unwrapReturn) := by
  induction body generalizing last with
  | nil =>
      rw [programStatements, statements, pure_bind, Value.unwrapReturn_of_not_returning hLast]
  | cons s rest ih =>
      rw [programStatements_cons, statements_cons, bind_assoc]
      refine bind_congr fun value => ?_
      cases value with
      | returning carried => rfl
      | _ => exact ih (by simp)

end

section

variable (evaluate : Evaluator) (scope : ScopeId) (store : Store)

theorem block_untraced (body : List Stmt) :
    block { trace := false } evaluate body scope store =
      statements { trace := false } evaluate scope body .null store := by
  rw [block, bind_apply, trace_off]

/-- A program is a block that takes off the signal that ends it. -/
theorem program_untraced (body : List Stmt) :
    program { trace := false } evaluate body scope store =
      (do return (← block { trace := false } evaluate body scope).unwrapReturn :
        Evaluation Value) store := by
  have hNull : ∀ carried, Value.null ≠ .returning carried := by simp
  rw [program, bind_apply, trace_off]
  simp only
  rw [programStatements_eq body hNull, bind_apply, bind_apply, block_untraced]

/-- A block of two parts goes on after the first as that ends. -/
theorem node_block_append (steps : Nat) (first second : List Stmt) :
    node { trace := false } steps (.block (first ++ second)) scope store =
      (node { trace := false } steps (.block first) scope >>=
        continueWith { trace := false } (expression { trace := false } steps) scope second)
        store := by
  have hNull : ∀ carried, Value.null ≠ .returning carried := by simp
  simp only [node, nodeWith]
  rw [block_untraced, statements_append first second hNull, bind_apply, bind_apply, block_untraced]

theorem continueWith_of_ne_nil {value : Value} (h : ∀ carried, value ≠ .returning carried)
    {second : List Stmt} (hSecond : second ≠ []) :
    continueWith { trace := false } evaluate scope second value store =
      block { trace := false } evaluate second scope store := by
  rw [continueWith_of_not_returning h, statements_of_ne_nil hSecond value .null, block_untraced]

end

end Evaluation

namespace Node

theorem evaluate_program (steps : Nat) (scope : ScopeId) (store : Store) (body : List Stmt) :
    (program body).evaluate { trace := false } steps scope store =
      ((block body).evaluate { trace := false } steps scope store).map fun (value, after) =>
        (value.unwrapReturn, after) := by
  simp only [evaluate, Evaluation.node, Evaluation.nodeWith]
  rw [Evaluation.program_untraced, Evaluation.bind_apply]
  cases Evaluation.block { trace := false } (Evaluation.expression { trace := false } steps) body
      scope store with
  | none => rfl
  | some answer =>
      obtain ⟨outcome, after⟩ := answer
      cases outcome <;> rfl

/-- A program prints what the block prints. -/
theorem output?_program (steps : Nat) (scope : ScopeId) (store : Store) (body : List Stmt) :
    (program body).output? { trace := false } steps scope store =
      (block body).output? { trace := false } steps scope store := by
  rw [output?, output?, evaluate_program, Option.map_map]
  rfl

section

variable {steps : Nat} {scope : ScopeId} {store middle : Store} {first second : List Stmt}
  {value : Value}

theorem evaluate_append_of_none
    (h : (block first).evaluate { trace := false } steps scope store = none)
    (second : List Stmt) :
    (block (first ++ second)).evaluate { trace := false } steps scope store = none := by
  have hNode : Evaluation.node { trace := false } steps (block first) scope store = none := by
    unfold evaluate at h
    split at h
    · assumption
    · cases h
    · cases h
  rw [evaluate, Evaluation.node_block_append, Evaluation.bind_apply, hNode]

/-- No statement is left once one has ended the block. -/
theorem evaluate_append_of_ends {closures : Bool}
    (hStore : store.scopes.BindsOnly closures (· = scope) Value.NotError)
    (h : (block first).evaluate { trace := false } steps scope store = some (value, middle))
    (hEnds : value.Ends) (second : List Stmt) :
    (block (first ++ second)).evaluate { trace := false } steps scope store =
      some (value, middle) := by
  rw [evaluate, Evaluation.node_block_append, Evaluation.bind_apply]
  rcases exists_outcome_of_evaluate h with hNode | ⟨failure, hNode, rfl⟩
  · -- Where no error value is in reach, an error can only be a failure.
    have hNoError : value.isError = false := (errorFree_of_node hStore hNode).here
    rcases hEnds with hError | ⟨carried, rfl⟩
    · rw [hNoError] at hError
      cases hError
    · rw [hNode]
      rfl
  · rw [hNode]

/-- The second part goes on where the first has come to its end. -/
theorem evaluate_append_of_not_ends
    (h : (block first).evaluate { trace := false } steps scope store = some (value, middle))
    (hEnds : ¬ value.Ends) (hSecond : second ≠ []) :
    (block (first ++ second)).evaluate { trace := false } steps scope store =
      (block second).evaluate { trace := false } steps scope middle := by
  rw [evaluate, evaluate, Evaluation.node_block_append, Evaluation.bind_apply]
  rcases exists_outcome_of_evaluate h with hNode | ⟨failure, hNode, rfl⟩
  · have hValue : ∀ carried, value ≠ .returning carried := fun carried hCarried =>
      hEnds (Or.inr ⟨carried, hCarried⟩)
    rw [hNode]
    simp only [Evaluation.continueWith_of_ne_nil _ _ _ hValue hSecond, Evaluation.node,
      Evaluation.nodeWith]
  · exact absurd (Or.inl rfl) hEnds

/-- What the parts print comes one after the other. -/
theorem output?_append
    (h : (block first).evaluate { trace := false } steps scope store = some (value, middle))
    (hEnds : ¬ value.Ends) (hSecond : second ≠ []) :
    (block (first ++ second)).output? { trace := false } steps scope store = (do
      let lines ← (block first).output? { trace := false } steps scope store
      let others ← (block second).output? { trace := false } steps scope middle
      return lines ++ others) := by
  rw [evaluate_eq_map_unprinted] at h
  obtain ⟨⟨_, early⟩, hFirst, hMiddle⟩ := Option.map_eq_some_iff.mp h
  cases hMiddle
  have hLines : (block first).output? { trace := false } steps scope store =
      some early.host.printed := by
    rw [output?, hFirst]
    rfl
  have hOthers : (block second).output? { trace := false } steps scope
      (early.printedAfter store.host.printed) =
        (block second).output? { trace := false } steps scope early := rfl
  rw [hLines, hOthers, output?, evaluate_append_of_not_ends hFirst hEnds hSecond,
    map_printed_evaluate]
  cases (block second).output? { trace := false } steps scope early <;> rfl

theorem output?_append_of_ends {closures : Bool}
    (hStore : store.scopes.BindsOnly closures (· = scope) Value.NotError)
    (h : (block first).evaluate { trace := false } steps scope store = some (value, middle))
    (hEnds : value.Ends) (second : List Stmt) :
    (block (first ++ second)).output? { trace := false } steps scope store =
      (block first).output? { trace := false } steps scope store := by
  rw [evaluate_eq_map_unprinted] at h
  obtain ⟨⟨_, early⟩, hFirst, hMiddle⟩ := Option.map_eq_some_iff.mp h
  cases hMiddle
  have hUnprinted : store.unprinted.scopes.BindsOnly closures (· = scope) Value.NotError := hStore
  rw [output?, output?, evaluate_append_of_ends hUnprinted hFirst hEnds, hFirst]

end

end Node

section

variable {steps : Nat} {scope : ScopeId} {store middle : Store} {first second : List Stmt}
  {value : Value}

/-- A program that no statement ends is reported with the value of the last one. -/
theorem runProgramIn_of_not_ends
    (h : (Node.block first).evaluate { trace := false } steps scope store = some (value, middle))
    (hEnds : ¬ value.Ends) :
    runProgramIn { trace := false } steps first scope store = some (.ok value, middle) := by
  have hError : value.NotError := eq_false_of_ne_true (not_or.mp hEnds).1
  have hUnwrapped : value.unwrapReturn = value :=
    Value.unwrapReturn_of_not_returning (not_exists.mp (not_or.mp hEnds).2)
  rw [runProgramIn, Node.evaluate_program, h]
  simp only [Option.map_some, hUnwrapped, resultOfValue_of_notError hError]

theorem runProgramIn_append
    (h : (Node.block first).evaluate { trace := false } steps scope store = some (value, middle))
    (hEnds : ¬ value.Ends) (hSecond : second ≠ []) :
    runProgramIn { trace := false } steps (first ++ second) scope store =
      runProgramIn { trace := false } steps second scope middle := by
  rw [runProgramIn, runProgramIn, Node.evaluate_program, Node.evaluate_program,
    Node.evaluate_append_of_not_ends h hEnds hSecond]

end

/-- Lists of statements compose, from any store in which no error value can be got at. A program
comes to what the block of its statements comes to, with a return signal taken off. If the first
part of a block ends with an error or a signal, nothing is left of the second part: no value, no
binding, no line. If it comes to its end, the second part comes to what it comes to by itself in the
store that the first has left, and what the two print is put together; so it makes no difference
whether two programs are run one after the other or as one. If the first part comes to no result,
neither does the whole. None of this depends on the number of steps: results stay the same with more
of them. -/
theorem sessions_compose {closures : Bool} {scope : ScopeId} {store : Store}
    (hStore : store.scopes.BindsOnly closures (· = scope) Value.NotError) (steps : Nat)
    (first second : List Stmt) :
    (∀ body,
      (Node.program body).evaluate { trace := false } steps scope store =
        ((Node.block body).evaluate { trace := false } steps scope store).map
          (fun (value, after) => (value.unwrapReturn, after)) ∧
      (Node.program body).output? { trace := false } steps scope store =
        (Node.block body).output? { trace := false } steps scope store) ∧
    ((Node.block first).evaluate { trace := false } steps scope store = none →
      (Node.block (first ++ second)).evaluate { trace := false } steps scope store = none) ∧
    (∀ value middle,
      (Node.block first).evaluate { trace := false } steps scope store = some (value, middle) →
      (value.Ends →
        (Node.block (first ++ second)).evaluate { trace := false } steps scope store =
          some (value, middle) ∧
        (Node.block (first ++ second)).output? { trace := false } steps scope store =
          (Node.block first).output? { trace := false } steps scope store) ∧
      (¬ value.Ends → second ≠ [] →
        (Node.block (first ++ second)).evaluate { trace := false } steps scope store =
          (Node.block second).evaluate { trace := false } steps scope middle ∧
        (Node.block (first ++ second)).output? { trace := false } steps scope store = (do
          let lines ← (Node.block first).output? { trace := false } steps scope store
          let others ← (Node.block second).output? { trace := false } steps scope middle
          return lines ++ others)) ∧
      (¬ value.Ends →
        runProgramIn { trace := false } steps first scope store = some (.ok value, middle) ∧
        (second ≠ [] → runProgramIn { trace := false } steps (first ++ second) scope store =
          runProgramIn { trace := false } steps second scope middle))) ∧
    ∀ (n : Node) (answer : Value × Store) (more : Nat),
      n.evaluate { trace := false } steps scope store = some answer →
      n.evaluate { trace := false } (steps + more) scope store = some answer := by
  refine ⟨fun body => ⟨?_, ?_⟩, fun h => Node.evaluate_append_of_none h second,
    fun value middle h => ⟨fun hEnds => ⟨?_, ?_⟩, fun hEnds hSecond => ⟨?_, ?_⟩, fun hEnds => ?_⟩,
    fun n answer more h => Node.evaluate_of_more_steps h more⟩
  · exact Node.evaluate_program steps scope store body
  · exact Node.output?_program steps scope store body
  · exact Node.evaluate_append_of_ends hStore h hEnds second
  · exact Node.output?_append_of_ends hStore h hEnds second
  · exact Node.evaluate_append_of_not_ends h hEnds hSecond
  · exact Node.output?_append h hEnds hSecond
  · exact ⟨runProgramIn_of_not_ends h hEnds, runProgramIn_append h hEnds⟩

/-- Binds a length and prints it. -/
def measures : List Stmt :=
  [.binding "n" (.call (.identifier "f") [.string "ab"]),
    .expression (.call (.identifier "puts") [.identifier "n"])]

/-- Prints a line and returns the length, with a statement behind the return. -/
def reports : List Stmt :=
  [.expression (.call (.identifier "puts") [.string "done"]), .returning (.identifier "n"),
    .expression (.call (.identifier "puts") [.string "unreachable"])]

open Evaluation in
/-- Run as one, the two programs print both lines and come to the length. A third part behind them
is never reached. -/
theorem measures_reports_compose :
    ∃ middle, (Node.block measures).evaluate { trace := false } 4 0 hiddenError =
        some (.null, middle) ∧
      runProgramIn { trace := false } 4 (measures ++ reports) 0 hiddenError =
        runProgramIn { trace := false } 4 reports 0 middle ∧
      (Node.block (measures ++ reports)).output? { trace := false } 4 0 hiddenError =
        some #["2", "done"] ∧
      ∃ after, (Node.block (measures ++ reports)).evaluate { trace := false } 4 0 hiddenError =
          some (.returning (.integer 2), after) ∧
        (Node.block ((measures ++ reports) ++ measures)).evaluate { trace := false } 4 0
          hiddenError = some (.returning (.integer 2), after) := by
  have hMeasures : ∃ middle, (Node.block measures).evaluate { trace := false } 4 0 hiddenError =
      some (.null, middle) := ⟨_, rfl⟩
  have hBoth : ∃ after, (Node.block (measures ++ reports)).evaluate { trace := false } 4 0
      hiddenError = some (.returning (.integer 2), after) := ⟨_, rfl⟩
  have hNull : ¬ Value.null.Ends := by simp [Value.Ends, Value.isError]
  obtain ⟨middle, hMiddle⟩ := hMeasures
  obtain ⟨after, hAfter⟩ := hBoth
  obtain ⟨_, _, hParts, _⟩ := sessions_compose hiddenError_bindsOnly 4 measures reports
  obtain ⟨_, hOutput, hSession⟩ := hParts .null middle hMiddle
  obtain ⟨_, _, hWhole, _⟩ :=
    sessions_compose hiddenError_bindsOnly 4 (measures ++ reports) measures
  have hEnds : (Value.returning (.integer 2)).Ends := Or.inr ⟨_, rfl⟩
  refine ⟨middle, hMiddle, (hSession hNull).2 (by simp [reports]), ?_, after, hAfter,
    ((hWhole _ after hAfter).1 hEnds).1⟩
  rfl

end Tandem
