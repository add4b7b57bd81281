import Tandem.Proofs.Evaluation.SideBySide
import Tandem.Session
/-!
Errors and data. A failure is on its way to the host and an error value is data, and evaluation
keeps the two apart: built-in functions answer with error values, but these are turned into failures
before anything else can see them. So from a store in which no error value can be got at, no
evaluation comes to one, and none is bound anywhere.
-/
namespace Tandem

namespace Value

def NotError (value : Value) : Prop := value.isError = false

def ErrorFree (closures : Bool) (value : Value) : Prop := value.Everywhere closures NotError

end Value

theorem dataLaw_notError (region : ScopeId → Prop) :
    DataLaw false region (Value.Admitted Value.NotError region) := by
  refine dataLaw_within region ?_ ?_ fun _ _ => rfl
  · intro value hData
    cases value with
    | error id message => cases hData
    | _ => rfl
  · intro id parameters body scope
    exact ⟨fun _ h => absurd h Bool.false_ne_true, fun _ => rfl⟩

namespace Evaluation

variable {α : Type}

/-- How an evaluation ends that keeps errors out of data. Its results have `values` in them; a
failure stands for an error value and for nothing else. -/
structure EndsErrorFree (closures : Bool) (roots : ScopeId → Prop) (values : α → List Value)
    (before : Store) (outcome : Except Failure α) (after : Store) : Prop where
  value : ∀ result, outcome = .ok result → ∀ value ∈ values result, value.ErrorFree closures
  /-- Only what was bound before and could not be got at may have an error value in it. -/
  bound : ∀ id name value, after.scopes.bound? name id = some value →
    value.ErrorFree closures ∨
      id < before.scopes.all.size ∧ ¬ before.scopes.Reachable closures roots id ∧
        before.scopes.bound? name id = some value
  /-- Still no error value can be got at, from the result neither. -/
  reach : after.scopes.BindsOnly closures
    (fun id => roots id ∨
      ∃ result, outcome = .ok result ∧ ∃ value ∈ values result, value.Captures closures id)
    Value.NotError

/-- From every store in which no error value can be got at, the evaluation keeps errors out of
data. -/
def KeepsErrorsOut (closures : Bool) (roots : ScopeId → Prop) (values : α → List Value)
    (x : Evaluation α) : Prop :=
  ∀ store outcome after, store.scopes.BindsOnly closures roots Value.NotError →
    x store = some (outcome, after) → EndsErrorFree closures roots values store outcome after

section

variable {closures : Bool} {roots : ScopeId → Prop} {before after : Store}

/-- What an evaluation leaves bound is error free in the region that could be got at. All other
scopes are as they were before, since none of them is the one that it writes to. -/
theorem errorFree_or_unchanged {own : ScopeId}
    (hOwn : roots own ∨ before.scopes.all.size ≤ own)
    (hChanged : before.scopes.ChangedWithin own after.scopes)
    (hContained : after.scopes.Contained closures (Scopes.regionFrom closures roots before.scopes)
      (Value.Admitted Value.NotError (Scopes.regionFrom closures roots before.scopes)))
    {id : ScopeId} {name : String} {value : Value}
    (hBound : after.scopes.bound? name id = some value) :
    value.ErrorFree closures ∨ id < before.scopes.all.size ∧
      ¬ before.scopes.Reachable closures roots id ∧ before.scopes.bound? name id = some value := by
  by_cases hId : Scopes.regionFrom closures roots before.scopes id
  · exact Or.inl (hContained.bound hId hBound).of_admitted
  · have hOpen : id < before.scopes.all.size := Nat.lt_of_not_le fun h => hId (Or.inr h)
    have hReach : ¬ before.scopes.Reachable closures roots id := fun h => hId (Or.inl h)
    have hNe : id ≠ own := by
      intro hSame
      rw [hSame] at hOpen hReach
      rcases hOwn with hRoot | hNew
      · exact hReach (Scopes.Reachable.root hRoot)
      · exact Nat.not_le.mpr hOpen hNew
    refine Or.inr ⟨hOpen, hReach, ?_⟩
    rw [Scopes.bound?, ← hChanged.others id hOpen hNe]
    exact hBound

end

/-- Beside itself, the evaluation keeps to every region that contains the roots: no error value gets
into the region, and none is in the results. -/
def KeepsToRegions (closures : Bool) (roots : ScopeId → Prop) (values : α → List Value)
    (x : Evaluation α) : Prop :=
  ∀ region, (∀ id, roots id → region id) →
    SideBySide (Store.Alike closures region (Value.Admitted Value.NotError region))
      (fun result => ∀ value ∈ values result,
        value.Everywhere closures (Value.Admitted Value.NotError region)) x x

section

variable {closures : Bool} {roots : ScopeId → Prop} {values : α → List Value} {x : Evaluation α}

/-- An evaluation that keeps to regions keeps errors out of data, as long as it writes to no scope
but one that can be got at or is new. -/
theorem KeepsToRegions.keepsErrorsOut (h : KeepsToRegions closures roots values x)
    (hOwn : ∀ size, ∃ own, (roots own ∨ size ≤ own) ∧
      x.Respects fun before after => before.scopes.ChangedWithin own after.scopes) :
    KeepsErrorsOut closures roots values x := by
  intro store outcome after hStore hEnd
  have hRoots : ∀ id, roots id → Scopes.regionFrom closures roots store.scopes id :=
    fun _ => Scopes.regionFrom_of_root
  obtain ⟨own, hOwnPlace, hRespects⟩ := hOwn store.scopes.all.size
  have hChanged := hRespects store outcome after hEnd
  -- Compared with itself, the evaluation tells what it leaves in the region. What lies outside of
  -- it has not been written to.
  have hBeside := h _ hRoots store store (Store.alike_self hStore)
  rw [hEnd] at hBeside
  cases hBeside with
  | value hValues hAfter =>
      rename_i result
      refine ⟨?_, fun id name value =>
        errorFree_or_unchanged hOwnPlace hChanged hAfter.contained,
        hAfter.contained.bindsOnly ?_⟩
      · rintro _ ⟨⟩ value hMem
        exact (hValues value hMem).of_admitted
      · rintro root (hRoot | ⟨_, ⟨⟩, value, hMem, hCaptures⟩)
        · exact hRoots root hRoot
        · exact (hValues value hMem).region_of_captures hCaptures
  | failure hAfter =>
      refine ⟨nofun, fun id name value =>
        errorFree_or_unchanged hOwnPlace hChanged hAfter.contained,
        hAfter.contained.bindsOnly ?_⟩
      rintro root (hRoot | ⟨_, hResult, _⟩)
      · exact hRoots root hRoot
      · cases hResult

theorem KeepsToRegions.inScope (h : KeepsToRegions closures roots values x) {scope : ScopeId}
    (hScope : roots scope)
    (hOwn : x.Respects fun before after => before.scopes.ChangedWithin scope after.scopes) :
    KeepsErrorsOut closures roots values x :=
  h.keepsErrorsOut fun _ => ⟨scope, Or.inl hScope, hOwn⟩

/-- What writes to no scope that was there before can be evaluated from anywhere. -/
theorem KeepsToRegions.anywhere (h : KeepsToRegions closures roots values x)
    (hOwn : ∀ size, x.Respects fun before after => before.scopes.ChangedWithin size after.scopes) :
    KeepsErrorsOut closures roots values x :=
  h.keepsErrorsOut fun size => ⟨size, Or.inr (Nat.le_refl size), hOwn size⟩

end

/-- Everything that evaluation is made of keeps errors out of data: nodes, expressions and pairs in
a scope, calls, names and operators. -/
structure AllKeepErrorsOut (closures : Bool) (settings : Settings) (steps : Nat) : Prop where
  node : ∀ n scope, KeepsErrorsOut closures (· = scope) ([·]) (node settings steps n scope)
  expressions : ∀ list scope,
    KeepsErrorsOut closures (· = scope) id (expressions (expression settings steps) scope list)
  /-- The entries that are there before are without errors, and may have kept scopes of their
  own. -/
  pairs : ∀ list entries scope, (∀ entry ∈ entries, entry.2.ErrorFree closures) →
    KeepsErrorsOut closures
      (fun id => id = scope ∨ ∃ entry ∈ entries, entry.2.Captures closures id)
      (fun made : Entries => made.map Prod.snd)
      (pairs (expression settings steps) scope list entries)
  apply : ∀ callee arguments, (∀ value ∈ callee :: arguments, value.ErrorFree closures) →
    KeepsErrorsOut closures
      (fun id => ∃ value ∈ callee :: arguments, value.Captures closures id) ([·])
      (apply settings (expression settings steps) callee arguments)
  identifier : ∀ name scope, KeepsErrorsOut closures (· = scope) ([·]) (identifier name scope)
  /-- Operators hand on none of their operands, so that nothing has to be asked of these. -/
  unary : ∀ roots op operand, KeepsErrorsOut closures roots ([·]) (unary op operand)
  binary : ∀ roots left op right, KeepsErrorsOut closures roots ([·]) (binary left op right)
  index : ∀ object key, object.ErrorFree closures →
    KeepsErrorsOut closures (object.Captures closures) ([·]) (index object key)

/-- One value is a list of one. -/
theorem SideBySide.single {alike : Store → Store → Prop} {holds : Value → Prop}
    {x y : Evaluation Value} (h : SideBySide alike holds x y) :
    SideBySide alike (fun result => ∀ value ∈ [result], holds value) x y :=
  h.mono fun _ hResult _ hMem => List.mem_singleton.mp hMem ▸ hResult

theorem allKeepErrorsOut (closures : Bool) (settings : Settings) (steps : Nat) :
    AllKeepErrorsOut closures settings steps := by
  -- The one pairing tells what becomes of the scopes in reach, the other what is written to.
  have law := dataLaw_notError
  have effects := effectLaw_changedWithin
  let beside (region : ScopeId → Prop) := (law region).pairing closures settings
  let changes := effects.pairing settings
  constructor
  case node =>
    intro n scope
    refine KeepsToRegions.inScope (fun region hRegion => ?_) rfl
      (effects.node settings steps n scope)
    exact ((law region).node settings steps n (hRegion scope rfl)).single
  case expressions =>
    intro list scope
    refine KeepsToRegions.inScope (fun region hRegion => ?_) rfl
      (effects.respects (changes.expressions (effects.expression steps) nofun trivial))
    exact (law region).sideBySide scope
      ((beside region).expressions ((law region).expression steps) nofun (hRegion scope rfl))
  case pairs =>
    intro list entries scope hEntries
    refine KeepsToRegions.inScope (fun region hRegion => ?_) (Or.inl rfl)
      (effects.respects (changes.pairs (effects.expression steps) nofun trivial
        fun entry _ => effects.keeps entry.2))
    have hAdmitted : ∀ entry ∈ entries,
        entry.2.Everywhere closures (Value.Admitted Value.NotError region) := fun entry hEntry =>
      Value.Everywhere.admitted (hEntries entry hEntry) fun id hCaptures =>
        hRegion id (Or.inr ⟨entry, hEntry, hCaptures⟩)
    refine ((law region).sideBySide scope ((beside region).pairs ((law region).expression steps)
      nofun (hRegion scope (Or.inl rfl)) hAdmitted)).mono fun made hMade value hValue => ?_
    obtain ⟨entry, hEntry, rfl⟩ := List.mem_map.mp hValue
    exact hMade entry hEntry
  case apply =>
    intro callee arguments hValues
    refine KeepsToRegions.anywhere (fun region hRegion => ?_) fun size =>
      effects.apply settings steps size callee arguments
    have hAdmitted : ∀ value ∈ callee :: arguments,
        value.Everywhere closures (Value.Admitted Value.NotError region) := fun value hValue =>
      Value.Everywhere.admitted (hValues value hValue) fun id hCaptures =>
        hRegion id ⟨value, hValue, hCaptures⟩
    exact ((law region).apply settings steps hAdmitted).single
  case identifier =>
    intro name scope
    refine KeepsToRegions.inScope (fun region hRegion => ?_) rfl
      (effects.respects (changes.identifier name trivial))
    exact (sideBySide_identifier (law region) name (hRegion scope rfl)).single
  case unary =>
    intro roots op operand
    refine KeepsToRegions.anywhere (fun region _ => ?_) fun size =>
      effects.respects (changes.unary op operand)
    exact ((law region).sideBySide 0 ((beside region).unary op operand)).single
  case binary =>
    intro roots left op right
    refine KeepsToRegions.anywhere (fun region _ => ?_) fun size =>
      effects.respects (changes.binary left op right)
    exact ((law region).sideBySide 0 ((beside region).binary left op right)).single
  case index =>
    intro object key hObject
    refine KeepsToRegions.anywhere (fun region hRegion => ?_) fun size =>
      effects.respects (changes.index ((effects.keeps object).yielded false) key)
    have hAdmitted := (Value.Everywhere.admitted hObject hRegion).yielded false
    exact ((law region).sideBySide 0 ((beside region).index hAdmitted key)).single

end Evaluation

namespace Node

variable {closures : Bool} {settings : Settings} {steps : Nat} {n : Node} {scope : ScopeId}
  {store after : Store} {value : Value}

/-- A node comes to the value or the failure in which its evaluation ends. -/
theorem exists_outcome_of_evaluate
    (h : n.evaluate settings steps scope store = some (value, after)) :
    Evaluation.node settings steps n scope store = some (.ok value, after) ∨
      ∃ failure, Evaluation.node settings steps n scope store = some (.error failure, after) ∧
        value = failure.toValue := by
  unfold evaluate at h
  cases hNode : Evaluation.node settings steps n scope store with
  | none => simp [hNode] at h
  | some answer =>
      obtain ⟨outcome, last⟩ := answer
      rw [hNode] at h
      cases outcome with
      | ok result =>
          cases h
          exact Or.inl rfl
      | error failure =>
          cases h
          exact Or.inr ⟨failure, rfl, rfl⟩

/-- Where no error value is in reach, none is in what a node gives. -/
theorem errorFree_of_node
    (hStore : store.scopes.BindsOnly closures (· = scope) Value.NotError)
    (h : Evaluation.node settings steps n scope store = some (.ok value, after)) :
    value.ErrorFree closures := by
  have hEnds := (Evaluation.allKeepErrorsOut closures settings steps).node n scope store _ after
    hStore h
  exact hEnds.value value rfl value List.mem_cons_self

/-- Where no error value is in reach, a node comes to one just when its evaluation has failed. -/
theorem isError_iff_of_evaluate
    (hStore : store.scopes.BindsOnly closures (· = scope) Value.NotError)
    (h : n.evaluate settings steps scope store = some (value, after)) :
    value.isError = true ↔
      ∃ failure, Evaluation.node settings steps n scope store = some (.error failure, after) ∧
        value = failure.toValue := by
  constructor
  · intro hError
    rcases exists_outcome_of_evaluate h with hNode | hFailed
    · have hFree : value.NotError := (errorFree_of_node hStore hNode).here
      exact absurd (hFree.symm.trans hError) Bool.false_ne_true
    · exact hFailed
  · rintro ⟨failure, _, rfl⟩
    exact failure.isError_toValue

end Node

/-- What is reported of a program from how its evaluation ended. -/
def reportOf : Except Failure Value → Except RunError Value
  | .ok value => resultOfValue value
  | .error failure => .error (.evaluation failure.message)

theorem runProgramIn_eq_map (settings : Settings) (steps : Nat) (body : List Stmt)
    (scope : ScopeId) (store : Store) :
    runProgramIn settings steps body scope store =
      (Evaluation.node settings steps (.program body) scope store).map fun (outcome, after) =>
        (reportOf outcome, after) := by
  unfold runProgramIn Node.evaluate
  cases Evaluation.node settings steps (.program body) scope store with
  | none => rfl
  | some answer =>
      obtain ⟨outcome, after⟩ := answer
      cases outcome <;> rfl

/-- A value without errors is reported as it is. -/
theorem resultOfValue_of_notError {value : Value} (h : value.NotError) :
    resultOfValue value = .ok value := by
  cases value with
  | error id message => cases h
  | _ => rfl

/-- The stores that programs leave behind which are run in the same scope one after the other, each
with settings of its own. -/
inductive Session (scope : ScopeId) (start : Store) : Store → Prop where
  | start : Session scope start start
  | next {settings : Settings} {steps : Nat} {body : List Stmt} {before after : Store}
      {result : Except RunError Value} (prior : Session scope start before)
      (hRun : runProgramIn settings steps body scope before = some (result, after)) :
      Session scope start after

/-- How a program is reported that keeps errors out of data. -/
structure ReportedErrorFree (closures : Bool) (scope : ScopeId)
    (outcome : Option (Except Failure Value × Store)) (result : Except RunError Value)
    (after : Store) : Prop where
  /-- An error is reported if and only if evaluation fails. -/
  error : ∀ cause, result = .error cause ↔
    ∃ failure, outcome = some (.error failure, after) ∧ cause = .evaluation failure.message
  value : ∀ value, result = .ok value →
    outcome = some (.ok value, after) ∧ value.ErrorFree closures
  reach : after.scopes.BindsOnly closures
    (fun id => id = scope ∨ ∃ value, result = .ok value ∧ value.Captures closures id)
    Value.NotError

section

variable {closures : Bool} {settings : Settings} {steps : Nat} {body : List Stmt}
  {scope : ScopeId} {start before after : Store} {result : Except RunError Value}

theorem reportedErrorFree_of_run
    (hStore : before.scopes.BindsOnly closures (· = scope) Value.NotError)
    (hRun : runProgramIn settings steps body scope before = some (result, after)) :
    ReportedErrorFree closures scope
      (Evaluation.node settings steps (.program body) scope before) result after := by
  rw [runProgramIn_eq_map] at hRun
  obtain ⟨⟨outcome, _⟩, hEnd, hReport⟩ := Option.map_eq_some_iff.mp hRun
  cases hReport
  have hEnds := (Evaluation.allKeepErrorsOut closures settings steps).node (.program body) scope
    before outcome after hStore hEnd
  rw [hEnd]
  cases outcome with
  | ok value =>
      have hFree : value.ErrorFree closures := Node.errorFree_of_node hStore hEnd
      have hReported : reportOf (.ok value) = .ok value := resultOfValue_of_notError hFree.here
      rw [hReported]
      refine ⟨fun cause => ⟨fun h => (by cases h), fun ⟨_, h, _⟩ => (by cases h)⟩, ?_, ?_⟩
      · rintro _ ⟨⟩
        exact ⟨rfl, hFree⟩
      · simpa using hEnds.reach
  | error failure =>
      refine ⟨fun cause => ⟨?_, ?_⟩, fun value h => (by cases h), ?_⟩
      · rintro ⟨⟩
        exact ⟨failure, rfl, rfl⟩
      · rintro ⟨_, ⟨⟩, rfl⟩
        rfl
      · simpa [reportOf] using hEnds.reach

/-- No program of a session brings an error value into reach. -/
theorem Session.bindsOnly (hSession : Session scope start before)
    (hStart : start.scopes.BindsOnly closures (· = scope) Value.NotError) :
    before.scopes.BindsOnly closures (· = scope) Value.NotError := by
  induction hSession with
  | start => exact hStart
  | next prior hRun ih =>
      intro id hReachable
      exact (reportedErrorFree_of_run ih hRun).reach id (hReachable.mono fun _ => Or.inl)

end

namespace Evaluation

/-- From a store in which no error value can be got at, evaluation comes to no error value and
binds none, whatever it evaluates and however it ends. What a node comes to is an error value only
as the one that a failure stands for. So a program is reported as failed exactly if its evaluation
has failed, and this goes for all programs of a session. -/
theorem errors_never_become_data (closures : Bool) (settings : Settings) (steps : Nat) :
    AllKeepErrorsOut closures settings steps ∧
    (∀ n scope store value after, store.scopes.BindsOnly closures (· = scope) Value.NotError →
      n.evaluate settings steps scope store = some (value, after) →
      (value.isError = true ↔
        ∃ failure, node settings steps n scope store = some (.error failure, after) ∧
          value = failure.toValue)) ∧
    ∀ scope start before,
      start.scopes.BindsOnly closures (· = scope) Value.NotError → Session scope start before →
      ∀ body result after,
        runProgramIn settings steps body scope before = some (result, after) →
        ReportedErrorFree closures scope (node settings steps (.program body) scope before) result
          after := by
  refine ⟨allKeepErrorsOut closures settings steps, fun n scope store value after hStore h =>
    Node.isError_iff_of_evaluate hStore h, ?_⟩
  intro scope start before hStart hSession body result after hRun
  exact reportedErrorFree_of_run (hSession.bindsOnly hStart) hRun

/-- A function that asks for the length of its argument. -/
def lengthOf : Value :=
  .function (.object 0) ["x"] [.expression (.call (.identifier "len") [.identifier "x"])] 0

/-- The outermost scope binds `f`, and a scope inside it an error value. -/
def hiddenError : Store :=
  { scopes :=
      { all := #[{ bindings := [("f", lengthOf)] },
          { bindings := [("e", .error (.object 1) "hidden")], parent := some 0 }] }
    host := { labels := { objects := 2 } } }

theorem hiddenError_bindsOnly :
    hiddenError.scopes.BindsOnly true (· = 0) Value.NotError := by
  have hContained : hiddenError.scopes.Contained true (· ≠ 1)
      (Value.Admitted Value.NotError (· ≠ 1)) := by
    refine Scopes.contained_outer rfl ?_
    simp only [List.forall_mem_cons]
    exact ⟨Value.everywhere_of_contents_eq_nil
      ⟨rfl, Value.writtenIn_function.mpr Nat.zero_ne_one⟩ rfl, by simp⟩
  exact hContained.bindsOnly fun id hId => by rw [hId]; exact Nat.zero_ne_one

/-- There is no length to an integer, so that `let n = f(1)` fails and binds nothing. The program
after it, `[f("ab")]`, finds a store without errors again. -/
theorem missing_length_never_becomes_data :
    ∃ failure first result second,
      failure.message = "argument to \x60len\x60 not supported, got INTEGER" ∧
        node {} 4 (.program [.binding "n" (.call (.identifier "f") [.integer 1])]) 0 hiddenError =
          some (.error failure, first) ∧
        EndsErrorFree true (· = 0) ([·]) hiddenError (.error failure) first ∧
        runProgramIn {} 4 [.expression (.array [.call (.identifier "f") [.string "ab"]])] 0 first =
          some (result, second) ∧
        ReportedErrorFree true 0 (node {} 4 (.program
          [.expression (.array [.call (.identifier "f") [.string "ab"]])]) 0 first) result
          second := by
  have hFirst : ∃ failure first,
      failure.message = "argument to \x60len\x60 not supported, got INTEGER" ∧
        node {} 4 (.program [.binding "n" (.call (.identifier "f") [.integer 1])]) 0 hiddenError =
          some (.error failure, first) ∧
        (runProgramIn {} 4 [.expression (.array [.call (.identifier "f") [.string "ab"]])] 0
          first).isSome :=
    ⟨_, _, rfl, rfl, by decide +kernel⟩
  obtain ⟨failure, first, hMessage, hFailed, hEnds⟩ := hFirst
  obtain ⟨⟨result, second⟩, hSecond⟩ := Option.isSome_iff_exists.mp hEnds
  have hRun : runProgramIn {} 4 [.binding "n" (.call (.identifier "f") [.integer 1])] 0
      hiddenError = some (.error (.evaluation failure.message), first) := by
    rw [runProgramIn_eq_map, hFailed]
    rfl
  have hLaw := errors_never_become_data true {} 4
  exact ⟨failure, first, result, second, hMessage, hFailed,
    hLaw.1.node _ 0 hiddenError _ first hiddenError_bindsOnly hFailed, hSecond,
    hLaw.2.2 0 hiddenError first hiddenError_bindsOnly (Session.start.next hRun) _ result second
      hSecond⟩

end Evaluation

end Tandem
