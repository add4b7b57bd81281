import Tandem.Proofs.Machine.Bounds
import Tandem.Proofs.Machine.Relocation
import Tandem.Proofs.Machine.StaleSlots
/-!
Sessions on the machine. The globals that one run hands back can be given to the next, which starts
with an empty stack. Running the two streams as one comes to the same: where the second stream
begins, the machine has a stack full of stale values and its cursor stands further on, but neither
can be seen by a careful and straight stream.
-/
namespace Tandem

namespace Machine

section

variable {settings : Settings} {m other : Machine} {assigned : Assigned}

theorem InStep.eq (h : m.InStep assigned other) :
    other = { m with stack := other.stack } ∧ other.stack.size = m.stack.size := by
  cases h with
  | intro stack hSize _ => exact ⟨rfl, hSize⟩

theorem InStep.depth_eq (h : m.InStep assigned other) : other.depth = m.depth := by
  cases h
  rfl

/-- The machines differ in stale slots and unassigned locals at most: they are in step with the same
machine that clears such slots. -/
def Twins (m : Machine) (assigned : Assigned) (other : Machine) : Prop :=
  ∃ clearing, m.InStep assigned clearing ∧ other.InStep assigned clearing

theorem Twins.eq (h : m.Twins assigned other) :
    other = { m with stack := other.stack } ∧ other.stack.size = m.stack.size := by
  obtain ⟨clearing, hLeft, hRight⟩ := h
  obtain ⟨hClearing, hSize⟩ := hLeft.eq
  obtain ⟨hOther, hOtherSize⟩ := hRight.eq
  refine ⟨?_, hOtherSize.symm.trans hSize⟩
  calc other
      = { clearing with stack := other.stack } := by rw [hOther]
    _ = { m with stack := other.stack } := by rw [hClearing]

theorem recorded_congr {next others : Machine} (h : others.depth = next.depth) :
    m.recorded others assigned = m.recorded next assigned := by
  unfold recorded
  rw [h]

/-- Nothing in an empty stack can be told apart. -/
theorem twins_of_empty {stack : Slots} (hSp : m.sp = 0) (hSize : stack.size = m.stack.size) :
    m.Twins assigned { m with stack := stack } :=
  ⟨m, .intro m.stack rfl fun _ _ _ => rfl,
    .intro m.stack hSize.symm fun slot hSlot => absurd hSlot (by simp [hSp])⟩

/-- A careful step comes out the same on twins. -/
theorem Twins.step (h : m.Twins assigned other) (hLayered : m.Layered)
    (hCareful : m.Careful assigned) (settings : Settings) :
    (Execution.step settings m).1 = (Execution.step settings other).1 ∧
      ((Execution.step settings m).1 ≠ .error .fault →
        (Execution.step settings m).2.Twins
          (m.recorded (Execution.step settings m).2 assigned) (Execution.step settings other).2) := by
  obtain ⟨stack, rfl⟩ : ∃ stack, other = { m with stack := stack } := ⟨_, h.eq.1⟩
  obtain ⟨clearing, hLeft, hRight⟩ := h
  obtain ⟨hOutcome, hNext⟩ := lockstep_step settings hLeft hLayered hCareful
  obtain ⟨hOther, hOtherNext⟩ := lockstep_step settings hRight
    ⟨hLayered.frame, hLayered.callers, hLayered.operands⟩
    ⟨hCareful.operands, hCareful.instruction⟩
  refine ⟨hOutcome.trans hOther.symm, fun hFault => ⟨_, hNext hFault, ?_⟩⟩
  have hHere := hOtherNext (by rwa [hOther, ← hOutcome])
  rw [← recorded_congr (hHere.depth_eq.symm.trans (hNext hFault).depth_eq)]
  exact hHere

theorem step_of_pop (hNext : m.next? = some .pop) (hOperand : 0 < m.sp) :
    Execution.step settings m = (.ok (), { m.fetched settings .pop with sp := m.sp - 1 }) := by
  rw [Execution.step_of_next? hNext, Execution.execute, Execution.bind_apply,
    Execution.pop_of_pos (by exact hOperand)]
  rfl

/-- Twins pop the same value. -/
theorem Twins.lastPopped_of_pop (h : m.Twins assigned other) (hLayered : m.Layered)
    (hCareful : m.Careful assigned) (hNext : m.next? = some .pop) (settings : Settings) :
    (Execution.step settings other).2.lastPopped = (Execution.step settings m).2.lastPopped := by
  have hOperand : 0 < m.sp :=
    Nat.lt_of_lt_of_le (Nat.succ_pos _) (hCareful.taken_le hLayered hNext)
  obtain ⟨stack, rfl⟩ : ∃ stack, other = { m with stack := stack } := ⟨_, h.eq.1⟩
  have hSize : stack.size = m.stack.size := h.eq.2
  obtain ⟨clearing, hLeft, hRight⟩ := h
  have hReads : Instruction.pop.Reads m (m.sp - 1) := Or.inl ⟨Nat.le_refl _, by omega⟩
  have hValue : stack.read (m.sp - 1) = m.stack.read (m.sp - 1) :=
    (hRight.read_eq ⟨hLayered.frame, hLayered.callers, hLayered.operands⟩
      ⟨hCareful.operands, hCareful.instruction⟩ hNext hReads).trans
      (hLeft.read_eq hLayered hCareful hNext hReads).symm
  rw [step_of_pop hNext hOperand, step_of_pop (by exact hNext) (by exact hOperand)]
  show (stack.get? (m.sp - 1)).getD .null = (m.stack.get? (m.sp - 1)).getD .null
  rw [Slots.get?, Slots.get?, hSize, hValue]

end

section

variable {settings : Settings} {first second : Code} {earlier : Array String} {m other : Machine}
  {assigned : Assigned}

/-- The other machine goes on in the stream `second` after another one, with a stack that may hold
stale values. -/
def Resumes (first second : Code) (earlier : Array String) (m : Machine) (assigned : Assigned)
    (other : Machine) : Prop :=
  ∃ twin, m.Twins assigned twin ∧
    Relocated second (first ++ second) first.size earlier twin other

theorem Resumes.atEnd_eq (h : Resumes first second earlier m assigned other) :
    other.frame.atEnd = m.frame.atEnd := by
  obtain ⟨twin, hTwin, hOther⟩ := h
  rw [hOther.same_of_append.2.2, hTwin.eq.1]

theorem Resumes.next?_eq (h : Resumes first second earlier m assigned other) :
    other.next? = m.next? := by
  obtain ⟨twin, hTwin, hOther⟩ := h
  rw [hOther.same_of_append.1, hTwin.eq.1]
  rfl

theorem Resumes.endsAlike (h : Resumes first second earlier m assigned other) :
    EndsAlike earlier m other := by
  obtain ⟨twin, hTwin, hOther⟩ := h
  have hEnds := hOther.endsAlike
  rw [hTwin.eq.1] at hEnds
  exact ⟨hEnds.globals, hEnds.sp, hEnds.printed⟩

/-- A careful step comes out the same. -/
theorem Resumes.step (h : Resumes first second earlier m assigned other)
    (hStraight : second.Straight) (hLayered : m.Layered) (hCareful : m.Careful assigned)
    (settings : Settings) :
    (Execution.step settings m).1 = (Execution.step settings other).1 ∧
      ((Execution.step settings m).1 ≠ .error .fault →
        EndsAlike earlier (Execution.step settings m).2 (Execution.step settings other).2) ∧
      ((Execution.step settings m).1 = .ok () →
        Resumes first second earlier (Execution.step settings m).2
          (m.recorded (Execution.step settings m).2 assigned) (Execution.step settings other).2) := by
  obtain ⟨twin, hTwin, hOther⟩ := h
  obtain ⟨hOutcome, hTwins⟩ := hTwin.step hLayered hCareful settings
  obtain ⟨hOtherOutcome, hEnds, hRelocated⟩ := hOther.step_of_append hStraight settings
  refine ⟨hOutcome.trans hOtherOutcome, fun hFault => ?_, fun hOk => ?_⟩
  · rw [(hTwins hFault).eq.1] at hEnds
    exact ⟨hEnds.globals, hEnds.sp, hEnds.printed⟩
  · have hFault : (Execution.step settings m).1 ≠ .error .fault := by simp [hOk]
    exact ⟨_, hTwins hFault, hRelocated (hOutcome.symm.trans hOk)⟩

theorem Resumes.lastPopped_of_pop (h : Resumes first second earlier m assigned other)
    (hStraight : second.Straight) (hLayered : m.Layered) (hCareful : m.Careful assigned)
    (hNext : m.next? = some .pop) (hOk : (Execution.step settings m).1 = .ok ()) :
    (Execution.step settings other).2.lastPopped = (Execution.step settings m).2.lastPopped := by
  obtain ⟨twin, hTwin, hOther⟩ := h
  obtain ⟨hOutcome, _⟩ := hTwin.step hLayered hCareful settings
  obtain ⟨_, _, hRelocated⟩ := hOther.step_of_append hStraight settings
  rw [← hTwin.lastPopped_of_pop hLayered hCareful hNext]
  have hAfter := hRelocated (hOutcome.symm.trans hOk)
  rw [lastPopped, lastPopped, hAfter.stack_eq, hAfter.endsAlike.sp]

end

/-- The last instruction that the run executes is a pop. -/
def PopsLast (settings : Settings) (start : Machine) : Prop :=
  ∃ before after steps, RunsFor settings (fun _ => True) start before steps ∧
    before.next? = some .pop ∧ Execution.step settings before = (.ok (), after) ∧
    after.next? = none

/-- The run from `start` answers the one, and a run that goes on from an earlier one answers the
other. -/
structure AnswersAlike (settings : Settings) (start : Machine) (earlier : Array String)
    (left right : Except Stop Unit × Machine) : Prop where
  outcome : right.1 = left.1
  ends : left.1 ≠ .error .fault → EndsAlike earlier left.2 right.2
  lastPopped : PopsLast settings start → right.2.lastPopped = left.2.lastPopped

section

variable {settings : Settings} {start m other : Machine} {assigned : Assigned} {steps : Nat}
  {first second : Code} {earlier : Array String}

/-- A careful run is matched step by step by one that goes on from an earlier one. -/
theorem CarefulRun.resumed (run : CarefulRun settings start m assigned steps)
    (hStart : start.Layered) (hStraight : second.Straight)
    (h : Resumes first second earlier start [[]] other) :
    ∃ last, RunsFor settings (fun _ => True) other last steps ∧
      Resumes first second earlier m assigned last := by
  induction run with
  | zero => exact ⟨other, RunsFor.zero other, h⟩
  | @succ m next assigned steps prior hCareful hRunning last ih =>
      obtain ⟨here, hPrior, hHere⟩ := ih
      obtain ⟨hOutcome, _, hNext⟩ :=
        hHere.step hStraight (prior.lockstep hStart).1 hCareful settings
      obtain ⟨⟨_, after⟩, hStep⟩ : ∃ answer, Execution.step settings here = answer := ⟨_, rfl⟩
      rw [last, hStep] at hOutcome hNext
      cases hOutcome
      exact ⟨after, RunsFor.succ hPrior trivial (hHere.atEnd_eq.trans hRunning) hStep, hNext rfl⟩

/-- Runs that are alike so far end alike, if they end. -/
theorem StaysCareful.run_resumed {rest : Nat} (hCareful : StaysCareful settings start)
    (hStart : start.Layered) (hStraight : second.Straight)
    (run : CarefulRun settings start m assigned steps)
    (h : Resumes first second earlier m assigned other) :
    Option.Rel
      (fun left right => right.1 = left.1 ∧
        (left.1 ≠ .error .fault → EndsAlike earlier left.2 right.2))
      (m.run settings rest) (other.run settings rest) := by
  induction rest generalizing m assigned steps other with
  | zero =>
      rw [Machine.run, Machine.run, h.atEnd_eq]
      split
      · exact Option.Rel.some ⟨rfl, fun _ => h.endsAlike⟩
      · exact Option.Rel.none
  | succ rest ih =>
      rw [Machine.run, Machine.run, h.atEnd_eq]
      cases hEnd : m.frame.atEnd with
      | true => exact Option.Rel.some ⟨rfl, fun _ => h.endsAlike⟩
      | false =>
          have hHere := hCareful _ _ _ run hEnd
          obtain ⟨hOutcome, hEnds, hNext⟩ :=
            h.step hStraight (run.lockstep hStart).1 hHere settings
          obtain ⟨⟨outcome, next⟩, hStep⟩ : ∃ answer, Execution.step settings m = answer := ⟨_, rfl⟩
          obtain ⟨⟨_, otherNext⟩, hOther⟩ :
            ∃ answer, Execution.step settings other = answer := ⟨_, rfl⟩
          rw [hStep, hOther] at hOutcome hEnds
          rw [hStep, hOther] at hNext
          cases hOutcome
          simp only [hStep, hOther]
          cases outcome with
          | ok => exact ih (run.succ hHere hEnd hStep) (hNext rfl)
          | error stop => exact Option.Rel.some ⟨rfl, hEnds⟩

/-- Where nothing more can be executed, the value popped last stays the same. -/
theorem lastPopped_of_run {answer : Except Stop Unit × Machine} (hNext : m.next? = none)
    (h : m.run settings steps = some answer) : answer.2.lastPopped = m.lastPopped := by
  cases hEnd : m.frame.atEnd with
  | true =>
      rw [run_of_atEnd hEnd] at h
      cases h
      rfl
  | false =>
      cases steps with
      | zero => simp [Machine.run, hEnd] at h
      | succ steps =>
          rcases Execution.step_of_next?_eq_none settings hNext with hStep | ⟨byte, hStep⟩
          all_goals
            rw [run_succ_of_error hEnd hStep] at h
            cases h
            rfl

/-- If a run ends with a pop, the run that goes on from an earlier one pops the same value. -/
theorem StaysCareful.lastPopped_eq {left right : Except Stop Unit × Machine} {others : Nat}
    (hCareful : StaysCareful settings start) (hStart : start.Layered)
    (hStraight : second.Straight) (h : Resumes first second earlier start [[]] other)
    (hPops : PopsLast settings start) (hLeft : start.run settings steps = some left)
    (hRight : other.run settings others = some right) :
    right.2.lastPopped = left.2.lastPopped := by
  obtain ⟨before, after, taken, run, hNext, hStep, hLast⟩ := hPops
  have hRunning := running_of_next? hNext
  obtain ⟨assigned, runCareful⟩ := hCareful.carefulRun run
  obtain ⟨here, runHere, hHere⟩ := runCareful.resumed hStart hStraight h
  have hLayered := (runCareful.lockstep hStart).1
  have hOwn := hCareful _ _ _ runCareful hRunning
  have hPopped := hHere.lastPopped_of_pop hStraight hLayered hOwn hNext (by rw [hStep])
  obtain ⟨hOutcome, _, hResumes⟩ := hHere.step hStraight hLayered hOwn settings
  obtain ⟨⟨_, next⟩, hOther⟩ : ∃ answer, Execution.step settings here = answer := ⟨_, rfl⟩
  rw [hStep, hOther] at hOutcome hPopped hResumes
  cases hOutcome
  obtain ⟨_, hAfter⟩ := (run.succ trivial hRunning hStep).exists_rest hLeft
  obtain ⟨_, hOtherAfter⟩ :=
    (runHere.succ trivial (hHere.atEnd_eq.trans hRunning) hOther).exists_rest hRight
  rw [lastPopped_of_run hLast hAfter,
    lastPopped_of_run ((hResumes rfl).next?_eq.trans hLast) hOtherAfter]
  exact hPopped

theorem StaysCareful.answersAlike (hCareful : StaysCareful settings start)
    (hStart : start.Layered) (hStraight : second.Straight)
    (h : Resumes first second earlier start [[]] other) (rest : Nat) :
    Option.Rel (AnswersAlike settings start earlier) (start.run settings rest)
      (other.run settings rest) := by
  have hAlike : Option.Rel _ (start.run settings rest) (other.run settings rest) :=
    hCareful.run_resumed hStart hStraight CarefulRun.zero h
  generalize hLeft : start.run settings rest = left at hAlike ⊢
  generalize hRight : other.run settings rest = right at hAlike ⊢
  cases hAlike with
  | none => exact Option.Rel.none
  | some hEnds =>
      exact Option.Rel.some ⟨hEnds.1, hEnds.2, fun hPops =>
        hCareful.lastPopped_eq hStart hStraight h hPops hLeft hRight⟩

end

section

variable {settings : Settings} {constants : List Value} {globals : Slots} {host : Host}
  {first second : Code} {finish : Machine} {taken : Nat}

def loadedHost (host : Host) : Host :=
  { host with labels := { host.labels with programs := host.labels.programs + 1 } }

theorem load_eq (bundle : Bundle) (globals : Slots) (host : Host) :
    load bundle globals host =
      { constants := bundle.constants
        stack := { size := stackSize }
        sp := 0
        globals := globals.widen globalsSize
        frame := .topLevel (.program host.labels.programs) bundle.code 0
        host := loadedHost host } := rfl

/-- Where the first stream has come to its end with an empty stack, the machine that runs both is
about to do what a new machine does with the second stream. -/
theorem resumes_of_finished (hFirst : first.Straight)
    (run : RunsFor settings (fun _ => True) (load ⟨first, constants⟩ globals host) finish taken)
    (hEnd : finish.frame.atEnd = true) (hSp : finish.sp = 0) (hMain : finish.callers = []) :
    ∃ other,
      RunsFor settings (fun _ => True) (load ⟨first ++ second, constants⟩ globals host) other
        taken ∧
      Resumes first second finish.host.printed
        (load ⟨second, constants⟩ finish.globals finish.host.unprinted) [[]] other := by
  have hStart : Relocated first (first ++ second) 0 #[] (load ⟨first, constants⟩ globals host)
      (load ⟨first ++ second, constants⟩ globals host) :=
    .intro _ _ _ (PlacedFrames.topLevel _ _ Code.Visits.start) ⟨rfl, Array.empty_append.symm⟩
  have hConstants : finish.constants = constants := run.constants_eq
  have hBounds := run.invariant (inBounds_load ⟨first, constants⟩ globals host)
    fun m next _ _ hStep h => h.step rfl hStep (by simp)
  have hWiden : finish.globals.widen globalsSize = finish.globals := by
    rw [Slots.widen, hBounds.globals, Nat.max_eq_right (Nat.le_max_left _ _), ← hBounds.globals]
  have hLoad : load ⟨second, constants⟩ finish.globals finish.host.unprinted =
      { finish with
        stack := { size := stackSize }
        frame := .topLevel (.program finish.host.labels.programs) second 0
        host := loadedHost finish.host.unprinted } := by
    rw [load_eq, hWiden]
    simp [hConstants, hSp, hMain, Host.unprinted]
  obtain ⟨other, runOther, hOther⟩ :=
    run.relocated (Code.standsIn_append_left first second) hFirst hStart
  refine ⟨other, runOther, { load ⟨second, constants⟩ finish.globals finish.host.unprinted with
    stack := finish.stack }, twins_of_empty rfl hBounds.stack, ?_⟩
  obtain ⟨frame, others, hosts, hFrames, hHost⟩ := hOther
  rw [hMain] at hFrames
  obtain ⟨id, id', cursor, hVisits, hFrame, rfl, rfl⟩ := hFrames.of_topLevel
  rw [hFrame] at hEnd
  obtain rfl : cursor = first.size :=
    Nat.le_antisymm hVisits.readTo.le_size (of_decide_eq_true hEnd)
  rw [hLoad, Nat.zero_add]
  have hPlaced : PlacedFrames second (first ++ second) first.size
      [.topLevel (.program finish.host.labels.programs) second 0]
      [.topLevel id' (first ++ second) first.size] :=
    PlacedFrames.topLevel _ id' Code.Visits.start
  refine .intro _ [] hosts ?_ ⟨hHost.objects, ?_⟩
  · rw [hMain]
    exact hPlaced
  · exact hHost.printed.trans (by simp [loadedHost, Host.unprinted])

end

/-- Runs over globals that are handed back compose. Let both streams be straight, and let a run of
the first one come to its end with an empty stack and no function left waiting. If the second one
then stays careful in a run of its own over the globals handed back, running both as one stream
comes to the same: the run takes the steps of the first stream and then goes on as the second does.
It is unfinished if that is, has the same outcome, and unless that is a fault ends with the same
globals and the same stack pointer, and has printed the lines of the first run and then those of the
second. If the last instruction executed is a pop, it has popped the same value. -/
theorem runs_over_globals_compose {settings : Settings} {constants : List Value} {globals : Slots}
    {host : Host} {first second : Code} {finish : Machine} {steps : Nat}
    (hFirst : first.Straight) (hSecond : second.Straight)
    (hPrior : (load ⟨first, constants⟩ globals host).run settings steps = some (.ok (), finish))
    (hSp : finish.sp = 0) (hMain : finish.callers = [])
    (hCareful : StaysCareful settings
      (load ⟨second, constants⟩ finish.globals finish.host.unprinted)) :
    ∃ taken, ∀ rest,
      Option.Rel
        (AnswersAlike settings (load ⟨second, constants⟩ finish.globals finish.host.unprinted)
          finish.host.printed)
        ((load ⟨second, constants⟩ finish.globals finish.host.unprinted).run settings rest)
        ((load ⟨first ++ second, constants⟩ globals host).run settings (taken + rest)) := by
  cases ends_of_run hPrior with
  | finished run hEnd =>
      obtain ⟨taken, run⟩ := run
      obtain ⟨other, runOther, hResumes⟩ := resumes_of_finished hFirst run hEnd hSp hMain
      refine ⟨taken, fun rest => ?_⟩
      rw [runOther.run_add]
      exact hCareful.answersAlike (layered_load _ _ _) hSecond hResumes rest

/-- A function of one parameter and one more local. It keeps its argument as the local, prints it
and jumps to the end to return it. -/
def echo : CompiledFunction :=
  { code := Code.assemble
      [(.getLocal, [0]), (.setLocal, [1]), (.getBuiltin, [1]), (.getLocal, [1]), (.call, [1]),
       (.pop, []), (.jump, [14]), (.getLocal, [1]), (.returnValue, [])]
    locals := 2
    parameters := 1 }

/-- Keeps the function as a global and prints `true`. -/
def keepsEcho : Code :=
  Code.assemble
    [(.closure, [0, 0]), (.setGlobal, [0]), (.getBuiltin, [1]), (.pushTrue, []), (.call, [1]),
     (.pop, [])]

/-- Calls the function in the global with `false`. -/
def callsEcho : Code :=
  Code.assemble [(.getGlobal, [0]), (.pushFalse, []), (.call, [1]), (.pop, [])]

/-- What the run of a bundle over no globals at all comes to after six steps. -/
def afterKeepsEcho : Machine :=
  after {} (load ⟨keepsEcho, [.compiled (.object 0) echo]⟩ { size := 0 } {}) 6

/-- A machine about to run the second stream over the globals that the first hands back. -/
def thenCallsEcho : Machine :=
  load ⟨callsEcho, [.compiled (.object 0) echo]⟩ afterKeepsEcho.globals
    afterKeepsEcho.host.unprinted

/-- The second run prints and pops `false`. So does the run of both streams, after it has printed
`true`, although its stack still holds what the first stream has left there. -/
theorem callsEcho_composes_with_keepsEcho :
    keepsEcho.Straight ∧ callsEcho.Straight ∧
      (load ⟨keepsEcho, [.compiled (.object 0) echo]⟩ { size := 0 } {}).run {} 6 =
        some (.ok (), afterKeepsEcho) ∧
      afterKeepsEcho.sp = 0 ∧ afterKeepsEcho.callers = [] ∧
      afterKeepsEcho.stack.read 1 = .boolean true ∧
      StaysCareful {} thenCallsEcho ∧ PopsLast {} thenCallsEcho ∧
      ∃ left right, ∃ taken : Nat, thenCallsEcho.run {} 13 = some (.ok (), left) ∧
        (load ⟨keepsEcho ++ callsEcho, [.compiled (.object 0) echo]⟩ { size := 0 } {}).run {}
          (taken + 13) = some (.ok (), right) ∧
        right.globals = left.globals ∧ right.sp = left.sp ∧
        right.host.printed = #["true"] ++ #["false"] ∧ right.lastPopped = .boolean false := by
  have hFirst : keepsEcho.Straight := Code.straight_of_scan? (by decide +kernel)
  have hSecond : callsEcho.Straight := Code.straight_of_scan? (by decide +kernel)
  have run : RunsFor {} (fun _ => True)
      (load ⟨keepsEcho, [.compiled (.object 0) echo]⟩ { size := 0 } {}) afterKeepsEcho 6 :=
    runsFor_after (by decide +kernel)
  have hPrior := (run.run_add 0).trans (run_of_atEnd (by decide +kernel) 0)
  have hSp : afterKeepsEcho.sp = 0 := by decide +kernel
  have hMain : afterKeepsEcho.callers = [] := by rfl
  have hCareful : StaysCareful {} thenCallsEcho :=
    staysCareful_of_after 13 (by decide +kernel) (by decide +kernel)
  have runSecond : RunsFor {} (fun _ => True) thenCallsEcho (after {} thenCallsEcho 12) 12 :=
    runsFor_after (by decide +kernel)
  have hLast : Execution.step {} (after {} thenCallsEcho 12) =
      (.ok (), after {} thenCallsEcho 13) := step_eq_of_isOk (by decide +kernel)
  have hPops : PopsLast {} thenCallsEcho :=
    ⟨_, _, 12, runSecond, by decide +kernel, hLast, by decide +kernel⟩
  have hLeft := ((runSecond.succ trivial (by decide +kernel) hLast).run_add 0).trans
    (run_of_atEnd (by decide +kernel) 0)
  obtain ⟨taken, hRuns⟩ :=
    runs_over_globals_compose hFirst hSecond hPrior hSp hMain hCareful
  have hBoth : Option.Rel (AnswersAlike {} thenCallsEcho afterKeepsEcho.host.printed)
      (thenCallsEcho.run {} 13)
      ((load ⟨keepsEcho ++ callsEcho, [.compiled (.object 0) echo]⟩ { size := 0 } {}).run {}
        (taken + 13)) := hRuns 13
  have hFinished : thenCallsEcho.run {} 13 = some (.ok (), after {} thenCallsEcho 13) := hLeft
  rw [hFinished] at hBoth
  generalize hRight : Machine.run {} (taken + 13) _ = right at hBoth
  refine ⟨hFirst, hSecond, hPrior, hSp, hMain, by rfl, hCareful, hPops, after {} thenCallsEcho 13,
    ?_⟩
  cases hBoth with
  | @some _ right h =>
      obtain ⟨outcome, right⟩ := right
      obtain ⟨rfl, hEnds, hPopped⟩ := h
      have hAlike := hEnds (by simp)
      have hPrinted : right.host.printed = #["true"] ++ #["false"] :=
        hAlike.printed.trans (by decide +kernel)
      have hValue : right.lastPopped = .boolean false :=
        (hPopped hPops).trans (by set_option maxRecDepth 1000 in rfl)
      exact ⟨right, taken, hFinished, hRight, hAlike.globals, hAlike.sp, hPrinted, hValue⟩

end Machine

end Tandem
