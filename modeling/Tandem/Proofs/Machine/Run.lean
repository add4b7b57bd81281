import Tandem.Machine.Step
/-!
Runs of the machine as counted steps. A run of a number of steps is a chain of single steps, each
of them executed while something is left to run. What `Machine.run` answers is tied to such
chains: an answer is the end of one, and no answer means that one goes on for all the steps given.
-/
namespace Tandem.Machine

/-- Exactly `steps` steps, each executed in a machine of which `allowed` holds. Nothing is asked
of the last machine. -/
inductive RunsFor (settings : Settings) (allowed : Machine → Prop) :
    Machine → Machine → Nat → Prop where
  | zero (m : Machine) : RunsFor settings allowed m m 0
  | succ {start middle finish : Machine} {steps : Nat}
      (prior : RunsFor settings allowed start middle steps) (hAllowed : allowed middle)
      (hRunning : middle.frame.atEnd = false)
      (last : Execution.step settings middle = (.ok (), finish)) :
      RunsFor settings allowed start finish (steps + 1)

/-- Every machine that a run can come to, whatever it executes on the way. -/
def Reaches (settings : Settings) (start finish : Machine) : Prop :=
  ∃ steps, RunsFor settings (fun _ => True) start finish steps

variable {settings : Settings} {allowed : Machine → Prop}

theorem RunsFor.trans {start middle finish : Machine} {first second : Nat}
    (left : RunsFor settings allowed start middle first)
    (right : RunsFor settings allowed middle finish second) :
    RunsFor settings allowed start finish (first + second) := by
  induction right with
  | zero => exact left
  | succ prior hAllowed hRunning last ih => exact RunsFor.succ ih hAllowed hRunning last

/-- What holds at the start and is kept by every single step holds at the end. -/
theorem RunsFor.invariant {start finish : Machine} {steps : Nat} {holds : Machine → Prop}
    (run : RunsFor settings allowed start finish steps) (hStart : holds start)
    (hStep : ∀ m next, allowed m → m.frame.atEnd = false →
      Execution.step settings m = (.ok (), next) → holds m → holds next) : holds finish := by
  induction run with
  | zero => exact hStart
  | succ prior hAllowed hRunning last ih => exact hStep _ _ hAllowed hRunning last ih

/-- Where every step lowers a measure, the measure pays for the steps of the whole run. The steps
need to lower it only as long as something holds that they keep. -/
theorem RunsFor.add_measure_le {start finish : Machine} {steps : Nat} (holds : Machine → Prop)
    (measure : Machine → Nat) (run : RunsFor settings allowed start finish steps)
    (hStart : holds start)
    (hStep : ∀ m next, allowed m → m.frame.atEnd = false →
      Execution.step settings m = (.ok (), next) → holds m →
      holds next ∧ measure next < measure m) :
    holds finish ∧ steps + measure finish ≤ measure start := by
  induction run with
  | zero => exact ⟨hStart, by omega⟩
  | succ prior hAllowed hRunning last ih =>
      obtain ⟨hMiddle, hPaid⟩ := ih
      obtain ⟨hFinish, hLower⟩ := hStep _ _ hAllowed hRunning last hMiddle
      exact ⟨hFinish, by omega⟩

/-- A condition that holds of every machine a run comes to may be asked of the machines that
execute its steps. -/
theorem RunsFor.of_reaches {start finish : Machine} {steps : Nat}
    (run : RunsFor settings (fun _ => True) start finish steps)
    (hAllowed : ∀ m, Reaches settings start m → allowed m) :
    RunsFor settings allowed start finish steps := by
  induction run with
  | zero => exact RunsFor.zero _
  | @succ middle finish steps prior _ hRunning last ih =>
      exact RunsFor.succ ih (hAllowed middle ⟨steps, prior⟩) hRunning last

theorem Reaches.refl (start : Machine) : Reaches settings start start := ⟨0, RunsFor.zero start⟩

theorem Reaches.invariant {start finish : Machine} {holds : Machine → Prop}
    (run : Reaches settings start finish) (hStart : holds start)
    (hStep : ∀ m next, m.frame.atEnd = false →
      Execution.step settings m = (.ok (), next) → holds m → holds next) : holds finish := by
  obtain ⟨steps, run⟩ := run
  exact run.invariant hStart fun m next _ => hStep m next

theorem run_of_atEnd {m : Machine} (h : m.frame.atEnd = true) (steps : Nat) :
    m.run settings steps = some (.ok (), m) := by
  unfold Machine.run
  rw [if_pos h]

theorem run_succ_of_ok {m next : Machine} (hRunning : m.frame.atEnd = false)
    (hStep : Execution.step settings m = (.ok (), next)) (steps : Nat) :
    m.run settings (steps + 1) = next.run settings steps := by
  rw [Machine.run, hRunning, hStep]
  rfl

theorem run_succ_of_error {m next : Machine} {stop : Stop} (hRunning : m.frame.atEnd = false)
    (hStep : Execution.step settings m = (.error stop, next)) (steps : Nat) :
    m.run settings (steps + 1) = some (.error stop, next) := by
  rw [Machine.run, hRunning, hStep]
  rfl

/-- The steps of a chain can be taken first. What is left to answer is a matter of the machine at
its end. -/
theorem RunsFor.run_add {start finish : Machine} {steps : Nat}
    (run : RunsFor settings allowed start finish steps) (rest : Nat) :
    start.run settings (steps + rest) = finish.run settings rest := by
  induction run generalizing rest with
  | zero => rw [Nat.zero_add]
  | succ prior hAllowed hRunning last ih =>
      rw [Nat.add_right_comm, Nat.add_assoc, ih (rest + 1), run_succ_of_ok hRunning last]

/-- What a run answers is answered by what is left of it after some steps. -/
theorem RunsFor.exists_rest {start finish : Machine} {taken steps : Nat}
    {answer : Except Stop Unit × Machine} (run : RunsFor settings allowed start finish taken)
    (h : start.run settings steps = some answer) :
    ∃ rest, finish.run settings rest = some answer := by
  induction run with
  | zero => exact ⟨steps, h⟩
  | succ prior hAllowed hRunning last ih =>
      obtain ⟨rest, hMiddle⟩ := ih
      cases rest with
      | zero => simp [Machine.run, hRunning] at hMiddle
      | succ rest => exact ⟨rest, (run_succ_of_ok hRunning last rest).symm.trans hMiddle⟩

/-- The machine that a number of steps leads to, if none of them stops the run. -/
def after (settings : Settings) (start : Machine) : (steps : Nat) → Machine
  | 0 => start
  | steps + 1 => (Execution.step settings (start.after settings steps)).2

theorem step_eq_of_isOk {m : Machine} (h : (Execution.step settings m).1.isOk = true) :
    Execution.step settings m = (.ok (), (Execution.step settings m).2) := by
  refine Prod.ext ?_ rfl
  cases hStep : (Execution.step settings m).1 with
  | ok => rfl
  | error stop =>
      rw [hStep] at h
      cases h

theorem runsFor_after {start : Machine} {steps : Nat}
    (h : ∀ before < steps, allowed (start.after settings before) ∧
      (start.after settings before).frame.atEnd = false ∧
      (Execution.step settings (start.after settings before)).1.isOk = true) :
    RunsFor settings allowed start (start.after settings steps) steps := by
  induction steps with
  | zero => exact RunsFor.zero start
  | succ steps ih =>
      obtain ⟨hAllowed, hRunning, hOk⟩ := h steps (Nat.lt_succ_self steps)
      exact RunsFor.succ (ih fun before hBefore => h before (Nat.lt_succ_of_lt hBefore)) hAllowed
        hRunning (step_eq_of_isOk hOk)

/-- How a run ends: a chain of steps leads to a machine that has nothing left to run, or to one
whose next step stops the run. -/
inductive Ends (settings : Settings) (start : Machine) : Except Stop Unit → Machine → Prop where
  | finished {finish : Machine} (run : Reaches settings start finish)
      (hEnd : finish.frame.atEnd = true) : Ends settings start (.ok ()) finish
  | stopped {middle finish : Machine} {stop : Stop} (run : Reaches settings start middle)
      (hRunning : middle.frame.atEnd = false)
      (last : Execution.step settings middle = (.error stop, finish)) :
      Ends settings start (.error stop) finish

theorem Reaches.step {start next finish : Machine} (hRunning : start.frame.atEnd = false)
    (hStep : Execution.step settings start = (.ok (), next))
    (rest : Reaches settings next finish) : Reaches settings start finish := by
  obtain ⟨steps, rest⟩ := rest
  exact ⟨1 + steps, (RunsFor.succ (RunsFor.zero start) trivial hRunning hStep).trans rest⟩

theorem Reaches.trans {start middle finish : Machine} (left : Reaches settings start middle)
    (right : Reaches settings middle finish) : Reaches settings start finish := by
  obtain ⟨first, left⟩ := left
  obtain ⟨second, right⟩ := right
  exact ⟨first + second, left.trans right⟩

theorem Ends.step {start next finish : Machine} {outcome : Except Stop Unit}
    (hRunning : start.frame.atEnd = false)
    (hStep : Execution.step settings start = (.ok (), next))
    (rest : Ends settings next outcome finish) : Ends settings start outcome finish := by
  cases rest with
  | finished run hEnd => exact Ends.finished (run.step hRunning hStep) hEnd
  | stopped run hEnd last => exact Ends.stopped (run.step hRunning hStep) hEnd last

/-- What came after a run of steps is what comes after the whole. -/
theorem Reaches.ends {start middle finish : Machine} {outcome : Except Stop Unit}
    (run : Reaches settings start middle) (rest : Ends settings middle outcome finish) :
    Ends settings start outcome finish := by
  cases rest with
  | finished more hEnd => exact Ends.finished (run.trans more) hEnd
  | stopped more hRunning last => exact Ends.stopped (run.trans more) hRunning last

theorem ends_of_run {start finish : Machine} {steps : Nat} {outcome : Except Stop Unit}
    (h : start.run settings steps = some (outcome, finish)) :
    Ends settings start outcome finish := by
  induction steps generalizing start with
  | zero =>
      cases hEnd : start.frame.atEnd with
      | true =>
          rw [run_of_atEnd hEnd] at h
          cases h
          exact Ends.finished (Reaches.refl _) hEnd
      | false => simp [Machine.run, hEnd] at h
  | succ steps ih =>
      cases hEnd : start.frame.atEnd with
      | true =>
          rw [run_of_atEnd hEnd] at h
          cases h
          exact Ends.finished (Reaches.refl _) hEnd
      | false =>
          cases hStep : Execution.step settings start with
          | mk result next =>
              cases result with
              | ok =>
                  rw [run_succ_of_ok hEnd hStep] at h
                  exact (ih h).step hEnd hStep
              | error stop =>
                  rw [run_succ_of_error hEnd hStep] at h
                  cases h
                  exact Ends.stopped (Reaches.refl start) hEnd hStep

/-- The end of a run is answered as soon as enough steps are given. -/
theorem Ends.run_eq {start finish : Machine} {outcome : Except Stop Unit}
    (h : Ends settings start outcome finish) :
    ∃ steps, start.run settings steps = some (outcome, finish) := by
  cases h with
  | finished run hEnd =>
      obtain ⟨steps, run⟩ := run
      exact ⟨steps + 0, by rw [run.run_add, run_of_atEnd hEnd]⟩
  | stopped run hRunning last =>
      obtain ⟨steps, run⟩ := run
      exact ⟨steps + 1, by rw [run.run_add, run_succ_of_error hRunning last]⟩

/-- A run without an answer has used up all its steps and has something left to run. -/
theorem runsFor_of_run_eq_none {start : Machine} {steps : Nat}
    (h : start.run settings steps = none) :
    ∃ finish, RunsFor settings (fun _ => True) start finish steps ∧
      finish.frame.atEnd = false := by
  induction steps generalizing start with
  | zero =>
      cases hEnd : start.frame.atEnd with
      | true => simp [run_of_atEnd hEnd] at h
      | false => exact ⟨start, RunsFor.zero start, hEnd⟩
  | succ steps ih =>
      cases hEnd : start.frame.atEnd with
      | true => simp [run_of_atEnd hEnd] at h
      | false =>
          cases hStep : Execution.step settings start with
          | mk result next =>
              cases result with
              | ok =>
                  rw [run_succ_of_ok hEnd hStep] at h
                  obtain ⟨finish, run, hFinish⟩ := ih h
                  refine ⟨finish, ?_, hFinish⟩
                  rw [Nat.add_comm]
                  exact (RunsFor.succ (RunsFor.zero start) trivial hEnd hStep).trans run
              | error stop => simp [run_succ_of_error hEnd hStep] at h

end Tandem.Machine
