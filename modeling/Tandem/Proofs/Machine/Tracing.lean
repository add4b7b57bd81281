import Tandem.Proofs.Machine.SideBySide
/-!
What tracing does to a machine. The execution of an instruction neither looks at the trace messages
nor writes any: they are written before it, one for each instruction that is found. So a run is the
same whether or not it is traced, once the messages are erased.
-/
namespace Tandem

namespace Machine

def withTrace (messages : Array String) (m : Machine) : Machine :=
  { m with host := m.host.withTrace messages }

def untraced (m : Machine) : Machine := m.withTrace #[]

theorem eq_withTrace_of_untraced_eq {m other : Machine} (h : m.untraced = other.untraced) :
    other = m.withTrace other.host.traced :=
  (congrArg (withTrace other.host.traced) h).symm

/-- The host that an instruction is executed with differs in its trace messages at most. -/
theorem tracedHost_eq (settings : Settings) (m : Machine) :
    m.tracedHost settings = m.host.withTrace (m.tracedHost settings).traced := by
  unfold tracedHost
  split
  · split <;> rfl
  · rfl

theorem fetched_withTrace (settings others : Settings) (i : Instruction) (m : Machine)
    (messages : Array String) :
    (m.withTrace messages).fetched others i = (m.fetched settings i).withTrace
      ((m.withTrace messages).tracedHost others).traced := by
  unfold fetched
  rw [tracedHost_eq others (m.withTrace messages), tracedHost_eq settings m]
  rfl

/-- The messages that the next step writes: with tracing on there is one for the instruction at the
cursor, if the machine finds one. -/
def messages (settings : Settings) (m : Machine) : Array String :=
  if settings.trace then
    match m.next? with
    | some i => #[Execution.traceMessage m ⟨m.frame.cursor, i.item⟩]
    | none => #[]
  else #[]

theorem messages_of_next?_eq_none {m : Machine} (settings : Settings) (h : m.next? = none) :
    m.messages settings = #[] := by
  unfold messages
  rw [h]
  split <;> rfl

theorem traced_tracedHost {m : Machine} {i : Instruction} (settings : Settings)
    (h : m.next? = some i) :
    (m.tracedHost settings).traced = m.host.traced ++ m.messages settings := by
  unfold tracedHost messages
  split
  · rw [h, Code.entryAt?_of_instructionAt? h]
    exact Array.push_eq_append
  · exact Array.append_empty.symm

/-- The machines are the same but for their trace messages, which are these. -/
def DifferInTrace (left right : Array String) (m other : Machine) : Prop :=
  m.host.traced = left ∧ other = m.withTrace right

/-- Machines that differ in their trace messages only are alike. -/
theorem likeness_differInTrace (left right : Array String) :
    Likeness (DifferInTrace left right) where
  shares := by
    rintro m _ ⟨_, rfl⟩
    exact ⟨rfl, rfl, rfl, rfl, rfl, rfl⟩
  push := by
    rintro m _ ⟨hLeft, rfl⟩ value
    exact ⟨hLeft, rfl⟩
  drop := by
    rintro m _ ⟨hLeft, rfl⟩ sp _
    exact ⟨hLeft, rfl⟩
  moved := by
    rintro m _ ⟨hLeft, rfl⟩ cursor
    exact ⟨hLeft, rfl⟩
  globals := by
    rintro m _ ⟨hLeft, rfl⟩ globals
    exact ⟨hLeft, rfl⟩
  host := by
    rintro m _ α action ⟨hLeft, rfl⟩ hQuiet
    have hRight := hQuiet _ (Host.unseen_withTrace right) m.host
    exact ⟨(congrArg Prod.fst hRight).symm, (hQuiet.traced_eq m.host).trans hLeft,
      congrArg (fun answer => { m with host := answer.2 }) hRight⟩

end Machine

namespace Execution

open Machine

variable {left right : Array String}

theorem indifferent_enter (id : Label) (function : CompiledFunction) (free : List Value)
    (arguments : Nat) :
    Indifferent (DifferInTrace left right) (enter id function free arguments) := by
  rintro m _ ⟨hLeft, rfl⟩
  unfold enter
  rw [get_bind, get_bind]
  show Beside _ ((if _ then _ else if m.sp - arguments + function.locals ≤ stackSize then _
    else _ : Execution Unit) m) ((if _ then _ else if m.sp - arguments + function.locals ≤ stackSize
      then _ else _ : Execution Unit) _)
  split
  · exact ⟨rfl, hLeft, rfl⟩
  · split
    · exact ⟨rfl, hLeft, rfl⟩
    · exact ⟨rfl, hLeft, rfl⟩

theorem indifferent_leave (value : Value) :
    Indifferent (DifferInTrace left right) (leave value) := by
  rintro m _ ⟨hLeft, rfl⟩
  cases hCallers : m.callers with
  | nil =>
      rw [leave_of_main hCallers, leave_of_main (by exact hCallers)]
      exact ⟨rfl, hLeft, rfl⟩
  | cons caller callers =>
      cases hBase : m.frame.base with
      | zero =>
          rw [leave_of_base_eq_zero hCallers hBase,
            leave_of_base_eq_zero (by exact hCallers) (by exact hBase)]
          exact ⟨rfl, hLeft, rfl⟩
      | succ base =>
          rw [leave_of_caller hCallers hBase, leave_of_caller (by exact hCallers) (by exact hBase)]
          exact (likeness_differInTrace left right).resemblance.pushes value _ _ ⟨hLeft, rfl⟩

/-- Messages written before the execution of an instruction have no influence on it, and it writes
none. -/
theorem indifferent_execute (i : Instruction) :
    Indifferent (DifferInTrace left right) (execute i) := by
  have L := likeness_differInTrace left right
  have hStack : ∀ {m other : Machine}, DifferInTrace left right m other →
      ∀ slot, m.stack.read slot = other.stack.read slot := by
    rintro m _ ⟨_, rfl⟩ slot
    rfl
  intro m other h
  cases i with
  | setLocal slot =>
      refine L.resemblance.pops h (fun _ => hStack h _) fun value => ?_
      rintro m _ ⟨hLeft, rfl⟩
      have hStored : (m.withTrace right).stack.set? ((m.withTrace right).frame.base + slot) value =
          m.stack.set? (m.frame.base + slot) value := rfl
      simp only [get_bind, hStored]
      cases m.stack.set? (m.frame.base + slot) value with
      | none => exact ⟨rfl, hLeft, rfl⟩
      | some stack => exact ⟨rfl, hLeft, rfl⟩
  | call arguments =>
      exact L.resemblance.call h arguments (fun slot _ _ => hStack h slot)
        fun id function free _ _ => indifferent_enter id function free arguments m other h
  | returnValue => exact L.resemblance.pops h (fun _ => hStack h _) indifferent_leave
  | returnNull => exact indifferent_leave .null m other h
  | _ => exact L.execute h trivial fun slot _ => hStack h slot

/-- Messages that were written before the execution of an instruction are left as they are. -/
theorem traced_execute (i : Instruction) (m : Machine) :
    (execute i m).2.host.traced = m.host.traced := by
  obtain ⟨_, hTraced, _⟩ := indifferent_execute i m (m.withTrace #[]) ⟨rfl, rfl⟩
  exact hTraced

/-- A step comes out the same under all settings, trace messages aside. -/
theorem beside_step (settings others : Settings) {m other : Machine}
    (h : m.untraced = other.untraced) :
    Beside (fun m other => m.untraced = other.untraced) (step settings m) (step others other) := by
  obtain ⟨messages, rfl⟩ : ∃ messages, other = m.withTrace messages :=
    ⟨_, eq_withTrace_of_untraced_eq h⟩
  cases hNext : m.next? with
  | some i =>
      obtain ⟨hOutcome, _, hAfter⟩ := indifferent_execute i (m.fetched settings i) _
        ⟨rfl, fetched_withTrace settings others i m messages⟩
      rw [step_of_next? hNext, step_of_next? (m := m.withTrace messages) hNext]
      exact ⟨hOutcome, hAfter ▸ rfl⟩
  | none =>
      cases hUnknown : m.unknown? with
      | none =>
          rw [step_of_missing settings hNext hUnknown,
            step_of_missing others (m := m.withTrace messages) hNext hUnknown]
          exact ⟨rfl, h⟩
      | some byte =>
          rw [step_of_unknown? settings hUnknown,
            step_of_unknown? others (m := m.withTrace messages) hUnknown]
          exact ⟨rfl, rfl⟩

/-- A step writes its messages whether or not the instruction goes through. -/
theorem traced_step (settings : Settings) (m : Machine) :
    (step settings m).2.host.traced = m.host.traced ++ m.messages settings := by
  cases hNext : m.next? with
  | some i =>
      rw [step_of_next? hNext, traced_execute]
      exact traced_tracedHost settings hNext
  | none =>
      rw [messages_of_next?_eq_none settings hNext, Array.append_empty]
      rcases step_of_next?_eq_none settings hNext with hStep | ⟨byte, hStep⟩
      all_goals rw [hStep]

end Execution

namespace Machine

def runUntraced (settings : Settings) (steps : Nat) (m : Machine) :
    Option (Except Stop Unit × Machine) :=
  (m.run settings steps).map fun (outcome, finish) => (outcome, finish.untraced)

theorem runUntraced_eq_of_atEnd (settings others : Settings) {m other : Machine}
    (h : m.untraced = other.untraced) (hEnd : other.frame.atEnd = true) (steps : Nat) :
    m.runUntraced settings steps = other.runUntraced others steps := by
  have hHere : m.frame.atEnd = true := (congrArg (·.frame.atEnd) h).trans hEnd
  rw [runUntraced, runUntraced, run_of_atEnd hEnd, run_of_atEnd hHere]
  exact congrArg (fun finish => some (Except.ok (), finish)) h

/-- A run comes out the same under all settings, trace messages aside. -/
theorem runUntraced_eq (settings others : Settings) {m other : Machine}
    (h : m.untraced = other.untraced) (steps : Nat) :
    m.runUntraced settings steps = other.runUntraced others steps := by
  induction steps generalizing m other with
  | zero =>
      cases hOther : other.frame.atEnd with
      | true => exact runUntraced_eq_of_atEnd settings others h hOther 0
      | false =>
          have hHere : m.frame.atEnd = false := (congrArg (·.frame.atEnd) h).trans hOther
          simp [runUntraced, run, hHere, hOther]
  | succ steps ih =>
      cases hOther : other.frame.atEnd with
      | true => exact runUntraced_eq_of_atEnd settings others h hOther (steps + 1)
      | false =>
          have hHere : m.frame.atEnd = false := (congrArg (·.frame.atEnd) h).trans hOther
          obtain ⟨hOutcome, hNext⟩ := Execution.beside_step settings others h
          obtain ⟨⟨outcome, next⟩, hStep⟩ : ∃ answer, Execution.step settings m = answer := ⟨_, rfl⟩
          obtain ⟨⟨_, otherNext⟩, hOtherStep⟩ : ∃ answer, Execution.step others other = answer :=
            ⟨_, rfl⟩
          rw [hStep, hOtherStep] at hOutcome hNext
          cases hOutcome
          cases outcome with
          | ok =>
              rw [runUntraced, runUntraced, run_succ_of_ok hHere hStep,
                run_succ_of_ok hOther hOtherStep]
              exact ih hNext
          | error stop =>
              rw [runUntraced, runUntraced, run_succ_of_error hHere hStep,
                run_succ_of_error hOther hOtherStep]
              exact congrArg (fun finish => some (Except.error stop, finish)) hNext

/-- With tracing on a run writes one message in each step, and none with tracing off. -/
theorem RunsFor.size_traced {settings : Settings} {allowed : Machine → Prop}
    {start finish : Machine} {steps : Nat} (run : RunsFor settings allowed start finish steps) :
    finish.host.traced.size = start.host.traced.size + if settings.trace then steps else 0 := by
  induction run with
  | zero => split <;> rfl
  | @succ middle finish steps prior _ _ last ih =>
      obtain ⟨i, hNext, _⟩ := Execution.exists_execute_of_step last
      have hTraced := Execution.traced_step settings middle
      rw [last] at hTraced
      have hSize : (middle.messages settings).size = if settings.trace then 1 else 0 := by
        unfold messages
        rw [hNext]
        split <;> rfl
      rw [hTraced, Array.size_append, ih, hSize]
      split <;> omega

end Machine

end Tandem
