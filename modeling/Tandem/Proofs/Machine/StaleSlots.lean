import Tandem.Proofs.Machine.Calls
import Tandem.Proofs.Machine.Clearing
import Tandem.Proofs.Machine.Careful
/-!
Stale slots. Popping a value leaves it in its slot, and a call reserves slots for locals with
whatever stands in them. None of this can be seen by careful code: a machine that clears all
such slots runs in lockstep with the one that does not, whatever unassigned locals hold.
-/
namespace Tandem

namespace Machine

/-- The other machine has the same stack pointer, pool, globals, frames and host, and holds the same
values in the slots that are in use, the hidden ones aside. -/
inductive AgreesUpTo (hidden : Nat → Prop) (m : Machine) : Machine → Prop where
  | intro (stack : Slots) (hSize : stack.size = m.stack.size)
      (hSlots : ∀ slot < m.sp, ¬ hidden slot → stack.read slot = m.stack.read slot) :
      AgreesUpTo hidden m { m with stack := stack }

/-- The other machine agrees up to the locals that have not been assigned yet. -/
def InStep (m : Machine) (assigned : Assigned) (other : Machine) : Prop :=
  m.AgreesUpTo (Unassigned (m.frame :: m.callers) assigned) other

/-- The machines run in these frames and agree up to the hidden slots. -/
def AgreesIn (hidden : Nat → Prop) (frame : Frame) (callers : List Frame) (m other : Machine) :
    Prop :=
  m.RunsIn frame callers ∧ m.AgreesUpTo hidden other

section

variable {m : Machine} {assigned : Assigned}

/-- Machines in the same frames that agree up to hidden slots are alike. -/
theorem likeness_agreesIn (hidden : Nat → Prop) (frame : Frame) (callers : List Frame) :
    Likeness (AgreesIn hidden frame callers) where
  shares := by
    rintro m _ ⟨_, ⟨stack, hSize, _⟩⟩
    exact ⟨rfl, hSize, rfl, rfl, rfl, rfl⟩
  push := by
    rintro m _ ⟨hRuns, ⟨stack, hSize, hSlots⟩⟩ value
    refine ⟨hRuns, .intro _ (by simp only [Slots.size_write, hSize]) fun slot hSlot hVisible => ?_⟩
    by_cases hTop : m.sp = slot
    · rw [hTop, Slots.read_write_self, Slots.read_write_self]
    · simp only at hSlot
      rw [Slots.read_write_of_ne _ hTop, Slots.read_write_of_ne _ hTop]
      exact hSlots slot (by omega) hVisible
  drop := by
    rintro m _ ⟨hRuns, ⟨stack, hSize, hSlots⟩⟩ sp hSp
    exact ⟨hRuns, .intro stack hSize fun slot hSlot => hSlots slot (Nat.lt_of_lt_of_le hSlot hSp)⟩
  moved := by
    rintro m _ ⟨⟨hCallers, cursor, hFrame⟩, ⟨stack, hSize, hSlots⟩⟩ target
    refine ⟨⟨hCallers, target, ?_⟩, .intro stack hSize hSlots⟩
    rw [hFrame]
  globals := by
    rintro m _ ⟨hRuns, ⟨stack, hSize, hSlots⟩⟩ globals
    exact ⟨hRuns, .intro stack hSize hSlots⟩
  host := by
    rintro m _ α action ⟨hRuns, ⟨stack, hSize, hSlots⟩⟩ _
    exact ⟨rfl, hRuns, .intro stack hSize hSlots⟩

/-- Clearing slots that are not in use does not matter. -/
theorem AgreesUpTo.clear {hidden : Nat → Prop} {m other : Machine} (h : m.AgreesUpTo hidden other)
    {start : Nat} (hStart : m.sp ≤ start) (count : Nat) :
    m.AgreesUpTo hidden { other with stack := other.stack.clear start count } := by
  cases h with
  | intro stack hSize hSlots =>
      refine .intro _ ((Slots.size_clear _ _ _).trans hSize) fun slot hSlot hVisible => ?_
      rw [Slots.read_clear, if_neg (by omega)]
      exact hSlots slot hSlot hVisible

/-- Whether the slots that an execution drops are cleared does not matter, as long as it enters no
function. -/
theorem beside_clearing {α : Type} {hidden : Nat → Prop} {frame : Frame} {callers : List Frame}
    {m other : Machine} {x : Execution α} (hCallers : callers.length ≤ other.callers.length)
    (h : Execution.Beside (AgreesIn hidden frame callers) (x m) (x other)) :
    Execution.Beside (AgreesIn hidden frame callers) (x m) (Execution.clearing x other) := by
  obtain ⟨hOutcome, hRuns, hAgrees⟩ := h
  unfold Execution.clearing
  generalize x m = left, x other = right at hOutcome hRuns hAgrees ⊢
  obtain ⟨outcome, after⟩ := left
  obtain ⟨_, others⟩ := right
  refine ⟨hOutcome, hRuns, ?_⟩
  have hSp : others.sp = after.sp := by
    cases hAgrees
    rfl
  have hDepth : ¬ other.depth < others.depth := by
    have hLength : others.callers = callers := by
      cases hAgrees
      exact hRuns.1
    rw [depth, depth, hLength]
    omega
  simp only [if_neg hDepth]
  exact hAgrees.clear (by simp only [hSp]; exact Nat.le_refl _) _

/-- The two executions have the same outcome, and unless that is a fault, the machines that they
leave agree up to the locals that are not assigned by then. -/
def Lockstep {α : Type} (m : Machine) (assigned : Assigned)
    (left right : Except Stop α × Machine) : Prop :=
  left.1 = right.1 ∧
    (left.1 ≠ .error .fault → left.2.InStep (m.recorded left.2 assigned) right.2)

theorem lockstep_of_beside {frame : Frame} {callers : List Frame} {after : Assigned}
    {left right : Except Stop Unit × Machine}
    (hRecorded : ∀ next : Machine, next.RunsIn frame callers → m.recorded next assigned = after)
    (h : Execution.Beside (AgreesIn (Unassigned (frame :: callers) after) frame callers) left
      right) :
    m.Lockstep assigned left right := by
  obtain ⟨hOutcome, hRuns, hAgrees⟩ := h
  refine ⟨hOutcome, fun _ => ?_⟩
  rw [InStep, hRecorded _ hRuns]
  obtain ⟨hCallers, cursor, hFrame⟩ := hRuns
  rw [hCallers, hFrame, unassigned_moved]
  exact hAgrees

end

section

variable {settings : Settings} {m other : Machine} {assigned : Assigned} {i : Instruction}

/-- Machines that are in step have the same instruction at the cursor and write the same trace
message. -/
theorem InStep.fetched (h : m.InStep assigned other) (settings : Settings) (i : Instruction) :
    AgreesIn (Unassigned (m.frame :: m.callers) assigned) m.frame m.callers (m.fetched settings i)
      (other.fetched settings i) := by
  cases h with
  | intro stack hSize hSlots => exact ⟨⟨rfl, _, rfl⟩, .intro stack hSize hSlots⟩

theorem InStep.atEnd_eq (h : m.InStep assigned other) : other.frame.atEnd = m.frame.atEnd := by
  cases h
  rfl

/-- Machines that are in step hold the same values where the next instruction reads. -/
theorem InStep.read_eq (h : m.InStep assigned other) (hLayered : m.Layered)
    (hCareful : m.Careful assigned) (hNext : m.next? = some i) {slot : Nat}
    (hReads : i.Reads m slot) : m.stack.read slot = other.stack.read slot := by
  obtain ⟨hUsed, hVisible⟩ := hCareful.visible hLayered hNext hReads
  cases h with
  | intro stack hSize hSlots => exact (hSlots slot hUsed hVisible).symm

theorem lockstep_inPlace (h : m.InStep assigned other) (hLayered : m.Layered)
    (hCareful : m.Careful assigned) (hNext : m.next? = some i) (hInPlace : i.InPlace) :
    m.Lockstep assigned (Execution.execute i (m.fetched settings i))
      (Execution.executeClearing i (other.fetched settings i)) := by
  have hFetched := h.fetched settings i
  have hReads : ∀ slot, i.Reads m slot → m.stack.read slot = other.stack.read slot :=
    fun slot => h.read_eq hLayered hCareful hNext
  have hBeside := (likeness_agreesIn _ _ _).execute hFetched hInPlace hReads
  have hClearing : Execution.executeClearing i = Execution.clearing (Execution.execute i) := by
    cases i with
    | setLocal | returnValue => exact absurd hInPlace id
    | _ => rfl
  rw [hClearing]
  refine lockstep_of_beside (recorded_of_stays fun slot hSet => ?_) (beside_clearing ?_ hBeside)
  · rw [hNext] at hSet
    cases hSet
    exact hInPlace
  · cases h
    exact Nat.le_refl _

/-- Where both machines write the same value to a local of the running function, the local is
assigned. -/
theorem lockstep_setLocal {slot : Nat} (h : m.InStep assigned other) (hLayered : m.Layered)
    (hCareful : m.Careful assigned) (hNext : m.next? = some (.setLocal slot)) :
    m.Lockstep assigned (Execution.execute (.setLocal slot) (m.fetched settings (.setLocal slot)))
      (Execution.executeClearing (.setLocal slot) (other.fetched settings (.setLocal slot))) := by
  have hOperands := hCareful.taken_le hLayered hNext
  have hPos : 0 < m.sp := Nat.lt_of_lt_of_le (Nat.succ_pos _) hOperands
  have hValue : m.stack.read (m.sp - 1) = other.stack.read (m.sp - 1) :=
    h.read_eq hLayered hCareful hNext (Or.inl ⟨Nat.le_refl _, by omega⟩)
  cases h with
  | intro stack hSize hSlots =>
      rw [Execution.execute_setLocal slot (by exact hPos),
        Execution.executeClearing_setLocal slot (by exact hPos)]
      simp only [stack_fetched, frame_fetched, sp_fetched, hSize, hValue]
      by_cases hSlot : m.frame.base + slot < m.stack.size
      · rw [if_pos hSlot, if_pos hSlot]
        refine ⟨rfl, fun _ => ?_⟩
        rw [InStep, recorded_setLocal (by rfl) hNext, unassigned_moved]
        refine .intro _ (by simp only [Slots.size_write, Slots.size_clear, hSize])
          fun place hPlace hVisible => ?_
        by_cases hHere : m.frame.base + slot = place
        · rw [hHere, Slots.read_write_self, Slots.read_write_self]
        · simp only at hPlace
          rw [Slots.read_write_of_ne _ hHere, Slots.read_write_of_ne _ hHere, Slots.read_clear,
            if_neg (by omega)]
          exact hSlots place (by omega) fun hHidden => hVisible (unassigned_add hHidden hHere)
      · rw [if_neg hSlot, if_neg hSlot]
        exact ⟨rfl, fun hFault => absurd rfl hFault⟩

/-- Below a function that is left only locals of its callers are hidden. -/
theorem AgreesIn.caller {frame caller : Frame} {callers : List Frame} {left right : Machine}
    (h : AgreesIn (Unassigned (frame :: caller :: callers) assigned) frame (caller :: callers) left
      right) {sp : Nat} (hBelow : sp < frame.base) (hSp : sp ≤ left.sp) :
    AgreesIn (Unassigned (caller :: callers) assigned.tail) caller callers
      { left with frame := caller, callers := callers, sp := sp }
      { right with frame := caller, callers := callers, sp := sp } := by
  refine ⟨⟨rfl, caller.cursor, rfl⟩, ?_⟩
  cases h.2 with
  | intro stack hSize hSlots =>
      refine .intro stack hSize fun slot hSlot hVisible => ?_
      simp only at hSlot
      exact hSlots slot (by omega) fun hHidden => hVisible (unassigned_tail hHidden (by omega))

/-- Leaving a function drops all its locals, assigned or not. -/
theorem lockstep_leave {left right : Machine} (hNext : ∀ slot, m.next? ≠ some (.setLocal slot))
    (hOperands : m.frame.base ≤ left.sp)
    (h : AgreesIn (Unassigned (m.frame :: m.callers) assigned) m.frame m.callers left right)
    (value : Value) :
    m.Lockstep assigned (Execution.leave value left)
      (Execution.clearing (Execution.leave value) right) := by
  have L := likeness_agreesIn (Unassigned (m.frame :: m.callers) assigned) m.frame m.callers
  have hShares := L.shares h
  obtain ⟨hCallers, cursor, hFrame⟩ := h.1
  have hBase : left.frame.base = m.frame.base := by rw [hFrame]
  cases hOuter : m.callers with
  | nil =>
      have hLeft : left.callers = [] := hCallers.trans hOuter
      refine lockstep_of_beside (recorded_of_stays hNext) (beside_clearing ?_ ?_)
      · rw [hOuter]
        exact Nat.zero_le _
      · rw [Execution.leave_of_main hLeft, Execution.leave_of_main (hShares.callers.trans hLeft),
          hShares.frame]
        exact ⟨rfl, L.moved h _⟩
  | cons caller callers =>
      have hLeft : left.callers = caller :: callers := hCallers.trans hOuter
      have hRight : right.callers = caller :: callers := hShares.callers.trans hLeft
      cases hPlace : m.frame.base with
      | zero =>
          have hZero : left.frame.base = 0 := hBase.trans hPlace
          refine lockstep_of_beside (recorded_of_stays hNext) (beside_clearing ?_ ?_)
          · exact Nat.le_of_eq (congrArg List.length (hShares.callers.trans hCallers)).symm
          · rw [Execution.leave_of_base_eq_zero hLeft hZero,
              Execution.leave_of_base_eq_zero hRight (by rw [hShares.frame, hZero])]
            exact ⟨rfl, h⟩
      | succ base =>
          have hSucc : left.frame.base = base + 1 := hBase.trans hPlace
          refine lockstep_of_beside (recorded_of_left hOuter) (beside_clearing ?_ ?_)
          · rw [hRight]
            exact Nat.le_succ _
          · rw [Execution.leave_of_caller hLeft hSucc,
              Execution.leave_of_caller hRight (by rw [hShares.frame, hSucc])]
            rw [hOuter] at h
            exact (likeness_agreesIn _ caller callers).resemblance.pushes value _ _
              (h.caller (by omega) (by omega))

theorem CallsClosure.execute_eq {arguments : Nat} {id : Label} {function : CompiledFunction}
    {free : List Value} (h : m.CallsClosure arguments id function free) :
    Execution.execute (.call arguments) (m.fetched settings (.call arguments)) =
      (.ok (), m.entering settings arguments id function free) :=
  (Execution.step_of_next? h.next).symm.trans h.step_eq

theorem CallsClosure.executeClearing_eq {arguments : Nat} {id : Label}
    {function : CompiledFunction} {free : List Value}
    (h : m.CallsClosure arguments id function free) :
    Execution.executeClearing (.call arguments) (m.fetched settings (.call arguments)) =
      (.ok (),
        { m.entering settings arguments id function free with
          stack := m.stack.clear m.sp (m.sp - arguments + function.locals - m.sp) }) := by
  have hDeeper : depth (m.fetched settings (.call arguments)) <
      depth (m.entering settings arguments id function free) := Nat.lt_succ_self _
  have hClearing : Execution.executeClearing (.call arguments) =
      Execution.clearing (Execution.execute (.call arguments)) := rfl
  rw [hClearing]
  unfold Execution.clearing
  rw [h.execute_eq]
  simp only [if_pos hDeeper]
  rfl

/-- A function that is entered finds the same arguments on both machines. Its other locals are not
assigned, so it does not matter that they are cleared. -/
theorem lockstep_enter {arguments : Nat} {id : Label} {function : CompiledFunction}
    {free : List Value} (h : m.InStep assigned other)
    (hCall : m.CallsClosure arguments id function free)
    (hCallee : other.stack.read (m.sp - 1 - arguments) = .closure id function free) :
    m.Lockstep assigned (Execution.execute (.call arguments) (m.fetched settings (.call arguments)))
      (Execution.executeClearing (.call arguments) (other.fetched settings (.call arguments))) := by
  cases h with
  | intro stack hSize hSlots =>
      have hOther : CallsClosure { m with stack := stack } arguments id function free :=
        ⟨hCall.next, hCall.operands, hCallee, hCall.arity, hCall.room⟩
      rw [hCall.execute_eq, hOther.executeClearing_eq]
      have hRecorded : ∀ next : Machine,
          next.RunsIn ⟨id, function, free, 0, m.sp - arguments⟩ (m.resumed :: m.callers) →
            m.recorded next assigned = [] :: assigned := recorded_of_entered
      refine lockstep_of_beside hRecorded ⟨rfl, ⟨rfl, 0, rfl⟩, ?_⟩
      refine .intro _ ((Slots.size_clear _ _ _).trans hSize) fun slot hSlot hVisible => ?_
      have hArity := hCall.arity
      have hOperands := hCall.operands
      have hSlot : slot < m.sp - arguments + function.locals := hSlot
      by_cases hBeyond : m.sp ≤ slot
      · refine absurd (Or.inl ⟨⟨?_, hSlot⟩, List.not_mem_nil⟩) hVisible
        simp only
        omega
      · rw [Slots.read_clear, if_neg (by simp only; omega)]
        refine hSlots slot (by omega) fun hHidden => hVisible (Or.inr ?_)
        rw [resumed, unassigned_moved]
        exact hHidden

theorem lockstep_call {arguments : Nat} (h : m.InStep assigned other) (hLayered : m.Layered)
    (hCareful : m.Careful assigned) (hNext : m.next? = some (.call arguments)) :
    m.Lockstep assigned (Execution.execute (.call arguments) (m.fetched settings (.call arguments)))
      (Execution.executeClearing (.call arguments) (other.fetched settings (.call arguments))) := by
  have hOperands := hCareful.taken_le hLayered hNext
  have hEnough : arguments < m.sp := by
    simp only [Instruction.taken, Instruction.operands] at hOperands
    omega
  have hReads : ∀ slot, m.sp - (arguments + 1) ≤ slot → slot < m.sp →
      m.stack.read slot = other.stack.read slot :=
    fun slot hLow hHigh => h.read_eq hLayered hCareful hNext (Or.inl ⟨hLow, hHigh⟩)
  by_cases hEnters : ∃ id function free, m.CallsClosure arguments id function free
  · obtain ⟨id, function, free, hCall⟩ := hEnters
    exact lockstep_enter h hCall ((hReads _ (by omega) (by omega)).symm.trans hCall.callee)
  · have hFetched := h.fetched settings (.call arguments)
    refine lockstep_of_beside (recorded_of_stays (by simp [hNext])) (beside_clearing ?_ ?_)
    · cases h
      exact Nat.le_refl _
    · refine (likeness_agreesIn _ _ _).resemblance.call hFetched arguments hReads
        fun id function free _ hCallee => ?_
      obtain ⟨cause, hRefused⟩ := Execution.enter_of_refused (m := m) (fun hEnter =>
        hEnters ⟨id, function, free, hNext, hEnough, hCallee, hEnter.1, hEnter.2⟩) id free
      rw [hRefused (m.fetched settings (.call arguments)) rfl,
        hRefused (other.fetched settings (.call arguments)) (by cases h; rfl)]
      exact ⟨rfl, hFetched⟩

theorem lockstep_returnValue (h : m.InStep assigned other) (hLayered : m.Layered)
    (hCareful : m.Careful assigned) (hNext : m.next? = some .returnValue) :
    m.Lockstep assigned (Execution.execute .returnValue (m.fetched settings .returnValue))
      (Execution.executeClearing .returnValue (other.fetched settings .returnValue)) := by
  have hOperands := hCareful.taken_le hLayered hNext
  have hPos : 0 < m.sp := Nat.lt_of_lt_of_le (Nat.succ_pos _) hOperands
  have hValue : m.stack.read (m.sp - 1) = other.stack.read (m.sp - 1) :=
    h.read_eq hLayered hCareful hNext (Or.inl ⟨Nat.le_refl _, by omega⟩)
  have hSp : other.sp = m.sp := by
    cases h
    rfl
  have hBase : m.frame.base ≤ m.sp - 1 := by
    simp only [Instruction.taken, Instruction.operands] at hOperands
    omega
  have hDropped := (likeness_agreesIn _ _ _).drop (h.fetched settings .returnValue)
    (Nat.sub_le m.sp 1)
  rw [Execution.execute, Execution.executeClearing, Execution.bind_apply, Execution.bind_apply,
    Execution.pop_of_pos (by exact hPos),
    Execution.clearing_pop_of_pos (by rw [sp_fetched, hSp]; exact hPos)]
  simp only [stack_fetched, sp_fetched, hSp, ← hValue]
  exact lockstep_leave (by simp [hNext]) hBase
    ⟨hDropped.1, hDropped.2.clear (Nat.le_refl _) 1⟩ (m.stack.read (m.sp - 1))

theorem lockstep_returnNull (h : m.InStep assigned other) (hLayered : m.Layered)
    (hNext : m.next? = some .returnNull) :
    m.Lockstep assigned (Execution.execute .returnNull (m.fetched settings .returnNull))
      (Execution.executeClearing .returnNull (other.fetched settings .returnNull)) := by
  have hFetched := h.fetched settings .returnNull
  have hBase : m.frame.base ≤ (m.fetched settings .returnNull).sp :=
    Nat.le_trans (Nat.le_add_right _ _) hLayered.operands
  exact lockstep_leave (by simp [hNext]) hBase hFetched .null

/-- A careful step comes out the same whether or not unused slots are cleared. -/
theorem lockstep_step (settings : Settings) (h : m.InStep assigned other) (hLayered : m.Layered)
    (hCareful : m.Careful assigned) :
    m.Lockstep assigned (Execution.step settings m) (Execution.stepClearing settings other) := by
  have hSame : other.next? = m.next? ∧ other.unknown? = m.unknown? := by
    cases h
    exact ⟨rfl, rfl⟩
  unfold Execution.stepClearing
  rw [Execution.bind_apply]
  cases hNext : m.next? with
  | some i =>
      rw [Execution.step_of_next? hNext, Execution.fetch_of_next? (hSame.1.trans hNext)]
      cases i with
      | setLocal slot => exact lockstep_setLocal h hLayered hCareful hNext
      | call arguments => exact lockstep_call h hLayered hCareful hNext
      | returnValue => exact lockstep_returnValue h hLayered hCareful hNext
      | returnNull => exact lockstep_returnNull h hLayered hNext
      | _ => exact lockstep_inPlace h hLayered hCareful hNext trivial
  | none =>
      cases hUnknown : m.unknown? with
      | none =>
          rw [Execution.step_of_missing settings hNext hUnknown,
            Execution.fetch_of_missing settings (hSame.1.trans hNext) (hSame.2.trans hUnknown)]
          exact ⟨rfl, fun hFault => absurd rfl hFault⟩
      | some byte =>
          rw [Execution.step_of_unknown? settings hUnknown,
            Execution.fetch_of_unknown? settings (hSame.2.trans hUnknown)]
          refine lockstep_of_beside (recorded_of_stays (by simp [hNext])) ⟨rfl, ⟨rfl, _, rfl⟩, ?_⟩
          cases h with
          | intro stack hSize hSlots => exact .intro stack hSize hSlots

end

section

variable {settings : Settings} {start m : Machine} {assigned : Assigned} {steps : Nat}

/-- A careful run is matched step by step by one that clears unused slots. -/
theorem CarefulRun.lockstep (run : CarefulRun settings start m assigned steps)
    (hStart : start.Layered) :
    m.Layered ∧ ∃ other, ClearingRunsFor settings start other steps ∧ m.InStep assigned other := by
  induction run with
  | zero =>
      exact ⟨hStart, start, ClearingRunsFor.zero start,
        .intro start.stack rfl fun slot _ _ => rfl⟩
  | @succ m next assigned steps prior hCareful hRunning last ih =>
      obtain ⟨hLayered, other, runClearing, hInStep⟩ := ih
      obtain ⟨hOutcome, hNext⟩ := lockstep_step settings hInStep hLayered hCareful
      obtain ⟨⟨_, otherNext⟩, hClearing⟩ :
        ∃ answer, Execution.stepClearing settings other = answer := ⟨_, rfl⟩
      rw [last, hClearing] at hOutcome hNext
      cases hOutcome
      exact ⟨hLayered.step hCareful last, otherNext,
        ClearingRunsFor.succ runClearing (hInStep.atEnd_eq.trans hRunning) hClearing,
        hNext (by simp)⟩

/-- As long as a run stays careful, it has the same outcome as one that clears unused slots. -/
theorem outcome_runClearing {other : Machine} {rest : Nat}
    (run : CarefulRun settings start m assigned steps) (hLayered : m.Layered)
    (hInStep : m.InStep assigned other)
    (hCareful : ∀ m assigned before, before < steps + rest →
      CarefulRun settings start m assigned before → m.frame.atEnd = false →
      m.Careful assigned) :
    (other.runClearing settings rest).map Prod.fst = (m.run settings rest).map Prod.fst := by
  induction rest generalizing m assigned steps other with
  | zero =>
      rw [Machine.run, runClearing, hInStep.atEnd_eq]
      split <;> rfl
  | succ rest ih =>
      rw [Machine.run, runClearing, hInStep.atEnd_eq]
      cases hEnd : m.frame.atEnd with
      | true => rfl
      | false =>
          have hHere := hCareful m assigned steps (by omega) run hEnd
          obtain ⟨hOutcome, hNext⟩ := lockstep_step settings hInStep hLayered hHere
          obtain ⟨⟨outcome, next⟩, hStep⟩ : ∃ answer, Execution.step settings m = answer := ⟨_, rfl⟩
          obtain ⟨⟨_, otherNext⟩, hClearing⟩ :
            ∃ answer, Execution.stepClearing settings other = answer := ⟨_, rfl⟩
          rw [hStep, hClearing] at hOutcome hNext
          cases hOutcome
          simp only [hStep, hClearing]
          cases outcome with
          | error stop => rfl
          | ok =>
              refine ih (run.succ hHere hEnd hStep) (hLayered.step hHere hStep)
                (hNext (by simp)) ?_
              rw [Nat.add_right_comm, Nat.add_assoc]
              exact hCareful

end

/-- Stale slots do not influence careful code. However long a run of a bundle has gone on, the
machine that clears unused slots has taken as many steps and agrees with it up to the locals that
have not been assigned: it has the same stack pointer, frames, globals and lines printed, and the
same values in all other slots in use. The next step has the same outcome on both, be it an error or
a fault, and unless it is a fault the machines agree afterwards. So a run that stays careful
ends in the same way. -/
theorem careful_runs_ignore_stale_slots (settings : Settings) (bundle : Bundle)
    (globals : Slots) (host : Host) :
    (∀ m assigned steps,
      CarefulRun settings (load bundle globals host) m assigned steps →
      ∃ other, ClearingRunsFor settings (load bundle globals host) other steps ∧
        m.InStep assigned other ∧ (m.Careful assigned → m.Lockstep assigned
          (Execution.step settings m) (Execution.stepClearing settings other))) ∧
    ∀ steps,
      (∀ m assigned before, before < steps →
        CarefulRun settings (load bundle globals host) m assigned before →
        m.frame.atEnd = false → m.Careful assigned) →
      ((load bundle globals host).runClearing settings steps).map Prod.fst =
        ((load bundle globals host).run settings steps).map Prod.fst := by
  have hStart := layered_load bundle globals host
  refine ⟨fun m assigned steps run => ?_, fun steps hCareful => ?_⟩
  · obtain ⟨hLayered, other, runClearing, hInStep⟩ := run.lockstep hStart
    exact ⟨other, runClearing, hInStep, lockstep_step settings hInStep hLayered⟩
  · refine outcome_runClearing CarefulRun.zero hStart
      (.intro _ rfl fun slot _ _ => rfl) ?_
    rw [Nat.zero_add]
    exact hCareful

/-- A function with one argument and one more local, called where another value has been. -/
def reusesSlots : Bundle where
  code := Code.assemble
    [(.pushTrue, []), (.pushTrue, []), (.pushTrue, []), (.pop, []), (.pop, []), (.pop, []),
     (.closure, [0, 0]), (.pushNull, []), (.call, [1]), (.pop, [])]
  constants :=
    [.compiled (.object 0)
      ⟨Code.assemble [(.getLocal, [0]), (.setLocal, [1]), (.getLocal, [1]), (.returnValue, [])],
        2, 1⟩]

/-- When the function has been entered its second local still holds `true`. It is not assigned yet,
and the function assigns it before it reads it, so clearing it makes no difference. -/
theorem reusesSlots_ignores_stale_slots :
    ∃ m other, CarefulRun {} (load reusesSlots { size := 0 } {}) m [[], []] 9 ∧
      ClearingRunsFor {} (load reusesSlots { size := 0 } {}) other 9 ∧
      m.stack.read 2 = .boolean true ∧ Unassigned (m.frame :: m.callers) [[], []] 2 ∧
      m.InStep [[], []] other ∧
      m.Lockstep [[], []] (Execution.step {} m) (Execution.stepClearing {} other) ∧
      ((load reusesSlots { size := 0 } {}).run {} 14).map Prod.fst = some (.ok ()) ∧
      ((load reusesSlots { size := 0 } {}).runClearing {} 14).map Prod.fst = some (.ok ()) := by
  have run : CarefulRun {} (load reusesSlots { size := 0 } {}) _ _ 9 :=
    carefulRun_after (by decide +kernel)
  have hCareful : ∀ before < 14,
      (after {} (load reusesSlots { size := 0 } {}) before).Careful
        (assignedAfter {} (load reusesSlots { size := 0 } {}) before) := by decide +kernel
  obtain ⟨hRuns, hOutcome⟩ :=
    careful_runs_ignore_stale_slots {} reusesSlots { size := 0 } {}
  obtain ⟨other, runClearing, hInStep, hLockstep⟩ := hRuns _ _ 9 run
  have hSame := hOutcome 14 fun m assigned before hBefore run _ => by
    obtain ⟨rfl, rfl⟩ := run.eq_after
    exact hCareful before hBefore
  have runAll : RunsFor {} (fun _ => True) (load reusesSlots { size := 0 } {})
      (after {} (load reusesSlots { size := 0 } {}) 14) 14 := runsFor_after (by decide +kernel)
  have hRun := (runAll.run_add 0).trans (run_of_atEnd (by decide +kernel) 0)
  have hEnd : ((load reusesSlots { size := 0 } {}).run {} 14).map Prod.fst = some (.ok ()) :=
    congrArg (Option.map Prod.fst) hRun
  have hAssigned : assignedAfter {} (load reusesSlots { size := 0 } {}) 9 = [[], []] := by
    decide +kernel
  have hHere := hLockstep (hCareful 9 (by decide))
  rw [hAssigned] at run hInStep hHere
  refine ⟨_, other, run, runClearing, by rfl, Or.inl ⟨⟨?_, ?_⟩, List.not_mem_nil⟩, hInStep, hHere,
    hEnd, hSame.trans hEnd⟩
  all_goals decide +kernel

end Machine

end Tandem
