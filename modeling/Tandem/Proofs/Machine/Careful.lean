import Tandem.Proofs.Machine.SideBySide
/-!
Careful runs. A function keeps to its own operands, writes to its own locals only and assigns a
local before it reads it; arguments count as assigned. Which locals have been assigned is recorded
on the way, for each frame on its own, so that a call inside a call starts anew and a return finds
what was assigned before.
-/
namespace Tandem

/-- The local slots that have been assigned so far: one list for each frame, that of the running
function first. -/
abbrev Assigned := List (List Nat)

/-- What is assigned once the running function has written to one of its locals. -/
def Assigned.add (slot : Nat) : Assigned → Assigned
  | [] => []
  | own :: callers => (slot :: own) :: callers

/-- The slot is one of those that the function reserves for locals beyond its arguments. -/
def Frame.Reserves (frame : Frame) (slot : Nat) : Prop :=
  frame.base + frame.function.parameters ≤ slot ∧ slot < frame.base + frame.function.locals

/-- The slot belongs to a local of one of the frames that has not been assigned yet. -/
def Unassigned : List Frame → Assigned → Nat → Prop
  | frame :: callers, own :: assigned, slot =>
    (frame.Reserves slot ∧ slot - frame.base ∉ own) ∨ Unassigned callers assigned slot
  | _, _, _ => False

/-- What is asked of an instruction of a function whose locals `own` have been assigned: it takes an
even number of keys and values, it writes to its own locals only, and it reads only those that are
arguments or have been assigned. -/
def Instruction.Careful (function : CompiledFunction) (own : List Nat) : Instruction → Prop
  | hash count => count % 2 = 0
  | setLocal slot => slot < function.locals
  | getLocal slot => slot < function.locals ∧ (slot < function.parameters ∨ slot ∈ own)
  | _ => True

instance (function : CompiledFunction) (own : List Nat) :
    (i : Instruction) → Decidable (i.Careful function own)
  | .hash count => inferInstanceAs (Decidable (count % 2 = 0))
  | .setLocal slot => inferInstanceAs (Decidable (slot < function.locals))
  | .getLocal slot => inferInstanceAs
      (Decidable (slot < function.locals ∧ (slot < function.parameters ∨ slot ∈ own)))
  | .constant _ | .pop | .boolean _ | .null | .arithmetic _ | .comparison _ | .negate | .not
  | .jumpUnlessTruthy _ | .jump _ | .getGlobal _ | .setGlobal _ | .getBuiltin _ | .getFree _
  | .array _ | .index | .call _ | .returnValue | .returnNull | .closure _ _
  | .currentClosure => isTrue trivial

namespace Execution

/-- A closure is made of nothing but a function. -/
theorem exists_compiled_of_closure {m next : Machine} {place free : Nat}
    (h : closure place free m = (.ok (), next)) :
    ∃ id function, m.constants[place]? = some (.compiled id function) := by
  unfold closure at h
  rw [get_bind] at h
  cases hEntry : m.constants[place]? with
  | none =>
      rw [hEntry] at h
      cases h
  | some value =>
      rw [hEntry] at h
      cases value with
      | compiled id function => exact ⟨id, function, rfl⟩
      | _ => cases h

end Execution

namespace Machine

/-- The next instruction takes its operands from above the locals of its function, and is careful
with the locals. -/
structure Careful (m : Machine) (assigned : Assigned) : Prop where
  operands : ∀ i, m.next? = some i → i.taken m = 0 ∨
    m.frame.base + m.frame.function.locals + i.taken m ≤ m.sp
  instruction : ∀ i, m.next? = some i → i.Careful m.frame.function (assigned.headD [])

instance (m : Machine) (assigned : Assigned) : Decidable (m.Careful assigned) :=
  decidable_of_iff
    ((∀ i ∈ m.next?, i.taken m = 0 ∨
        m.frame.base + m.frame.function.locals + i.taken m ≤ m.sp) ∧
      ∀ i ∈ m.next?, i.Careful m.frame.function (assigned.headD []))
    ⟨fun h => ⟨h.1, h.2⟩, fun h => ⟨h.operands, h.instruction⟩⟩

/-- The locals that are assigned once a step has led to `next`. -/
def recorded (m next : Machine) (assigned : Assigned) : Assigned :=
  if m.depth < next.depth then [] :: assigned
  else if next.depth < m.depth then assigned.tail
  else
    match m.next? with
    | some (.setLocal slot) => assigned.add slot
    | _ => assigned

/-- A careful run of `steps` steps, with the locals that it has assigned. -/
inductive CarefulRun (settings : Settings) (start : Machine) :
    Machine → Assigned → Nat → Prop where
  | zero : CarefulRun settings start start [[]] 0
  | succ {m next : Machine} {assigned : Assigned} {steps : Nat}
      (prior : CarefulRun settings start m assigned steps)
      (hCareful : m.Careful assigned) (hRunning : m.frame.atEnd = false)
      (last : Execution.step settings m = (.ok (), next)) :
      CarefulRun settings start next (m.recorded next assigned) (steps + 1)

/-- Every frame starts above the locals of those below it, and the operands of the running function
lie above its own. -/
structure Layered (m : Machine) : Prop where
  frame : ∀ outer ∈ m.callers, outer.base + outer.function.locals < m.frame.base
  callers : m.callers.Pairwise fun inner outer =>
    outer.base + outer.function.locals < inner.base
  operands : m.frame.base + m.frame.function.locals ≤ m.sp

section

variable {settings : Settings} {m next : Machine}

theorem layered_load (bundle : Bundle) (globals : Slots) (host : Host) :
    (load bundle globals host).Layered :=
  ⟨fun _ h => absurd h List.not_mem_nil, List.Pairwise.nil, Nat.le_refl _⟩

/-- The operands of a careful instruction lie above the locals. -/
theorem Careful.taken_le {assigned : Assigned} {i : Instruction} (hCareful : m.Careful assigned)
    (h : m.Layered) (hNext : m.next? = some i) :
    m.frame.base + m.frame.function.locals + i.taken m ≤ m.sp := by
  rcases hCareful.operands i hNext with hZero | hOwn
  · rw [hZero]
    exact h.operands
  · exact hOwn

/-- An instruction that goes through gets to all its operands. -/
theorem taken_of_step {i : Instruction} (hNext : m.next? = some i)
    (hStep : Execution.step settings m = (.ok (), next)) : i.taken m = i.operands := by
  cases i with
  | closure place free =>
      rw [Execution.step_of_next? hNext] at hStep
      obtain ⟨id, function, hEntry⟩ := Execution.exists_compiled_of_closure hStep
      have hHere : m.constants[place]? = some (.compiled id function) := hEntry
      rw [Instruction.taken, hHere]
      rfl
  | _ => rfl

theorem Layered.step {assigned : Assigned} (h : m.Layered) (hCareful : m.Careful assigned)
    (hStep : Execution.step settings m = (.ok (), next)) : next.Layered := by
  obtain ⟨i, hNext, hEffect⟩ := Execution.effect_of_step hStep
  have hOperands := hCareful.taken_le h hNext
  rw [taken_of_step hNext hStep] at hOperands
  cases hEffect with
  | result value host hResult hEnough hRoom hMade =>
      refine ⟨h.frame, h.callers, ?_⟩
      simp only [sp_fetched, frame_fetched]
      omega
  | drop hOperand => exact ⟨h.frame, h.callers, Nat.le_sub_of_add_le hOperands⟩
  | jump target => exact ⟨h.frame, h.callers, h.operands⟩
  | stay target hOperand hTruthy =>
      exact ⟨h.frame, h.callers, Nat.le_sub_of_add_le hOperands⟩
  | branch target hOperand hTruthy =>
      exact ⟨h.frame, h.callers, Nat.le_sub_of_add_le hOperands⟩
  | setGlobal slot hOperand hSlot =>
      exact ⟨h.frame, h.callers, Nat.le_sub_of_add_le hOperands⟩
  | setLocal slot hOperand hSlot =>
      exact ⟨h.frame, h.callers, Nat.le_sub_of_add_le hOperands⟩
  | enter arguments id function free hEnough hCallee hArity hRoom =>
      simp only [Instruction.operands] at hOperands
      refine ⟨fun outer hOuter => ?_, List.pairwise_cons.mpr ⟨h.frame, h.callers⟩, Nat.le_refl _⟩
      have hBelow : outer.base + outer.function.locals ≤
          m.frame.base + m.frame.function.locals := by
        rcases List.mem_cons.mp hOuter with rfl | hOther
        · exact Nat.le_refl _
        · have hFrame := h.frame outer hOther
          omega
      simp only [sp_fetched]
      omega
  | leave caller callers hLeaves hCallers hBase hRoom =>
      rw [callers_fetched] at hCallers
      have hFrame := h.frame
      have hRest := h.callers
      rw [hCallers] at hFrame hRest
      obtain ⟨hCaller, hCallersRest⟩ := List.pairwise_cons.mp hRest
      exact ⟨hCaller, hCallersRest, Nat.le_of_lt (hFrame caller List.mem_cons_self)⟩
  | finish hLeaves hCallers =>
      exact ⟨h.frame, h.callers, Nat.le_sub_of_add_le hOperands⟩

end

section

variable {m : Machine} {assigned : Assigned} {slot : Nat}

theorem exists_frame_of_unassigned {frames : List Frame} (h : Unassigned frames assigned slot) :
    ∃ frame ∈ frames, slot < frame.base + frame.function.locals := by
  induction frames generalizing assigned with
  | nil => exact absurd h id
  | cons frame callers ih =>
      cases assigned with
      | nil => exact absurd h id
      | cons own assigned =>
          rcases h with ⟨hReserved, _⟩ | hCallers
          · exact ⟨frame, List.mem_cons_self, hReserved.2⟩
          · obtain ⟨outer, hOuter, hSlot⟩ := ih hCallers
            exact ⟨outer, List.mem_cons_of_mem _ hOuter, hSlot⟩

/-- The locals of the callers lie below the running function. -/
theorem Layered.lt_base (h : m.Layered) (hSlot : Unassigned m.callers assigned slot) :
    slot < m.frame.base := by
  obtain ⟨outer, hOuter, hLocal⟩ := exists_frame_of_unassigned hSlot
  exact Nat.lt_trans hLocal (h.frame outer hOuter)

/-- No local lies among the operands of the running function. -/
theorem Layered.lt_operands (h : m.Layered)
    (hSlot : Unassigned (m.frame :: m.callers) assigned slot) :
    slot < m.frame.base + m.frame.function.locals := by
  obtain ⟨frame, hFrame, hLocal⟩ := exists_frame_of_unassigned hSlot
  rcases List.mem_cons.mp hFrame with rfl | hOuter
  · exact hLocal
  · have hBelow := h.frame frame hOuter
    omega

/-- Where the cursor of a frame stands does not matter. -/
theorem unassigned_moved (frame : Frame) (callers : List Frame) (assigned : Assigned)
    (cursor : Nat) :
    Unassigned ({ frame with cursor := cursor } :: callers) assigned =
      Unassigned (frame :: callers) assigned := by
  cases assigned <;> rfl

/-- A local that was not assigned before is assigned afterwards only if it is the one written to. -/
theorem unassigned_add {frame : Frame} {callers : List Frame} {place : Nat}
    (hSlot : Unassigned (frame :: callers) assigned slot) (hOther : frame.base + place ≠ slot) :
    Unassigned (frame :: callers) (assigned.add place) slot := by
  cases assigned with
  | nil => exact absurd hSlot id
  | cons own assigned =>
      rcases hSlot with ⟨hReserved, hOwn⟩ | hCallers
      · refine Or.inl ⟨hReserved, fun hMem => ?_⟩
        rcases List.mem_cons.mp hMem with hHere | hBefore
        · have hBeyond := hReserved.1
          omega
        · exact hOwn hBefore
      · exact Or.inr hCallers

/-- Below a function only locals of its callers are unassigned. -/
theorem unassigned_tail {frame : Frame} {callers : List Frame}
    (hSlot : Unassigned (frame :: callers) assigned slot) (hBelow : slot < frame.base) :
    Unassigned callers assigned.tail slot := by
  cases assigned with
  | nil => exact absurd hSlot id
  | cons own assigned =>
      rcases hSlot with ⟨hReserved, _⟩ | hCallers
      · have hBeyond := hReserved.1
        omega
      · exact hCallers

/-- A careful instruction reads no local that has not been assigned, and nothing above the
stack. -/
theorem Careful.visible {i : Instruction} (hCareful : m.Careful assigned)
    (h : m.Layered) (hNext : m.next? = some i) (hReads : i.Reads m slot) :
    slot < m.sp ∧ ¬ Unassigned (m.frame :: m.callers) assigned slot := by
  have hOperands := hCareful.taken_le h hNext
  have hInstruction := hCareful.instruction i hNext
  rcases hReads with ⟨hLow, hHigh⟩ | hOther
  · refine ⟨hHigh, fun hSlot => ?_⟩
    have hLocal := h.lt_operands hSlot
    omega
  · cases i with
    | getLocal place =>
        obtain ⟨hLocal, hAssigned⟩ := hInstruction
        have hEnough := h.operands
        subst hOther
        refine ⟨by omega, fun hSlot => ?_⟩
        cases assigned with
        | nil => exact hSlot
        | cons own assigned =>
            rcases hSlot with ⟨hReserved, hOwn⟩ | hCallers
            · rw [Nat.add_sub_cancel_left] at hOwn
              rcases hAssigned with hArgument | hMem
              · have hBeyond := hReserved.1
                omega
              · exact hOwn hMem
            · have hBelow := h.lt_base hCallers
              omega
    | hash count =>
        have hEven : count % 2 = 0 := hInstruction
        omega
    | _ => exact absurd hOther id

/-- The machine runs in these frames, wherever the cursor of the running one stands. -/
def RunsIn (frame : Frame) (callers : List Frame) (m : Machine) : Prop :=
  m.callers = callers ∧ ∃ cursor, m.frame = { frame with cursor := cursor }

theorem RunsIn.depth_eq {next : Machine} {frame : Frame} {callers : List Frame}
    (h : next.RunsIn frame callers) : next.depth = callers.length + 1 := by
  rw [depth, h.1]

/-- Nothing new is recorded where frames stay and no local is written. -/
theorem recorded_of_stays (hNext : ∀ slot, m.next? ≠ some (.setLocal slot)) (next : Machine)
    (hRuns : next.RunsIn m.frame m.callers) : m.recorded next assigned = assigned := by
  unfold recorded
  rw [hRuns.depth_eq, depth, if_neg (Nat.lt_irrefl _), if_neg (Nat.lt_irrefl _)]
  split
  · rename_i hSet
    exact absurd hSet (hNext _)
  · rfl

/-- What was recorded for a function is dropped when it is left. -/
theorem recorded_of_left {caller : Frame} {callers : List Frame}
    (hCallers : m.callers = caller :: callers) (next : Machine)
    (hRuns : next.RunsIn caller callers) : m.recorded next assigned = assigned.tail := by
  have hDepth : m.depth = callers.length + 1 + 1 := by rw [depth, hCallers, List.length_cons]
  unfold recorded
  rw [hRuns.depth_eq, hDepth, if_neg (by omega), if_pos (by omega)]

/-- A function that has just been entered has assigned nothing. -/
theorem recorded_of_entered {frame : Frame} {cursor : Nat} (next : Machine)
    (hRuns : next.RunsIn frame ({ m.frame with cursor := cursor } :: m.callers)) :
    m.recorded next assigned = [] :: assigned := by
  unfold recorded
  rw [hRuns.depth_eq, depth, List.length_cons, if_pos (by omega)]

theorem recorded_setLocal {next : Machine} {slot : Nat} (hDepth : next.depth = m.depth)
    (hNext : m.next? = some (.setLocal slot)) :
    m.recorded next assigned = assigned.add slot := by
  unfold recorded
  rw [hDepth, if_neg (Nat.lt_irrefl _), if_neg (Nat.lt_irrefl _), hNext]

end

def assignedAfter (settings : Settings) (start : Machine) : (steps : Nat) → Assigned
  | 0 => [[]]
  | steps + 1 => (start.after settings steps).recorded (start.after settings (steps + 1))
      (start.assignedAfter settings steps)

theorem carefulRun_after {settings : Settings} {start : Machine} {steps : Nat}
    (h : ∀ before < steps,
      (start.after settings before).Careful (start.assignedAfter settings before) ∧
      (start.after settings before).frame.atEnd = false ∧
      (Execution.step settings (start.after settings before)).1.isOk = true) :
    CarefulRun settings start (start.after settings steps)
      (start.assignedAfter settings steps) steps := by
  induction steps with
  | zero => exact CarefulRun.zero
  | succ steps ih =>
      obtain ⟨hCareful, hRunning, hOk⟩ := h steps (Nat.lt_succ_self steps)
      exact CarefulRun.succ (ih fun before hBefore => h before (Nat.lt_succ_of_lt hBefore))
        hCareful hRunning (step_eq_of_isOk hOk)

/-- There is only one run of a number of steps. -/
theorem CarefulRun.eq_after {settings : Settings} {start m : Machine} {assigned : Assigned}
    {steps : Nat} (run : CarefulRun settings start m assigned steps) :
    m = start.after settings steps ∧ assigned = start.assignedAfter settings steps := by
  induction run with
  | zero => exact ⟨rfl, rfl⟩
  | @succ m next assigned steps prior _ _ last ih =>
      obtain ⟨rfl, rfl⟩ := ih
      have hNext : next = start.after settings (steps + 1) := (congrArg Prod.snd last).symm
      subst hNext
      exact ⟨rfl, rfl⟩

/-- Whatever the run comes to, the next instruction is careful. -/
def StaysCareful (settings : Settings) (start : Machine) : Prop :=
  ∀ m assigned steps, CarefulRun settings start m assigned steps → m.frame.atEnd = false →
    m.Careful assigned

section

variable {settings : Settings} {start m : Machine} {assigned : Assigned} {steps : Nat}

theorem StaysCareful.carefulRun (h : StaysCareful settings start)
    (run : RunsFor settings (fun _ => True) start m steps) :
    ∃ assigned, CarefulRun settings start m assigned steps := by
  induction run with
  | zero => exact ⟨_, CarefulRun.zero⟩
  | succ prior _ hRunning last ih =>
      obtain ⟨assigned, run⟩ := ih
      exact ⟨_, CarefulRun.succ run (h _ _ _ run hRunning) hRunning last⟩

theorem CarefulRun.running (run : CarefulRun settings start m assigned steps) {before : Nat}
    (hBefore : before < steps) : (start.after settings before).frame.atEnd = false := by
  induction run with
  | zero => exact absurd hBefore (Nat.not_lt_zero _)
  | succ prior _ hRunning _ ih =>
      rcases Nat.lt_succ_iff_lt_or_eq.mp hBefore with hEarlier | rfl
      · exact ih hEarlier
      · rw [← prior.eq_after.1]
        exact hRunning

/-- A run that comes to its end stays careful if all its steps are. -/
theorem staysCareful_of_after (steps : Nat)
    (h : ∀ before < steps, (start.after settings before).Careful
      (start.assignedAfter settings before))
    (hEnd : (start.after settings steps).frame.atEnd = true) : StaysCareful settings start := by
  intro m assigned taken run hRunning
  obtain ⟨rfl, rfl⟩ := run.eq_after
  refine h taken (Nat.lt_of_not_le fun hBeyond => ?_)
  have hStill : (start.after settings steps).frame.atEnd = false := by
    rcases Nat.lt_or_eq_of_le hBeyond with hEarlier | rfl
    · exact run.running hEarlier
    · exact hRunning
  rw [hEnd] at hStill
  cases hStill

end

end Machine

end Tandem
