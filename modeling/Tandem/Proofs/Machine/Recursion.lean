import Tandem.Proofs.Machine.Effect
/-!
Bounded recursion. A run is balanced if every instruction takes its operands from above the
locals of the running function. In a balanced run each call starts above everything that its
callers own, so there are at most as many frames as the stack has room for. If jumps lead forward
as well, the run is finite: every frame passes through its function once, and the number of steps
is bounded by the length of the longest function.
-/
namespace Tandem.Machine

/-- The next instruction takes its operands from slots above the arguments and locals of the
running function only. -/
def TakesOwn (m : Machine) : Prop :=
  ∀ i, m.next? = some i → i.operands = 0 ∨
    m.frame.base + m.frame.function.locals + i.operands ≤ m.sp

instance (m : Machine) : Decidable m.TakesOwn :=
  inferInstanceAs (Decidable (∀ i ∈ m.next?, i.operands = 0 ∨
    m.frame.base + m.frame.function.locals + i.operands ≤ m.sp))

/-- If the next instruction jumps, it jumps beyond the offset at which it stands. -/
def JumpsForward (m : Machine) : Prop :=
  (∀ target, m.next? = some (.jump target) → m.frame.cursor < target) ∧
    ∀ target, m.next? = some (.jumpUnlessTruthy target) →
      (m.stack.read (m.sp - 1)).isTruthy = false → m.frame.cursor < target

/-- The first slots of all frames, that of the running function first. -/
def bases (m : Machine) : List Nat := m.frame.base :: m.callers.map Frame.base

/-- Every frame starts above the one that waits for it, and within the stack. -/
structure Nested (m : Machine) : Prop where
  decreasing : m.bases.Pairwise (· > ·)
  base_le : m.frame.base ≤ stackSize

theorem length_le_of_pairwise_gt {base : Nat} {bases : List Nat}
    (h : (base :: bases).Pairwise (· > ·)) : bases.length ≤ base := by
  induction bases generalizing base with
  | nil => exact Nat.zero_le base
  | cons next rest ih =>
      obtain ⟨hAbove, hRest⟩ := List.pairwise_cons.mp h
      have hNext : next < base := hAbove next List.mem_cons_self
      have hLength := ih hRest
      simp only [List.length_cons]
      omega

theorem Nested.callers_length_le {m : Machine} (h : m.Nested) : m.callers.length ≤ stackSize := by
  have hLength := length_le_of_pairwise_gt h.decreasing
  rw [List.length_map] at hLength
  exact Nat.le_trans hLength h.base_le

theorem nested_load (bundle : Bundle) (globals : Slots) (host : Host) :
    (load bundle globals host).Nested :=
  ⟨List.pairwise_singleton _ _, Nat.zero_le _⟩

section

variable {settings : Settings} {m next : Machine}

/-- A call starts above its callee, which lies above everything that the caller owns. -/
theorem Nested.step (h : m.Nested) (hOwn : m.TakesOwn)
    (hStep : Execution.step settings m = (.ok (), next)) : next.Nested := by
  obtain ⟨i, hNext, hEffect⟩ := Execution.effect_of_step hStep
  cases hEffect with
  | enter arguments id function free hOperands hCallee hArity hRoom =>
      rw [sp_fetched] at hOperands hRoom
      have hAbove : m.frame.base < m.sp - arguments := by
        rcases hOwn _ hNext with hZero | hOwn
        · cases hZero
        · simp only [Instruction.operands] at hOwn
          omega
      refine ⟨List.pairwise_cons.mpr ⟨?_, h.decreasing⟩, ?_⟩
      · intro base hBase
        have hOld : base ≤ m.frame.base := by
          rcases List.mem_cons.mp hBase with hHere | hOther
          · exact Nat.le_of_eq hHere
          · exact Nat.le_of_lt ((List.pairwise_cons.mp h.decreasing).1 base hOther)
        exact Nat.lt_of_le_of_lt hOld hAbove
      · simp only [sp_fetched]
        omega
  | leave caller callers hLeaves hCallers hBase hRoom =>
      rw [callers_fetched] at hCallers
      have hDecreasing :
          (m.frame.base :: caller.base :: callers.map Frame.base).Pairwise (· > ·) := by
        have hAll := h.decreasing
        rw [bases, hCallers] at hAll
        exact hAll
      obtain ⟨hAbove, hRest⟩ := List.pairwise_cons.mp hDecreasing
      have hCaller : caller.base < m.frame.base := hAbove _ List.mem_cons_self
      exact ⟨hRest, Nat.le_trans (Nat.le_of_lt hCaller) h.base_le⟩
  | _ => exact ⟨h.decreasing, h.base_le⟩

theorem nested_of_runsFor {allowed : Machine → Prop} {start finish : Machine} {steps : Nat}
    (run : RunsFor settings allowed start finish steps)
    (hOwn : ∀ m, allowed m → m.TakesOwn) (hStart : start.Nested) : finish.Nested :=
  run.invariant hStart fun m _ hAllowed _ hStep h => h.step (hOwn m hAllowed) hStep

end

/-- Code in a value, be it compiled only or a closure, is no longer than `length` bytes. -/
def CodeWithin (length : Nat) : Value → Prop
  | .compiled _ function => function.code.size ≤ length
  | .closure _ function _ => function.code.size ≤ length
  | _ => True

theorem admitsData_codeWithin (length : Nat) : Value.AdmitsData (CodeWithin length) := by
  intro value hCode
  cases value with
  | compiled id function => cases hCode
  | closure id function free => cases hCode
  | _ => trivial

theorem CodeWithin.mono {shorter longer : Nat} (h : shorter ≤ longer) {value : Value}
    (hValue : value.Throughout (CodeWithin shorter)) : value.Throughout (CodeWithin longer) := by
  refine hValue.mono fun part hPart => ?_
  cases part with
  | compiled id function => exact Nat.le_trans hPart h
  | closure id function free => exact Nat.le_trans hPart h
  | _ => trivial

theorem exists_codeWithin_forall (values : List Value)
    (h : ∀ value ∈ values, ∃ length, value.Throughout (CodeWithin length)) :
    ∃ length, ∀ value ∈ values, value.Throughout (CodeWithin length) := by
  induction values with
  | nil => exact ⟨0, fun value hValue => absurd hValue List.not_mem_nil⟩
  | cons first rest ih =>
      obtain ⟨firstLength, hFirst⟩ := h first List.mem_cons_self
      obtain ⟨restLength, hRest⟩ := ih fun value hValue => h value (List.mem_cons_of_mem _ hValue)
      refine ⟨max firstLength restLength, fun value hValue => ?_⟩
      rcases List.mem_cons.mp hValue with rfl | hOther
      · exact CodeWithin.mono (Nat.le_max_left _ _) hFirst
      · exact CodeWithin.mono (Nat.le_max_right _ _) (hRest value hOther)

theorem exists_codeWithin (value : Value) :
    ∃ length, value.Throughout (CodeWithin length) := by
  obtain ⟨partLength, hParts⟩ := exists_codeWithin_forall value.parts fun part hPart =>
    have := Value.sizeOf_lt_of_mem_parts hPart
    exists_codeWithin part
  have hHere : ∃ length, CodeWithin length value := by
    cases value with
    | compiled id function => exact ⟨function.code.size, Nat.le_refl _⟩
    | closure id function free => exact ⟨function.code.size, Nat.le_refl _⟩
    | _ => exact ⟨0, trivial⟩
  obtain ⟨length, hHere⟩ := hHere
  refine ⟨max length partLength, Value.Throughout.intro ?_ fun part hPart =>
    CodeWithin.mono (Nat.le_max_right _ _) (hParts part hPart)⟩
  cases value with
  | compiled id function => exact Nat.le_trans hHere (Nat.le_max_left _ _)
  | closure id function free => exact Nat.le_trans hHere (Nat.le_max_left _ _)
  | _ => trivial
termination_by sizeOf value

/-- No function that a bundle can come to run over the given globals is longer than `length`
bytes: not the top-level stream, and none that is found in the pool or in the globals, however
deep inside other values. -/
structure LongestWithin (length : Nat) (bundle : Bundle) (globals : Slots) : Prop where
  code : bundle.code.size ≤ length
  constants : ∀ value ∈ bundle.constants, value.Throughout (CodeWithin length)
  globals : ∀ slot, (globals.read slot).Throughout (CodeWithin length)

theorem LongestWithin.allValues {length : Nat} {bundle : Bundle} {globals : Slots}
    (h : LongestWithin length bundle globals) (host : Host) :
    (load bundle globals host).AllValues (CodeWithin length) :=
  allValues_load (admitsData_codeWithin length) h.constants h.globals (fun _ => h.code) host

/-- A closure that is made of a pool entry is no longer than the entry. -/
theorem AllValues.makesClosures_codeWithin {length : Nat} {m : Machine}
    (h : m.AllValues (CodeWithin length)) (i : Instruction) :
    m.MakesClosures (CodeWithin length) i := by
  intro index free id function _ hEntry label values _
  exact (h.constants _ (List.mem_of_getElem? hEntry)).here

end Tandem.Machine

namespace Tandem

/-- The offsets that the function has not passed yet, if its cursor only moves forward. -/
def Frame.remaining (frame : Frame) : Nat := frame.function.code.size - frame.cursor

theorem Frame.remaining_pos {frame : Frame} (h : frame.atEnd = false) : 0 < frame.remaining := by
  have hCursor : ¬ frame.function.code.size ≤ frame.cursor := of_decide_eq_false h
  unfold Frame.remaining
  omega

namespace Machine

/-- A bound on the steps between a call and the return from it, where functions are no longer than
`length` and `room` more frames can be opened. Each offset of the function is passed once and
costs a step and perhaps a call. -/
def callBound (length : Nat) : (room : Nat) → Nat
  | 0 => 0
  | room + 1 => length * (callBound length room + 1)

/-- A bound on the steps of a whole balanced run that only jumps forward. -/
def stepBound (length : Nat) : Nat := callBound length (stackSize + 1)

/-- A bound on the steps that frames have left, the running one first. -/
def pendingOf (length : Nat) : List Frame → Nat
  | [] => 0
  | frame :: callers =>
    frame.remaining * (callBound length (stackSize - callers.length) + 1) +
      pendingOf length callers

def pending (length : Nat) (m : Machine) : Nat := pendingOf length (m.frame :: m.callers)

/-- A frame that moves on pays for a step and for one call. -/
theorem pendingOf_add_callBound_lt {length : Nat} {before after : Frame} (callers : List Frame)
    (h : after.remaining < before.remaining) :
    pendingOf length (after :: callers) + callBound length (stackSize - callers.length) <
      pendingOf length (before :: callers) := by
  have hMul := Nat.mul_le_mul_right (callBound length (stackSize - callers.length) + 1) h
  rw [Nat.succ_mul] at hMul
  simp only [pendingOf]
  omega

theorem pendingOf_lt {length : Nat} {before after : Frame} (callers : List Frame)
    (h : after.remaining < before.remaining) :
    pendingOf length (after :: callers) < pendingOf length (before :: callers) := by
  have hPaid : pendingOf length (after :: callers) + callBound length (stackSize - callers.length) <
      pendingOf length (before :: callers) := pendingOf_add_callBound_lt callers h
  omega

/-- What a new frame has left is no more than one call costs. -/
theorem pendingOf_entered_le {length : Nat} {entered caller : Frame} {callers : List Frame}
    (hLength : entered.function.code.size ≤ length) (hRoom : callers.length < stackSize) :
    pendingOf length (entered :: caller :: callers) ≤
      callBound length (stackSize - callers.length) + pendingOf length (caller :: callers) := by
  have hRemaining : entered.remaining ≤ length := Nat.le_trans (Nat.sub_le _ _) hLength
  have hBelow : stackSize - callers.length =
      stackSize - (caller :: callers).length + 1 := by
    simp only [List.length_cons]
    omega
  have hMul := Nat.mul_le_mul_right
    (callBound length (stackSize - (caller :: callers).length) + 1) hRemaining
  rw [hBelow, callBound, pendingOf]
  omega

theorem callBound_succ (length room : Nat) :
    callBound length (room + 1) = length * (callBound length room + 1) := rfl

theorem pendingOf_singleton (length : Nat) (frame : Frame) :
    pendingOf length [frame] = frame.remaining * (callBound length stackSize + 1) := by
  rw [pendingOf, pendingOf, List.length_nil, Nat.sub_zero, Nat.add_zero]

theorem pending_load_le {length : Nat} {bundle : Bundle} (h : bundle.code.size ≤ length)
    (globals : Slots) (host : Host) :
    (load bundle globals host).pending length ≤ stepBound length := by
  have hMain : (load bundle globals host).frame.remaining ≤ length := h
  have hCallers : (load bundle globals host).callers = [] := rfl
  rw [pending, hCallers, pendingOf_singleton, stepBound, callBound_succ]
  exact Nat.mul_le_mul_right _ hMain

section

variable {settings : Settings} {m next : Machine} {length : Nat}

/-- Moving the cursor on leaves less of the function. -/
theorem remaining_moved_lt {frame : Frame} {cursor : Nat} (hRunning : frame.atEnd = false)
    (h : frame.cursor < cursor) :
    Frame.remaining { frame with cursor := cursor } < frame.remaining := by
  have hCursor : ¬ frame.function.code.size ≤ frame.cursor := of_decide_eq_false hRunning
  simp only [Frame.remaining]
  omega

/-- Each step of a balanced run without jumps back leaves fewer steps. -/
theorem pending_step_lt (hOwn : m.TakesOwn) (hForward : m.JumpsForward)
    (hRunning : m.frame.atEnd = false) (hStep : Execution.step settings m = (.ok (), next))
    (hNested : m.Nested) (hValues : m.AllValues (CodeWithin length)) :
    next.pending length < m.pending length := by
  have hNextNested := hNested.step hOwn hStep
  obtain ⟨i, hNext, hEffect⟩ := Execution.effect_of_step hStep
  have hFall : Frame.remaining { m.frame with cursor := m.frame.cursor + i.length } <
      m.frame.remaining := remaining_moved_lt hRunning (Nat.lt_add_of_pos_right i.length_pos)
  cases hEffect with
  | jump target => exact pendingOf_lt _ (remaining_moved_lt hRunning (hForward.1 target hNext))
  | branch target hOperand hTruthy =>
      exact pendingOf_lt _ (remaining_moved_lt hRunning (hForward.2 target hNext hTruthy))
  | enter arguments id function free hOperands hCallee hArity hRoom =>
      have hClosure := hValues.stack (m.sp - 1 - arguments)
      rw [stack_fetched, sp_fetched] at hCallee
      rw [hCallee] at hClosure
      -- The new frame is counted against the stack, so there was room for it before the call.
      have hDeeper : m.callers.length < stackSize := hNextNested.callers_length_le
      exact Nat.lt_of_le_of_lt (pendingOf_entered_le hClosure.here hDeeper)
        (by rw [Nat.add_comm]; exact pendingOf_add_callBound_lt m.callers hFall)
  | leave caller callers hLeaves hCallers hBase hRoom =>
      -- The caller has paid for the call already; what the callee had left is dropped.
      rw [callers_fetched] at hCallers
      have hCost : 0 < m.frame.remaining *
          (callBound length (stackSize - (caller :: callers).length) + 1) :=
        Nat.mul_pos (Frame.remaining_pos hRunning) (Nat.succ_pos _)
      unfold pending
      rw [hCallers, pendingOf.eq_def length (m.frame :: _)]
      exact Nat.lt_add_of_pos_left hCost
  | finish hLeaves hCallers =>
      refine pendingOf_lt _ ?_
      have hLeft := Frame.remaining_pos hRunning
      simp only [Frame.remaining, frame_fetched] at hLeft ⊢
      omega
  | _ => exact pendingOf_lt _ hFall

end

theorem exists_longestWithin (bundle : Bundle) (globals : Slots) :
    ∃ length, LongestWithin length bundle globals := by
  obtain ⟨poolLength, hPool⟩ := exists_codeWithin_forall bundle.constants
    fun value _ => exists_codeWithin value
  obtain ⟨globalsLength, hGlobals⟩ := exists_codeWithin_forall globals.kept.toList
    fun value _ => exists_codeWithin value
  have hPoolLe : poolLength ≤ max bundle.code.size (max poolLength globalsLength) :=
    Nat.le_trans (Nat.le_max_left _ _) (Nat.le_max_right _ _)
  have hGlobalsLe : globalsLength ≤ max bundle.code.size (max poolLength globalsLength) :=
    Nat.le_trans (Nat.le_max_right _ _) (Nat.le_max_right _ _)
  refine ⟨_, Nat.le_max_left _ _, fun value hValue => CodeWithin.mono hPoolLe (hPool value hValue),
    fun slot => ?_⟩
  refine Value.throughout_getD (admitsData_codeWithin _).null fun value hSlot => ?_
  exact CodeWithin.mono hGlobalsLe
    (hGlobals value (Array.mem_toList_iff.mpr (Array.mem_of_getElem? hSlot)))

/-- Every balanced run without jumps back stays within the bound, be it over or not. -/
theorem steps_le_stepBound {settings : Settings} {bundle : Bundle} {globals : Slots} {host : Host}
    {length : Nat} (hLongest : LongestWithin length bundle globals) {finish : Machine} {steps : Nat}
    (run : RunsFor settings (fun m => m.TakesOwn ∧ m.JumpsForward) (load bundle globals host) finish
      steps) :
    steps + finish.pending length ≤ stepBound length := by
  have hPaid := RunsFor.add_measure_le (fun m => m.Nested ∧ m.AllValues (CodeWithin length))
    (pending length) run ⟨nested_load bundle globals host, hLongest.allValues host⟩ ?_
  · exact Nat.le_trans hPaid.2 (pending_load_le hLongest.code globals host)
  · rintro m next ⟨hOwn, hForward⟩ hRunning hStep ⟨hNested, hValues⟩
    have hNext : next.AllValues (CodeWithin length) :=
      hValues.step (admitsData_codeWithin length) (fun i _ => hValues.makesClosures_codeWithin i)
        hStep
    exact ⟨⟨hNested.step hOwn hStep, hNext⟩,
      pending_step_lt hOwn hForward hRunning hStep hNested hValues⟩

/-- In a balanced run every frame starts above its caller, so there is one frame at most for each
stack slot and one for the top-level stream. If the run never jumps back as well, it is over after
a number of steps that depends on nothing but the length of the longest function. -/
theorem balanced_runs_are_bounded (settings : Settings) (bundle : Bundle) (globals : Slots)
    (host : Host) :
    (∀ finish steps, RunsFor settings TakesOwn (load bundle globals host) finish steps →
      finish.bases.Pairwise (· > ·) ∧ finish.depth ≤ stackSize + 1) ∧
    (∃ length, LongestWithin length bundle globals) ∧
    ∀ length, LongestWithin length bundle globals →
      (∀ finish steps,
        RunsFor settings (fun m => m.TakesOwn ∧ m.JumpsForward) (load bundle globals host) finish
          steps → steps ≤ stepBound length) ∧
      ((∀ m, Reaches settings (load bundle globals host) m → m.TakesOwn ∧ m.JumpsForward) →
        ∃ outcome finish,
          (load bundle globals host).run settings (stepBound length) = some (outcome, finish)) := by
  refine ⟨?_, exists_longestWithin bundle globals, fun length hLongest => ⟨?_, ?_⟩⟩
  · intro finish steps run
    have hNested := nested_of_runsFor run (fun _ => id) (nested_load bundle globals host)
    exact ⟨hNested.decreasing, Nat.succ_le_succ hNested.callers_length_le⟩
  · intro finish steps run
    exact Nat.le_trans (Nat.le_add_right _ _) (steps_le_stepBound hLongest run)
  · intro hAllowed
    cases hRun : (load bundle globals host).run settings (stepBound length) with
    | some answer => exact ⟨answer.1, answer.2, rfl⟩
    | none =>
        obtain ⟨finish, run, hRunning⟩ := runsFor_of_run_eq_none hRun
        have hPaid := steps_le_stepBound hLongest (run.of_reaches hAllowed)
        have hLeft : 0 < finish.pending length :=
          Nat.lt_of_lt_of_le
            (Nat.mul_pos (Frame.remaining_pos hRunning) (Nat.succ_pos _)) (Nat.le_add_right _ _)
        omega

/-- A stream that calls itself without end. -/
def selfCall : Bundle := { code := Code.assemble [(.currentClosure, []), (.call, [0])] }

/-- Every closure runs the stream that calls itself. -/
def RunsSelfCall : Value → Prop
  | .closure _ function _ => function = ⟨selfCall.code, 0, 0⟩
  | _ => True

theorem admitsData_runsSelfCall : Value.AdmitsData RunsSelfCall := by
  intro value hCode
  cases value with
  | closure id function free => cases hCode
  | _ => trivial

/-- What a machine keeps that calls itself: it has nothing else to run, and where it makes a call,
the callee lies on its own part of the stack. -/
structure CallsItself (m : Machine) : Prop where
  function : m.frame.function = ⟨selfCall.code, 0, 0⟩
  place : (m.frame.cursor = 0 ∧ m.frame.base ≤ m.sp) ∨
    (m.frame.cursor = 1 ∧ m.frame.base + 1 ≤ m.sp) ∨ m.frame.cursor = 3
  values : m.AllValues RunsSelfCall

theorem CallsItself.next? {m : Machine} (h : m.CallsItself) :
    (m.frame.cursor = 0 ∧ m.frame.base ≤ m.sp ∧ m.next? = some .currentClosure) ∨
      (m.frame.cursor = 1 ∧ m.frame.base + 1 ≤ m.sp ∧ m.next? = some (.call 0)) ∨
      m.next? = none := by
  have hNext : m.next? = selfCall.code.instructionAt? m.frame.cursor := by
    rw [Machine.next?, h.function]
  rcases h.place with ⟨hCursor, hBase⟩ | ⟨hCursor, hBase⟩ | hCursor
  · exact Or.inl ⟨hCursor, hBase, by rw [hNext, hCursor]; rfl⟩
  · exact Or.inr (Or.inl ⟨hCursor, hBase, by rw [hNext, hCursor]; rfl⟩)
  · exact Or.inr (Or.inr (by rw [hNext, hCursor]; rfl))

theorem callsItself_load : (load selfCall { size := 0 } {}).CallsItself where
  function := rfl
  place := Or.inl ⟨rfl, Nat.le_refl _⟩
  values := by
    refine allValues_load admitsData_runsSelfCall ?_ ?_ (fun _ => rfl) {}
    · exact fun value hValue => absurd hValue List.not_mem_nil
    · exact fun slot => admitsData_runsSelfCall.null

theorem CallsItself.step {settings : Settings} {m next : Machine} (h : m.CallsItself)
    (hStep : Execution.step settings m = (.ok (), next)) : next.CallsItself := by
  obtain ⟨i, hNext, hEffect⟩ := Execution.effect_of_step hStep
  have hMakes : ∀ other, m.next? = some other → m.MakesClosures RunsSelfCall other := by
    intro other hOther index free id function hClosure
    rcases h.next? with ⟨_, _, hHere⟩ | ⟨_, _, hHere⟩ | hHere
    all_goals simp [hHere, hClosure] at hOther
  have hValues := h.values.step admitsData_runsSelfCall hMakes hStep
  rcases h.next? with ⟨hCursor, hBase, hHere⟩ | ⟨hCursor, hBase, hHere⟩ | hHere
  · rw [hHere] at hNext
    cases hNext
    cases hEffect with
    | result value host hResult hOperands hRoom hMade =>
        refine ⟨h.function, Or.inr (Or.inl ⟨?_, ?_⟩), hValues⟩
        · simp [hCursor, Instruction.length]
        · simpa [Instruction.operands] using hBase
    | leave caller callers hLeaves => cases hLeaves
    | finish hLeaves => cases hLeaves
  · rw [hHere] at hNext
    cases hNext
    cases hEffect with
    | result value host hResult hOperands hRoom hMade =>
        refine ⟨h.function, Or.inr (Or.inr ?_), hValues⟩
        simp [hCursor, Instruction.length]
    | enter arguments id function free hOperands hCallee hArity hRoom =>
        have hFunction : function = ⟨selfCall.code, 0, 0⟩ :=
          hValues.frame.here
        refine ⟨hFunction, Or.inl ⟨rfl, ?_⟩, hValues⟩
        simp
    | leave caller callers hLeaves => cases hLeaves
    | finish hLeaves => cases hLeaves
  · rw [hHere] at hNext
    cases hNext

/-- The stream that calls itself makes a balanced run, so it ends, whatever the settings. -/
theorem selfCall_run_is_bounded :
    LongestWithin 3 selfCall { size := 0 } ∧
      (∀ m, Reaches {} (load selfCall { size := 0 } {}) m → m.TakesOwn ∧ m.JumpsForward) ∧
      (∃ outcome finish,
        (load selfCall { size := 0 } {}).run {} (stepBound 3) = some (outcome, finish)) ∧
      ∃ finish, RunsFor {} TakesOwn (load selfCall { size := 0 } {}) finish 2 ∧
        finish.bases = [1, 0] ∧ finish.bases.Pairwise (· > ·) := by
  have hLongest : LongestWithin 3 selfCall { size := 0 } :=
    ⟨Nat.le_refl 3, fun value h => absurd h List.not_mem_nil,
      fun slot => (admitsData_codeWithin 3).null⟩
  have hAllowed : ∀ m, Reaches {} (load selfCall { size := 0 } {}) m →
      m.TakesOwn ∧ m.JumpsForward := by
    intro m run
    have hCalls : m.CallsItself :=
      run.invariant callsItself_load fun m next _ hStep h => h.step hStep
    rcases hCalls.next? with ⟨hCursor, hBase, hHere⟩ | ⟨hCursor, hBase, hHere⟩ | hHere
    · refine ⟨fun i hNext => ?_, by simp [JumpsForward, hHere]⟩
      rw [hHere] at hNext
      cases hNext
      exact Or.inl rfl
    · refine ⟨fun i hNext => ?_, by simp [JumpsForward, hHere]⟩
      rw [hHere] at hNext
      cases hNext
      simp [Instruction.operands, hCalls.function, hBase]
    · simp [TakesOwn, JumpsForward, hHere]
  have hBounded := balanced_runs_are_bounded {} selfCall { size := 0 } {}
  have run : RunsFor {} TakesOwn (load selfCall { size := 0 } {}) _ 2 :=
    RunsFor.succ
      (RunsFor.succ (RunsFor.zero _) (hAllowed _ (Reaches.refl _)).1 rfl rfl)
      (hAllowed _ ((Reaches.refl _).step rfl rfl)).1 rfl rfl
  exact ⟨hLongest, hAllowed, (hBounded.2.2 3 hLongest).2 hAllowed, _, run, rfl,
    (hBounded.1 _ _ run).1⟩

end Machine

end Tandem
