import Tandem.Proofs.Machine.Recursion
/-!
What a call does to its caller. As long as every instruction takes its operands from above the
locals of its own function, a call of a closure is seen by the caller as one instruction that takes
the callee and the arguments off the stack and puts one value there. Nothing below the callee is
touched on the way, however deep calls nest, and no frame that was there before is changed.
-/
namespace Tandem

namespace Execution

variable {m : Machine} {arguments : Nat} {id : Label} {function : CompiledFunction}
  {free : List Value}

theorem enter_of_room (hArity : arguments = function.parameters)
    (hRoom : m.sp - arguments + function.locals ≤ stackSize) :
    enter id function free arguments m =
      (.ok (),
        { m with
          callers := m.frame :: m.callers
          frame := ⟨id, function, free, 0, m.sp - arguments⟩
          sp := m.sp - arguments + function.locals }) := by
  unfold enter
  rw [get_bind, if_neg (not_not_intro hArity)]
  simp only [if_pos hRoom]
  rfl

/-- A function that takes as many arguments as it is given is refused for lack of room only. -/
theorem enter_of_full (hArity : arguments = function.parameters)
    (hFull : stackSize < m.sp - arguments + function.locals) (id : Label) (free : List Value) :
    enter id function free arguments m = (.error (.error .stackOverflow), m) := by
  unfold enter
  rw [get_bind, if_neg (not_not_intro hArity)]
  simp only [if_neg (Nat.not_le.mpr hFull)]
  rfl

/-- A function that is not entered leaves the machine as it is. -/
theorem enter_of_refused
    (h : ¬ (arguments = function.parameters ∧ m.sp - arguments + function.locals ≤ stackSize))
    (id : Label) (free : List Value) :
    ∃ cause, ∀ other : Machine, other.sp = m.sp →
      enter id function free arguments other = (.error (.error cause), other) := by
  by_cases hArity : arguments = function.parameters
  · refine ⟨.stackOverflow, fun other hSp => enter_of_full hArity ?_ id free⟩
    rw [hSp]
    exact Nat.not_le.mp fun hRoom => h ⟨hArity, hRoom⟩
  · refine ⟨.wrongArity function.parameters arguments, fun other _ => ?_⟩
    unfold enter
    rw [get_bind, if_pos hArity]
    rfl

theorem call_of_closure (hOperands : arguments < m.sp)
    (hCallee : m.stack.read (m.sp - 1 - arguments) = .closure id function free) :
    call arguments m = enter id function free arguments m := by
  unfold call
  rw [get_bind, if_pos hOperands, hCallee]

end Execution

namespace Machine

/-- The frame that a call leaves waiting, with its cursor just after the call. -/
def resumed (m : Machine) : Frame := { m.frame with cursor := m.frame.cursor + 2 }

/-- The next step calls a closure with as many arguments as it takes, and there is room for its
locals. -/
structure CallsClosure (m : Machine) (arguments : Nat) (id : Label) (function : CompiledFunction)
    (free : List Value) : Prop where
  next : m.next? = some (.call arguments)
  operands : arguments < m.sp
  callee : m.stack.read (m.sp - 1 - arguments) = .closure id function free
  arity : arguments = function.parameters
  room : m.sp - arguments + function.locals ≤ stackSize

def entering (settings : Settings) (m : Machine) (arguments : Nat) (id : Label)
    (function : CompiledFunction) (free : List Value) : Machine :=
  { m with
    callers := m.resumed :: m.callers
    frame := ⟨id, function, free, 0, m.sp - arguments⟩
    sp := m.sp - arguments + function.locals
    host := m.tracedHost settings }

/-- The other machine has the same values below the callee and the same frames, of which the
calling one waits just after the call. -/
structure KeepsBelow (m : Machine) (arguments : Nat) (other : Machine) : Prop where
  slots : ∀ slot < m.sp - 1 - arguments, other.stack.read slot = m.stack.read slot
  frames : m.resumed :: m.callers <:+ other.frame :: other.callers

/-- The other machine is back in the calling frame. In place of the callee and its arguments the
value lies on top of the stack. -/
structure ResumesWith (m : Machine) (arguments : Nat) (value : Value) (other : Machine) :
    Prop where
  frame : other.frame = m.resumed
  callers : other.callers = m.callers
  sp : other.sp = m.sp - arguments
  value : other.stack.read (m.sp - 1 - arguments) = value

/-- Frames that were opened by a call and within it, the running one first, above those that were
there before. The callee starts at `base`, and every other frame starts above the locals of the
frame that waits for it. -/
inductive Above (base : Nat) (outer : List Frame) : List Frame → Prop where
  | callee {frame : Frame} (hBase : frame.base = base) : Above base outer (frame :: outer)
  | nested {frame caller : Frame} {callers : List Frame}
      (hBase : caller.base + caller.function.locals < frame.base)
      (below : Above base outer (caller :: callers)) :
      Above base outer (frame :: caller :: callers)

section

variable {base : Nat} {outer callers : List Frame} {frame : Frame}

theorem Above.base_le (h : Above base outer (frame :: callers)) : base ≤ frame.base := by
  generalize hFrames : frame :: callers = frames at h
  induction h generalizing frame callers with
  | callee hBase =>
      cases hFrames
      exact Nat.le_of_eq hBase.symm
  | nested hBase below ih =>
      cases hFrames
      have hCaller := ih rfl
      omega

theorem Above.suffix {frames : List Frame} (h : Above base outer frames) : outer <:+ frames := by
  induction h with
  | callee hBase => exact List.suffix_cons _ _
  | nested hBase below ih => exact ih.trans (List.suffix_cons _ _)

theorem Above.length_lt {frames : List Frame} (h : Above base outer frames) :
    outer.length < frames.length := by
  induction h with
  | callee hBase => exact Nat.lt_succ_self _
  | nested hBase below ih => exact Nat.lt_succ_of_lt ih

/-- Where the cursor of a frame stands does not matter. -/
theorem Above.moved (h : Above base outer (frame :: callers)) (cursor : Nat) :
    Above base outer ({ frame with cursor := cursor } :: callers) := by
  cases h with
  | callee hBase => exact Above.callee hBase
  | nested hBase below => exact Above.nested hBase below

end

/-- What holds while a call lasts that was made by `m`: the frames it has opened lie above those of
the caller, operands lie above the locals of the running function, and all slots below the arguments
are as they were. -/
structure Within (m : Machine) (arguments : Nat) (other : Machine) : Prop where
  frames : Above (m.sp - arguments) (m.resumed :: m.callers) (other.frame :: other.callers)
  operands : other.frame.base + other.frame.function.locals ≤ other.sp
  slots : ∀ slot < m.sp - arguments, other.stack.read slot = m.stack.read slot

section

variable {settings : Settings} {m : Machine} {arguments : Nat}

theorem Within.keepsBelow {other : Machine} (h : m.Within arguments other) :
    m.KeepsBelow arguments other :=
  ⟨fun slot hSlot => h.slots slot (by omega), h.frames.suffix⟩

theorem Within.depth_lt {other : Machine} (h : m.Within arguments other) :
    m.depth < other.depth := by
  have hLength := h.frames.length_lt
  simpa [depth] using hLength

theorem CallsClosure.step_eq {id : Label} {function : CompiledFunction} {free : List Value}
    (h : m.CallsClosure arguments id function free) :
    Execution.step settings m = (.ok (), m.entering settings arguments id function free) := by
  rw [Execution.step_of_next? h.next, Execution.execute,
    Execution.call_of_closure (by exact h.operands) (by exact h.callee),
    Execution.enter_of_room h.arity (by exact h.room)]
  rfl

theorem CallsClosure.within {id : Label} {function : CompiledFunction} {free : List Value} :
    m.Within arguments (m.entering settings arguments id function free) :=
  ⟨Above.callee rfl, Nat.le_refl _, fun _ _ => rfl⟩

theorem leaves_of_fetched {i : Instruction} {value : Value}
    (h : i.Leaves (m.fetched settings i) value) : i.Leaves m value := by
  cases h with
  | value hOperand => exact Instruction.Leaves.value hOperand
  | null => exact Instruction.Leaves.null

/-- A step within a call either stays within it or returns from it. -/
theorem Within.step {before next : Machine} (h : m.Within arguments before)
    (hOwn : before.TakesOwn) (hStep : Execution.step settings before = (.ok (), next)) :
    m.Within arguments next ∨
      ∃ i value, before.callers = m.resumed :: m.callers ∧ before.next? = some i ∧
        i.Leaves before value ∧ m.KeepsBelow arguments next ∧
        m.ResumesWith arguments value next := by
  obtain ⟨i, hNext, hEffect⟩ := Execution.effect_of_step hStep
  have hBase : m.sp - arguments ≤ before.frame.base := h.frames.base_le
  have hOperands : before.frame.base + before.frame.function.locals + i.operands ≤ before.sp := by
    rcases hOwn i hNext with hZero | hOwn
    · have hLocals := h.operands
      omega
    · exact hOwn
  -- What is written from the first slot of the running frame on lies above the caller's own.
  have hWrite : ∀ written value, before.frame.base ≤ written → ∀ slot < m.sp - arguments,
      (before.stack.write written value).read slot = m.stack.read slot := by
    intro written value hWritten slot hSlot
    rw [Slots.read_write_of_ne _ (by omega)]
    exact h.slots slot hSlot
  cases hEffect with
  | result value host hResult hEnough hRoom hMade =>
      refine Or.inl ⟨h.frames.moved _, ?_, hWrite _ _ ?_⟩
      · simp only [sp_fetched, frame_fetched]
        omega
      · rw [sp_fetched]
        omega
  | drop hOperand => exact Or.inl ⟨h.frames.moved _, Nat.le_sub_of_add_le hOperands, h.slots⟩
  | jump target => exact Or.inl ⟨h.frames.moved _, h.operands, h.slots⟩
  | stay target hOperand hTruthy =>
      exact Or.inl ⟨h.frames.moved _, Nat.le_sub_of_add_le hOperands, h.slots⟩
  | branch target hOperand hTruthy =>
      exact Or.inl ⟨h.frames.moved _, Nat.le_sub_of_add_le hOperands, h.slots⟩
  | setGlobal slot hOperand hSlot =>
      exact Or.inl ⟨h.frames.moved _, Nat.le_sub_of_add_le hOperands, h.slots⟩
  | setLocal slot hOperand hSlot =>
      exact Or.inl ⟨h.frames.moved _, Nat.le_sub_of_add_le hOperands,
        hWrite _ _ (Nat.le_add_right _ _)⟩
  | enter count id function free hEnough hCallee hArity hRoom =>
      refine Or.inl ⟨Above.nested ?_ (h.frames.moved _), Nat.le_refl _, h.slots⟩
      simp only [sp_fetched, frame_fetched]
      simp only [Instruction.operands] at hOperands
      omega
  | leave caller callers hLeaves hCallers hPositive hRoom =>
      rw [callers_fetched] at hCallers
      have hFrames := h.frames
      rw [hCallers] at hFrames
      cases hFrames with
      | callee hCallee =>
          refine Or.inr ⟨i, _, hCallers, hNext, leaves_of_fetched hLeaves, ⟨?_, List.suffix_rfl⟩,
            rfl, rfl, hCallee, ?_⟩
          · intro slot hSlot
            simp only [frame_fetched, stack_fetched]
            rw [Slots.read_write_of_ne _ (by omega)]
            exact h.slots slot (by omega)
          · simp only [frame_fetched, stack_fetched, hCallee, Nat.sub_right_comm]
            exact Slots.read_write_self _ _ _
      | nested hCaller hBelow =>
          have hCallerBase := hBelow.base_le
          refine Or.inl ⟨hBelow, Nat.le_of_lt hCaller, ?_⟩
          intro slot hSlot
          simp only [frame_fetched, stack_fetched]
          rw [Slots.read_write_of_ne _ (by omega)]
          exact h.slots slot hSlot
  | finish hLeaves hCallers =>
      have hSuffix := h.frames.length_lt
      rw [callers_fetched] at hCallers
      simp [hCallers] at hSuffix

/-- How a call ends: the last step leaves the frame that was opened for it, and the caller finds the
value with which that frame was left. -/
def Returned (settings : Settings) (allowed : Machine → Prop) (m : Machine) (arguments : Nat)
    (entered finish : Machine) (steps : Nat) : Prop :=
  ∃ last before i value, steps = before + 1 ∧
    RunsFor settings allowed entered last before ∧ last.callers = m.resumed :: m.callers ∧
    last.next? = some i ∧ i.Leaves last value ∧
    Execution.step settings last = (.ok (), finish) ∧ m.ResumesWith arguments value finish

theorem ResumesWith.depth_eq {value : Value} {other : Machine}
    (h : m.ResumesWith arguments value other) : other.depth = m.depth := by
  rw [depth, depth, h.callers]

/-- A run from the start of a call is still within it, or its last step was the return. -/
theorem within_or_returned {allowed : Machine → Prop} {entered finish : Machine} {steps : Nat}
    (hAllowed : ∀ other, allowed other → other.TakesOwn ∧ m.depth < other.depth)
    (run : RunsFor settings allowed entered finish steps) (hEntered : m.Within arguments entered) :
    m.Within arguments finish ∨
      m.KeepsBelow arguments finish ∧
        Returned settings allowed m arguments entered finish steps := by
  induction run with
  | zero => exact Or.inl hEntered
  | @succ middle finish before prior hMiddle hRunning last ih =>
      obtain ⟨hOwn, hDeeper⟩ := hAllowed middle hMiddle
      rcases ih with hWithin | ⟨_, _, _, _, value, _, _, _, _, _, _, hResumes⟩
      · rcases hWithin.step hOwn last with hStill |
          ⟨i, value, hCallers, hNext, hLeaves, hKeeps, hResumes⟩
        · exact Or.inl hStill
        · exact Or.inr ⟨hKeeps, middle, before, i, value, rfl, prior, hCallers, hNext, hLeaves,
            last, hResumes⟩
      · exact absurd hResumes.depth_eq (Nat.ne_of_gt hDeeper)

end

/-- A call of a closure is one instruction to its caller. The step enters the closure. From there
on, up to and including the return, nothing below the callee and no frame of the caller changes, as
long as every instruction takes its operands from above the locals of its own function. Once there
are no more frames than before, the last step was the return from the closure itself, and its value
lies on top of the stack where the callee was. -/
theorem call_pops_operands_and_pushes_value (settings : Settings) {m : Machine} {arguments : Nat}
    {id : Label} {function : CompiledFunction} {free : List Value}
    (hCall : m.CallsClosure arguments id function free) :
    Execution.step settings m = (.ok (), m.entering settings arguments id function free) ∧
      ∀ finish steps,
        RunsFor settings (fun other => other.TakesOwn ∧ m.depth < other.depth)
          (m.entering settings arguments id function free) finish steps →
        m.KeepsBelow arguments finish ∧
          (finish.depth ≤ m.depth →
            Returned settings (fun other => other.TakesOwn ∧ m.depth < other.depth) m arguments
              (m.entering settings arguments id function free) finish steps) := by
  refine ⟨hCall.step_eq, fun finish steps run => ?_⟩
  rcases within_or_returned (fun _ h => h) run CallsClosure.within with
    hWithin | ⟨hKeeps, hReturned⟩
  · exact ⟨hWithin.keepsBelow, fun hDepth => absurd hWithin.depth_lt (Nat.not_lt.mpr hDepth)⟩
  · exact ⟨hKeeps, fun _ => hReturned⟩

/-- A function of one parameter and one more local. It calls a closure that returns null, keeps the
null as its local and returns its argument. -/
def callsAnother : CompiledFunction :=
  { code := Code.assemble
      [(.closure, [0, 0]), (.call, [0]), (.setLocal, [1]), (.getLocal, [0]), (.returnValue, [])]
    locals := 2
    parameters := 1 }

/-- About to call the function with `true`, above a value of the caller's own. -/
def nestedCall : Machine :=
  { constants := [.compiled (.object 0) ⟨Code.assemble [(.returnNull, [])], 0, 0⟩]
    stack := Slots.ofList stackSize
      [.integer 7, .closure (.object 1) callsAnother [], .boolean true]
    sp := 3
    globals := { size := globalsSize }
    frame := ⟨.program 0, ⟨Code.assemble [(.call, [1]), (.pop, [])], 0, 0⟩, [], 0, 0⟩
    host := { labels := { objects := 2 } } }

/-- Six steps lead from the call through the one inside it to the return. The 7 below stays where
it is, and `true` takes the place of the function and its argument. -/
theorem nestedCall_pops_operands_and_pushes_value :
    nestedCall.CallsClosure 1 (.object 1) callsAnother [] ∧
      ∃ finish, RunsFor {} (fun other => other.TakesOwn ∧ nestedCall.depth < other.depth)
        (nestedCall.entering {} 1 (.object 1) callsAnother []) finish 6 ∧
        nestedCall.KeepsBelow 1 finish ∧ nestedCall.ResumesWith 1 (.boolean true) finish := by
  have hCall : nestedCall.CallsClosure 1 (.object 1) callsAnother [] :=
    ⟨rfl, by decide, rfl, rfl, by decide⟩
  have run : RunsFor {} (fun other => other.TakesOwn ∧ nestedCall.depth < other.depth)
      (nestedCall.entering {} 1 (.object 1) callsAnother []) _ 6 :=
    runsFor_after (by decide +kernel)
  obtain ⟨hKeeps, hReturned⟩ := (call_pops_operands_and_pushes_value {} hCall).2 _ 6 run
  obtain ⟨_, _, _, value, _, _, _, _, _, _, hResumes⟩ := hReturned (by decide +kernel)
  have hValue : value = .boolean true := hResumes.value.symm.trans rfl
  exact ⟨hCall, _, run, hKeeps, hValue ▸ hResumes⟩

end Machine

end Tandem
