import Tandem.Proofs.Machine.Effect
/-!
Verified bundles. Each function of a bundle comes with the height that its part of the stack has at
its offsets. A bundle is well-formed if every instruction finds its operands, pool entries and
slots, and if the heights agree along every way on. A machine that runs a well-formed bundle never
asks for anything that is not there: at every step of every run, each frame has as much on the
stack as its function says.
-/
namespace Tandem

namespace Value

/-- Whether the value is a function that has captured nothing yet. -/
def isCompiled : Value → Bool
  | compiled _ _ => true
  | _ => false

/-- Whether the value is of a kind that pools are made of. -/
def isConstant : Value → Bool
  | null | integer _ | boolean _ | string _ _ | compiled _ _ => true
  | _ => false

end Value

namespace Instruction

/-- The offsets at which the function may go on after the instruction at `offset`. -/
def successors (offset : Nat) : Instruction → List Nat
  | jump target => [target]
  | jumpUnlessTruthy target => [offset + (jumpUnlessTruthy target).length, target]
  | returnValue | returnNull => []
  | i => [offset + i.length]

/-- The instruction may stand in the function where the stack has the given height. Closures made
of the pool entry at `place` capture `frees place` values, those of the function itself `free`. -/
def Fits (pool : List Value) (frees : Nat → Nat) (function : CompiledFunction) (free height : Nat)
    (i : Instruction) : Prop :=
  i.operands ≤ height ∧
    match i with
    | constant place => place < pool.length
    | closure place count => (∃ entry ∈ pool[place]?, entry.isCompiled = true) ∧ count = frees place
    | getFree place => place < free
    | getLocal slot | setLocal slot => slot < function.locals
    | hash count => count % 2 = 0
    | _ => True

instance (pool : List Value) (frees : Nat → Nat) (function : CompiledFunction) (free height : Nat)
    (i : Instruction) : Decidable (i.Fits pool frees function free height) := by
  cases i <;> exact inferInstanceAs (Decidable (_ ∧ _))

end Instruction

/-- The stack heights of a function, counted from above its locals. Offsets without a height are
never come to. -/
structure Heights (pool : List Value) (frees : Nat → Nat) (function : CompiledFunction) (free : Nat)
    (height : Nat → Option Nat) : Prop where
  start : height 0 = some 0
  fits : ∀ offset < function.code.size, ∀ n ∈ height offset,
    ∃ i ∈ function.code.instructionAt? offset, i.Fits pool frees function free n ∧
      ∀ next ∈ i.successors offset,
        function.code.size ≤ next ∨ height next = some (n - i.operands + i.results)

instance (pool : List Value) (frees : Nat → Nat) (function : CompiledFunction) (free : Nat)
    (height : Nat → Option Nat) : Decidable (Heights pool frees function free height) :=
  decidable_of_iff
    (height 0 = some 0 ∧ ∀ offset < function.code.size, ∀ n ∈ height offset,
      ∃ i ∈ function.code.instructionAt? offset, i.Fits pool frees function free n ∧
        ∀ next ∈ i.successors offset,
          function.code.size ≤ next ∨ height next = some (n - i.operands + i.results))
    ⟨fun h => ⟨h.1, h.2⟩, fun h => ⟨h.start, h.fits⟩⟩

/-- The bundle can be verified, with the given number of captured values for each function of its
pool. -/
structure Bundle.WellFormed (bundle : Bundle) (frees : Nat → Nat) : Prop where
  constants : ∀ entry ∈ bundle.constants, entry.isConstant = true
  parameters_le : ∀ id function, .compiled id function ∈ bundle.constants →
    function.parameters ≤ function.locals
  main : ∃ height, Heights bundle.constants frees ⟨bundle.code, 0, 0⟩ 0 height
  functions : ∀ place id function, bundle.constants[place]? = some (.compiled id function) →
    ∃ height, Heights bundle.constants frees function (frees place) height

/-- A closure has captured as many values as its function is verified for. -/
def Value.Verified (pool : List Value) (frees : Nat → Nat) : Value → Prop
  | closure _ code free => code.parameters ≤ code.locals ∧
      ∃ height, Heights pool frees code free.length height
  | _ => True

/-- The frame has its locals within the stack, and `top` is where its part of the stack ends
according to the heights of its function. -/
def Frame.Settled (pool : List Value) (frees : Nat → Nat) (frame : Frame) (top : Nat) : Prop :=
  frame.base + frame.function.locals ≤ stackSize ∧
    (frame.atEnd = true ∨
      ∃ height, Heights pool frees frame.function frame.free.length height ∧
        ∃ n, height frame.cursor = some n ∧ top = frame.base + frame.function.locals + n)

/-- The part of each frame ends where the part of the next one starts, with a slot for the callee
before it; that of the running frame ends at `top`. -/
def Frame.Stacked (pool : List Value) (frees : Nat → Nat) : Nat → Frame → List Frame → Prop
  | top, frame, [] => frame.Settled pool frees top
  | top, frame, caller :: callers => frame.Settled pool frees top ∧ 0 < frame.base ∧
      Stacked pool frees frame.base caller callers

namespace Machine

/-- What every step of a verified run keeps. -/
structure Disciplined (pool : List Value) (frees : Nat → Nat) (m : Machine) : Prop where
  constants : m.constants = pool
  stack : m.stack.size = stackSize
  sp_le : m.sp ≤ stackSize
  globals : globalsSize ≤ m.globals.size
  values : m.AllValues (Value.Verified pool frees)
  frames : Frame.Stacked pool frees m.sp m.frame m.callers

end Machine

variable {pool : List Value} {frees : Nat → Nat}

theorem Value.admitsData_verified : Value.AdmitsData (Value.Verified pool frees) := by
  intro value hCode
  cases value with
  | closure id function free => cases hCode
  | _ => trivial

theorem Frame.Stacked.settled {top : Nat} {frame : Frame} {callers : List Frame}
    (h : Frame.Stacked pool frees top frame callers) : frame.Settled pool frees top := by
  cases callers with
  | nil => exact h
  | cons caller callers => exact h.1

/-- The running frame can be exchanged for another one that starts at the same place. -/
theorem Frame.Stacked.replace {top newTop : Nat} {frame new : Frame} {callers : List Frame}
    (h : Frame.Stacked pool frees top frame callers) (hBase : new.base = frame.base)
    (hNew : new.Settled pool frees newTop) : Frame.Stacked pool frees newTop new callers := by
  cases callers with
  | nil => exact hNew
  | cons caller callers =>
      obtain ⟨_, hPositive, hCaller⟩ := h
      exact ⟨hNew, hBase ▸ hPositive, hBase ▸ hCaller⟩

/-- A global slot that an instruction names is among those that every machine has. -/
theorem Code.slot_lt_of_instructionAt? {code : Code} {offset slot : Nat}
    (h : code.instructionAt? offset = some (.setGlobal slot) ∨
      code.instructionAt? offset = some (.getGlobal slot)) : slot < globalsSize := by
  have hWord : ∃ start, code.wordAt? start = some slot := by
    refine ⟨offset + 1, ?_⟩
    rcases h with h | h
    all_goals
      obtain ⟨byte, _, h⟩ := Option.bind_eq_some_iff.mp h
      obtain ⟨op, _, h⟩ := Option.bind_eq_some_iff.mp h
      cases op <;> simp [Instruction.decode?, Option.bind_eq_some_iff] at h
      exact h
  obtain ⟨start, hWord⟩ := hWord
  obtain ⟨high, _, hWord⟩ := Option.bind_eq_some_iff.mp hWord
  obtain ⟨low, _, hWord⟩ := Option.bind_eq_some_iff.mp hWord
  have hHigh := high.toNat_lt
  have hLow := low.toNat_lt
  cases hWord
  unfold globalsSize
  omega

namespace Machine

variable {settings : Settings} {m next : Machine}

/-- A running machine that is disciplined finds an instruction that fits the height of the stack,
and wherever the function goes on from there, the stack is as high as it should be. -/
theorem Disciplined.exists_next (h : m.Disciplined pool frees) (hRunning : m.frame.atEnd = false) :
    ∃ i n, m.next? = some i ∧ i.Fits pool frees m.frame.function m.frame.free.length n ∧
      m.sp = m.frame.base + m.frame.function.locals + n ∧
      ∀ offset ∈ i.successors m.frame.cursor,
        Frame.Settled pool frees { m.frame with cursor := offset }
          (m.sp - i.operands + i.results) := by
  obtain ⟨hLocals, hEnd | ⟨height, hHeights, n, hHeight, hSp⟩⟩ := h.frames.settled
  · rw [hRunning] at hEnd
    cases hEnd
  · have hCursor : m.frame.cursor < m.frame.function.code.size :=
      Nat.lt_of_not_le (of_decide_eq_false hRunning)
    obtain ⟨i, hNext, hFits, hSuccessors⟩ := hHeights.fits _ hCursor n hHeight
    refine ⟨i, n, hNext, hFits, hSp, fun offset hOffset => ⟨hLocals, ?_⟩⟩
    rcases hSuccessors offset hOffset with hEnd | hSuccessor
    · exact Or.inl (decide_eq_true hEnd)
    · refine Or.inr ⟨height, hHeights, _, hSuccessor, ?_⟩
      have hOperands := hFits.1
      simp only
      omega

/-- Whatever a fitting instruction asks for is there. -/
theorem Disciplined.supported (h : m.Disciplined pool frees) {i : Instruction} {n : Nat}
    (hNext : m.next? = some i)
    (hFits : i.Fits pool frees m.frame.function m.frame.free.length n)
    (hSp : m.sp = m.frame.base + m.frame.function.locals + n) :
    i.Supported (m.fetched settings i) := by
  obtain ⟨hOperands, hFits⟩ := hFits
  have hLocals := h.frames.settled.1
  have hSlots := h.stack
  refine ⟨by rw [sp_fetched]; omega, ?_⟩
  cases i with
  | constant place => exact h.constants ▸ hFits
  | closure place count =>
      obtain ⟨⟨entry, hEntry, _⟩, _⟩ := hFits
      exact h.constants ▸ (List.getElem?_eq_some_iff.mp hEntry).1
  | setGlobal slot =>
      exact Nat.lt_of_lt_of_le (Code.slot_lt_of_instructionAt? (Or.inl hNext)) h.globals
  | getGlobal slot =>
      exact Nat.lt_of_lt_of_le (Code.slot_lt_of_instructionAt? (Or.inr hNext)) h.globals
  | setLocal slot | getLocal slot =>
      simp only [frame_fetched, stack_fetched] at hFits ⊢
      omega
  | getFree place => exact hFits
  | hash count => exact ⟨hFits, h.stack ▸ h.sp_le⟩
  | returnValue | returnNull =>
      have hFrames := h.frames
      simp only [callers_fetched, frame_fetched]
      cases hCallers : m.callers with
      | nil => exact Or.inl rfl
      | cons caller callers =>
          rw [hCallers] at hFrames
          exact Or.inr hFrames.2.1
  | _ => trivial

theorem Disciplined.not_fault (h : m.Disciplined pool frees) (hRunning : m.frame.atEnd = false)
    (after : Machine) : Execution.step settings m ≠ (.error .fault, after) := by
  intro hStep
  obtain ⟨i, n, hNext, hFits, hSp, _⟩ := h.exists_next hRunning
  have hEffect := Execution.effect_execute i (m.fetched settings i)
  rw [← Execution.step_of_next? hNext, hStep] at hEffect
  cases hEffect with
  | fault after hSupported => exact hSupported (h.supported hNext hFits hSp)

/-- The closures that a well-formed bundle makes capture as many values as their functions are
verified for. -/
theorem Disciplined.makesClosures {bundle : Bundle} (hBundle : bundle.WellFormed frees)
    (h : m.Disciplined bundle.constants frees) {i : Instruction} {n : Nat}
    (hFits : i.Fits bundle.constants frees m.frame.function m.frame.free.length n) :
    m.MakesClosures (Value.Verified bundle.constants frees) i := by
  rintro index free id function rfl hEntry label values hValues
  rw [h.constants] at hEntry
  obtain ⟨_, _, hFree⟩ := hFits
  rw [Value.Verified, hValues, hFree]
  exact ⟨hBundle.parameters_le id function (List.mem_of_getElem? hEntry),
    hBundle.functions index id function hEntry⟩

/-- The step of a disciplined machine that does not stop the run leaves it disciplined. -/
theorem Disciplined.step {bundle : Bundle} (hBundle : bundle.WellFormed frees)
    (h : m.Disciplined bundle.constants frees) (hRunning : m.frame.atEnd = false)
    (hStep : Execution.step settings m = (.ok (), next)) :
    next.Disciplined bundle.constants frees := by
  obtain ⟨i, n, hNext, hFits, hSp, hSuccessors⟩ := h.exists_next hRunning
  have hEffect := Execution.effect_execute i (m.fetched settings i)
  rw [← Execution.step_of_next? hNext, hStep] at hEffect
  have hValues : next.AllValues (Value.Verified bundle.constants frees) :=
    hEffect.allValues Value.admitsData_verified (h.values.fetched settings i)
      (h.makesClosures hBundle hFits)
  have hOperands := hFits.1
  have hFrames := h.frames
  have hSpLe := h.sp_le
  cases hEffect with
  | result value host hResult _ hRoom hMade =>
      rw [sp_fetched] at hRoom
      have hFall := hSuccessors (m.frame.cursor + i.length) (by
        cases i <;> simp [Instruction.successors, Instruction.results] at hResult ⊢)
      rw [hResult] at hFall
      exact ⟨h.constants, (Slots.size_write _ _ _).trans h.stack, hRoom, h.globals, hValues,
        hFrames.replace rfl hFall⟩
  | drop hOperand =>
      have hFall := hSuccessors _ List.mem_cons_self
      exact ⟨h.constants, h.stack, Nat.le_trans (Nat.sub_le _ _) hSpLe, h.globals, hValues,
        hFrames.replace rfl hFall⟩
  | jump target =>
      have hTarget := hSuccessors target List.mem_cons_self
      exact ⟨h.constants, h.stack, hSpLe, h.globals, hValues, hFrames.replace rfl hTarget⟩
  | stay target hOperand hTruthy =>
      have hFall := hSuccessors _ List.mem_cons_self
      exact ⟨h.constants, h.stack, Nat.le_trans (Nat.sub_le _ _) hSpLe, h.globals, hValues,
        hFrames.replace rfl hFall⟩
  | branch target hOperand hTruthy =>
      have hTarget := hSuccessors target (List.mem_cons_of_mem _ List.mem_cons_self)
      exact ⟨h.constants, h.stack, Nat.le_trans (Nat.sub_le _ _) hSpLe, h.globals, hValues,
        hFrames.replace rfl hTarget⟩
  | setGlobal slot hOperand hSlot =>
      have hFall := hSuccessors _ List.mem_cons_self
      exact ⟨h.constants, h.stack, Nat.le_trans (Nat.sub_le _ _) hSpLe,
        Nat.le_trans h.globals (Nat.le_of_eq (Slots.size_write _ _ _).symm), hValues,
        hFrames.replace rfl hFall⟩
  | setLocal slot hOperand hSlot =>
      have hFall := hSuccessors _ List.mem_cons_self
      exact ⟨h.constants, (Slots.size_write _ _ _).trans h.stack,
        Nat.le_trans (Nat.sub_le _ _) hSpLe, h.globals, hValues, hFrames.replace rfl hFall⟩
  | enter arguments id function free hCallee hRead hArity hRoom =>
      rw [sp_fetched] at hCallee hRoom
      have hFall := hSuccessors _ List.mem_cons_self
      have hVerified := h.values.stack (m.sp - 1 - arguments)
      rw [stack_fetched, sp_fetched] at hRead
      rw [hRead] at hVerified
      obtain ⟨_, height, hHeights⟩ := hVerified.here
      have hBase : m.sp - (arguments + 1) + 1 = m.sp - arguments := by omega
      have hCaller : Frame.Stacked bundle.constants frees (m.sp - arguments)
          { m.frame with cursor := m.frame.cursor + 2 } m.callers :=
        hFrames.replace rfl (hBase ▸ hFall)
      refine ⟨h.constants, h.stack, hRoom, h.globals, hValues, ⟨hRoom, ?_⟩, ?_, hCaller⟩
      · exact Or.inr ⟨height, hHeights, 0, hHeights.start, rfl⟩
      · exact Nat.sub_pos_of_lt hCallee
  | leave caller callers hLeaves hCallers hPositive hRoom =>
      rw [callers_fetched] at hCallers
      rw [hCallers] at hFrames
      exact ⟨h.constants, (Slots.size_write _ _ _).trans h.stack, hRoom, h.globals, hValues,
        hFrames.2.2⟩
  | finish hLeaves hCallers =>
      have hEnd : Frame.Settled bundle.constants frees
          { m.frame with cursor := m.frame.function.code.size } (m.sp - i.operands) :=
        ⟨hFrames.settled.1, Or.inl (decide_eq_true (Nat.le_refl _))⟩
      exact ⟨h.constants, h.stack, Nat.le_trans (Nat.sub_le _ _) hSpLe, h.globals, hValues,
        hFrames.replace rfl hEnd⟩

theorem disciplined_load {bundle : Bundle} (hBundle : bundle.WellFormed frees) {globals : Slots}
    (hGlobals : ∀ slot, (globals.read slot).Throughout (Value.Verified bundle.constants frees))
    (host : Host) : (load bundle globals host).Disciplined bundle.constants frees := by
  have hConstants : ∀ entry ∈ bundle.constants,
      entry.Throughout (Value.Verified bundle.constants frees) := by
    intro entry hEntry
    have hConstant := hBundle.constants entry hEntry
    cases entry with
    | compiled id function => exact Value.Throughout.intro trivial (by simp [Value.parts])
    | null | integer _ | boolean _ | string _ _ =>
        exact Value.admitsData_verified.throughout rfl rfl
    | _ => cases hConstant
  obtain ⟨height, hMain⟩ := hBundle.main
  have hLocals : 0 + 0 ≤ stackSize := Nat.zero_le _
  exact ⟨rfl, rfl, Nat.zero_le _, Nat.le_max_left _ _,
    allValues_load Value.admitsData_verified hConstants hGlobals
      (fun _ => ⟨Nat.le_refl 0, height, hMain⟩) host,
    hLocals, Or.inr ⟨height, hMain, 0, hMain.start, rfl⟩⟩

def heightsAt (known : List (Nat × Nat)) (offset : Nat) : Option Nat := known.lookup offset

/-- A function that calls itself with its captured value within reach and a branch. -/
def capturing : CompiledFunction where
  code := Code.assemble
    [(.getLocal, [0]), (.jumpUnlessTruthy, [12]), (.currentClosure, []), (.pushFalse, []),
     (.call, [1]), (.jump, [14]), (.getFree, [0]), (.returnValue, [])]
  locals := 1
  parameters := 1

/-- A function that makes a closure of `capturing` around its argument. -/
def maker : CompiledFunction where
  code := Code.assemble [(.getLocal, [0]), (.closure, [1, 1]), (.returnValue, [])]
  locals := 1
  parameters := 1

/-- A stream that has a closure made, keeps it in a global and puts what it answers into a hash. -/
def captureBundle : Bundle where
  code := Code.assemble
    [(.closure, [2, 0]), (.constant, [0]), (.call, [1]), (.setGlobal, [0]), (.constant, [3]),
     (.getGlobal, [0]), (.pushTrue, []), (.call, [1]), (.hash, [2]), (.pop, [])]
  constants :=
    [.integer 1, .compiled (.object 0) capturing, .compiled (.object 1) maker,
     .string (.object 2) "answer"]

/-- Only closures of `capturing` capture a value. -/
def captureFrees (place : Nat) : Nat := if place = 1 then 1 else 0

theorem wellFormed_captureBundle : captureBundle.WellFormed captureFrees where
  constants := by decide
  parameters_le := by
    intro id function hFunction
    simp only [captureBundle, List.mem_cons, reduceCtorEq, Value.compiled.injEq, false_or,
      List.not_mem_nil, or_false] at hFunction
    rcases hFunction with ⟨_, rfl⟩ | ⟨_, rfl⟩ <;> decide
  main := ⟨heightsAt [(0, 0), (4, 1), (7, 2), (9, 1), (12, 0), (15, 1), (18, 2), (19, 3), (21, 2),
    (24, 1)], by decide +kernel⟩
  functions := by
    intro place id function hFunction
    rcases place with _ | _ | _ | _ | place
    · cases hFunction
    · cases hFunction
      exact ⟨heightsAt [(0, 0), (2, 1), (5, 0), (6, 1), (7, 2), (9, 1), (12, 0), (14, 1)],
        by decide +kernel⟩
    · cases hFunction
      exact ⟨heightsAt [(0, 0), (2, 1), (6, 1)], by decide +kernel⟩
    · cases hFunction
    · cases hFunction

end Machine

end Tandem
