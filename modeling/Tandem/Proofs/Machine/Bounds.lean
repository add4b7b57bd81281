import Tandem.Proofs.Machine.Verification
/-!
What every run keeps, whatever bytes it is given. Streams may be malformed, jumps may lead into
operands and functions may take values off the stack that are not theirs: until something is
missing that an instruction asks for, the stack pointer stays within the stack, the globals keep
their number, and every frame but that of the top-level stream starts above a callee. So there is
always room for the value with which a function is left, and the stack overflows only where an
instruction makes it grow.
-/
namespace Tandem

/-- Writing to one of the first slots keeps no slot beyond them. -/
theorem Slots.size_kept_write_le {slots : Slots} {slot size : Nat} (hKept : slots.kept.size ≤ size)
    (hSlot : slot < size) (value : Value) : (slots.write slot value).kept.size ≤ size := by
  unfold Slots.write
  split
  · simpa using hKept
  · simp only [Array.size_push, Array.size_append, Array.size_replicate]
    omega

/-- The instruction puts a value on the stack without taking one off, or calls a closure and makes
room for its locals. -/
def Instruction.Grows (m : Machine) : Instruction → Prop
  | constant _ | boolean _ | null | getGlobal _ | getLocal _ | getBuiltin _ | getFree _
  | currentClosure => True
  | array count | hash count => count = 0
  | closure _ free => free = 0
  | call arguments => ∃ id function free,
      m.stack.read (m.sp - 1 - arguments) = .closure id function free
  | _ => False

namespace Machine

/-- The frames stand on that of the top-level stream, wherever its cursor is. Every other frame
starts above its callee and within the stack. -/
inductive Grounded (main : Frame) : List Frame → Prop where
  | main (cursor : Nat) : Grounded main [{ main with cursor := cursor }]
  | called {frame caller : Frame} {callers : List Frame} (hPositive : 0 < frame.base)
      (hBase : frame.base ≤ stackSize) (below : Grounded main (caller :: callers)) :
      Grounded main (frame :: caller :: callers)

/-- What holds of every machine that a run comes to, where `main` is the first frame and there are
as many globals as `slots`. -/
structure InBounds (main : Frame) (slots : Nat) (m : Machine) : Prop where
  stack : m.stack.size = stackSize
  kept_le : m.stack.kept.size ≤ stackSize
  sp_le : m.sp ≤ stackSize
  globals : m.globals.size = slots
  frames : Grounded main (m.frame :: m.callers)

section

variable {main frame : Frame} {callers : List Frame} {slots : Nat}

/-- Where the cursor of a frame stands does not matter. -/
theorem Grounded.moved (h : Grounded main (frame :: callers)) (cursor : Nat) :
    Grounded main ({ frame with cursor := cursor } :: callers) := by
  cases h with
  | main _ => exact Grounded.main cursor
  | called hPositive hBase below => exact Grounded.called hPositive hBase below

/-- A frame with a caller starts above its callee. -/
theorem Grounded.base_of_caller {caller : Frame}
    (h : Grounded main (frame :: caller :: callers)) :
    (0 < frame.base ∧ frame.base ≤ stackSize) ∧ Grounded main (caller :: callers) := by
  cases h with
  | called hPositive hBase below => exact ⟨⟨hPositive, hBase⟩, below⟩

theorem Grounded.base_le (hMain : main.base = 0) (h : Grounded main (frame :: callers)) :
    frame.base ≤ stackSize := by
  cases h with
  | main cursor => exact hMain ▸ Nat.zero_le _
  | called hPositive hBase below => exact hBase

theorem inBounds_load (bundle : Bundle) (globals : Slots) (host : Host) :
    (load bundle globals host).InBounds (load bundle globals host).frame
      (max globalsSize globals.size) :=
  ⟨rfl, Nat.zero_le _, Nat.zero_le _, rfl, Grounded.main 0⟩

variable {settings : Settings} {m : Machine} {i : Instruction}

theorem InBounds.drop (h : m.InBounds main slots) {sp : Nat} (hSp : sp ≤ m.sp) :
    InBounds main slots { m with sp := sp } :=
  { h with sp_le := Nat.le_trans hSp h.sp_le }

theorem InBounds.moved (h : m.InBounds main slots) (cursor : Nat) :
    InBounds main slots { m with frame := { m.frame with cursor := cursor } } :=
  { h with frames := h.frames.moved cursor }

/-- Whether an instruction goes through or ends the run with an error, the bounds are kept. Only a
fault ends a run in the middle of an instruction. -/
theorem InBounds.effect {result : Except Stop Unit × Machine} (h : m.InBounds main slots)
    (hMain : main.base = 0) (hEffect : m.Effect i result) (hResult : result.1 ≠ .error .fault) :
    result.2.InBounds main slots := by
  cases hEffect with
  | result value host _ hOperands hRoom hMade =>
      exact ⟨(Slots.size_write _ _ _).trans h.stack, Slots.size_kept_write_le h.kept_le hRoom _,
        hRoom, h.globals, h.frames⟩
  | drop hOperand => exact h.drop (Nat.sub_le _ _)
  | jump target => exact h.moved target
  | stay target hOperand hTruthy => exact h.drop (Nat.sub_le _ _)
  | branch target hOperand hTruthy => exact (h.drop (Nat.sub_le _ _)).moved target
  | setGlobal slot hOperand hSlot =>
      exact { h.drop (Nat.sub_le _ _) with globals := (Slots.size_write _ _ _).trans h.globals }
  | setLocal slot hOperand hSlot =>
      exact ⟨(Slots.size_write _ _ _).trans h.stack,
        Slots.size_kept_write_le h.kept_le (h.stack ▸ hSlot) _,
        Nat.le_trans (Nat.sub_le _ _) h.sp_le, h.globals, h.frames⟩
  | enter arguments id function free hOperands hCallee hArity hRoom =>
      refine ⟨h.stack, h.kept_le, hRoom, h.globals, Grounded.called ?_ ?_ h.frames⟩
      · exact Nat.sub_pos_of_lt hOperands
      · exact Nat.le_trans (Nat.sub_le _ _) h.sp_le
  | leave caller callers hLeaves hCallers hPositive hRoom =>
      have hFrames := h.frames
      rw [hCallers] at hFrames
      exact ⟨(Slots.size_write _ _ _).trans h.stack,
        Slots.size_kept_write_le h.kept_le (by omega) _, hRoom, h.globals,
        hFrames.base_of_caller.2⟩
  | finish hLeaves hCallers => exact (h.drop (Nat.sub_le _ _)).moved _
  | error cause sp host hLower _ => exact { h.drop hLower with }
  | leaveFull after hFull => exact absurd hFull (Nat.not_lt.mpr (h.frames.base_le hMain))
  | fault after hSupported => exact absurd rfl hResult

theorem InBounds.fetched (h : m.InBounds main slots) (settings : Settings) (i : Instruction) :
    (m.fetched settings i).InBounds main slots :=
  { h.moved (m.frame.cursor + i.length) with }

/-- There is always room for the value with which a function is left. -/
theorem InBounds.leave_eq_ok (h : m.InBounds main slots) (value : Value) :
    ∃ next, Execution.leave value m = (.ok (), next) := by
  have hFrames := h.frames
  cases hCallers : m.callers with
  | nil => exact ⟨_, Execution.leave_of_main hCallers value⟩
  | cons caller callers =>
      rw [hCallers] at hFrames
      obtain ⟨⟨hPositive, hBase⟩, _⟩ := hFrames.base_of_caller
      have hCallee : m.frame.base = m.frame.base - 1 + 1 := by omega
      rw [Execution.leave_of_caller hCallers hCallee, Execution.push_of_lt (by simp only; omega)]
      exact ⟨_, rfl⟩

/-- A return that finds the value to return never stops the run. -/
theorem InBounds.step_of_leaves (h : m.InBounds main slots) {value : Value}
    (hNext : m.next? = some i) (hLeaves : i.Leaves m value) (settings : Settings) :
    ∃ next, Execution.step settings m = (.ok (), next) := by
  have hFetched := h.fetched settings i
  rw [Execution.step_of_next? hNext]
  cases hLeaves with
  | value hOperand =>
      rw [Execution.execute, Execution.bind_apply, Execution.pop_of_pos (by exact hOperand)]
      exact (hFetched.drop (Nat.sub_le _ _)).leave_eq_ok _
  | null => exact hFetched.leave_eq_ok .null

/-- The stack overflows only where an instruction makes it grow. -/
theorem InBounds.grows_of_overflow {next : Machine} (h : m.InBounds main slots)
    (hMain : main.base = 0)
    (hStep : Execution.step settings m = (.error (.error .stackOverflow), next)) :
    ∃ i, m.next? = some i ∧ i.Grows m := by
  cases hNext : m.next? with
  | none =>
      rcases Execution.step_of_next?_eq_none settings hNext with hOther | ⟨_, hOther⟩
      all_goals
        rw [hOther] at hStep
        cases hStep
  | some i =>
      refine ⟨i, rfl, ?_⟩
      have hEffect := Execution.effect_execute i (m.fetched settings i)
      rw [← Execution.step_of_next? hNext, hStep] at hEffect
      cases hEffect with
      | leaveFull after hFull =>
          have hBase : m.frame.base ≤ stackSize := h.frames.base_le hMain
          exact absurd hFull (Nat.not_lt.mpr hBase)
      | error cause sp host hLower hOverflow =>
          rcases hOverflow rfl with hFull | ⟨arguments, id, function, free, rfl, hCallee⟩
          · -- A full stack that keeps all its values has no operand taken off it.
            have hSp := h.sp_le
            have hNone : i.operands = 0 := by
              rw [sp_fetched] at hFull
              unfold stackSize at hFull hSp
              omega
            cases i with
            | jump target =>
                rw [Execution.step_of_next? hNext] at hStep
                cases hStep
            | returnNull =>
                obtain ⟨_, hOk⟩ := h.step_of_leaves hNext Instruction.Leaves.null settings
                rw [hOk] at hStep
                cases hStep
            | array count | hash count | closure place count => exact hNone
            | constant | boolean | null | getGlobal | getLocal | getBuiltin | getFree
            | currentClosure => trivial
            | _ => cases hNone
          · exact ⟨id, function, free, hCallee⟩

/-- A step that does not fault keeps the bounds, be it the last one or not. -/
theorem InBounds.step {outcome : Except Stop Unit} {next : Machine} (h : m.InBounds main slots)
    (hMain : main.base = 0) (hStep : Execution.step settings m = (outcome, next))
    (hOutcome : outcome ≠ .error .fault) : next.InBounds main slots := by
  cases hNext : m.next? with
  | none =>
      rcases Execution.step_of_next?_eq_none settings hNext with hOther | ⟨_, hOther⟩
      all_goals
        rw [hOther] at hStep
        cases hStep
      · exact absurd rfl hOutcome
      · exact h.moved _
  | some i =>
      have hEffect := Execution.effect_execute i (m.fetched settings i)
      rw [← Execution.step_of_next? hNext, hStep] at hEffect
      exact (h.fetched settings i).effect hMain hEffect hOutcome

end

/-- Every machine that a run comes to is in bounds: the stack keeps its size and the stack pointer
stays within it, there are as many globals as at the start, which is enough for every slot that an
instruction names, and the frames stand on that of the top-level stream. So a return never fails for
want of room, and an error that ends the run leaves a machine in bounds; that error is a stack
overflow only where an instruction makes the stack grow. -/
theorem runs_keep_within_bounds (settings : Settings) (bundle : Bundle) (globals : Slots)
    (host : Host) :
    (load bundle globals host).frame.base = 0 ∧
    ∀ m, Reaches settings (load bundle globals host) m →
      m.InBounds (load bundle globals host).frame (max globalsSize globals.size) ∧
      (∀ slot, m.next? = some (.getGlobal slot) ∨ m.next? = some (.setGlobal slot) →
        slot < m.globals.size) ∧
      (∀ i value, m.next? = some i → i.Leaves m value →
        ∃ next, Execution.step settings m = (.ok (), next)) ∧
      ∀ cause next, Execution.step settings m = (.error (.error cause), next) →
        next.InBounds (load bundle globals host).frame (max globalsSize globals.size) ∧
        (cause = .stackOverflow → ∃ i, m.next? = some i ∧ i.Grows m) := by
  refine ⟨rfl, fun m run => ?_⟩
  have hBounds : m.InBounds (load bundle globals host).frame (max globalsSize globals.size) :=
    run.invariant (inBounds_load bundle globals host)
      fun m next _ hStep h => h.step rfl hStep (by simp)
  refine ⟨hBounds, fun slot hNext => ?_, fun i value hNext hLeaves =>
    hBounds.step_of_leaves hNext hLeaves settings, fun cause next hStep => ⟨?_, ?_⟩⟩
  · rw [hBounds.globals]
    exact Nat.lt_of_lt_of_le (Code.slot_lt_of_instructionAt? hNext.symm) (Nat.le_max_left _ _)
  · exact hBounds.step rfl hStep (by simp)
  · rintro rfl
    exact hBounds.grows_of_overflow rfl hStep

/-- A function that drops its callee and a value of its caller before it makes a call, for which
there are not enough slots. -/
def belowBase : Bundle where
  code := Code.assemble [(.pushNull, []), (.closure, [0, 0]), (.call, [0])]
  constants :=
    [.compiled (.object 0)
      ⟨Code.assemble [(.pop, []), (.pop, []), (.closure, [1, 0]), (.call, [0])], 0, 0⟩,
     .compiled (.object 1) ⟨{}, stackSize, 0⟩]

/-- After six steps the stack ends below the first slot of the running function, and the call in it
overflows the stack. All of this stays in bounds. -/
theorem belowBase_keeps_within_bounds :
    ∃ m next, Reaches {} (load belowBase { size := 0 } {}) m ∧ m.sp < m.frame.base ∧
      m.InBounds (load belowBase { size := 0 } {}).frame globalsSize ∧
      Execution.step {} m = (.error (.error .stackOverflow), next) ∧
      next.InBounds (load belowBase { size := 0 } {}).frame globalsSize ∧
      ∃ i, m.next? = some i ∧ i.Grows m := by
  have run : Reaches {} (load belowBase { size := 0 } {})
      (after {} (load belowBase { size := 0 } {}) 6) := ⟨6, runsFor_after (by decide +kernel)⟩
  have hOutcome : (Execution.step {} (after {} (load belowBase { size := 0 } {}) 6)).1 =
      .error (.error .stackOverflow) := by rfl
  have hBelow : (after {} (load belowBase { size := 0 } {}) 6).sp <
      (after {} (load belowBase { size := 0 } {}) 6).frame.base := by decide +kernel
  generalize after {} (load belowBase { size := 0 } {}) 6 = m at run hOutcome hBelow
  obtain ⟨hBounds, _, _, hError⟩ := (runs_keep_within_bounds {} belowBase { size := 0 } {}).2 m run
  have hStep : Execution.step {} m =
      (.error (.error .stackOverflow), (Execution.step {} m).2) := Prod.ext hOutcome rfl
  obtain ⟨hNext, hGrows⟩ := hError _ _ hStep
  exact ⟨m, _, run, hBelow, hBounds, hStep, hNext, hGrows rfl⟩

end Machine

end Tandem
