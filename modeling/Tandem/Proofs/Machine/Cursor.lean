import Tandem.Proofs.Code.Reading
import Tandem.Proofs.Machine.Effect
/-!
The cursor after a step. The machine reads operands by its own rule, but it executes just what a
listing shows at the cursor, and it faults just where the listing has nothing to show because
operand bytes are missing. Unless the instruction jumps or leaves its function, the frame that
executed it goes on at the offset that the listing takes for the next one; after the call of a
closure it waits there until the closure has returned.
-/
namespace Tandem

/-- The frame that executes an instruction with the opcode does not go on with the one that follows:
it jumps, or it is left, which at the top level ends the run. -/
def Opcode.Departs (m : Machine) : Opcode → Prop
  | jump | returnValue | returnNull => True
  | jumpUnlessTruthy => (m.stack.read (m.sp - 1)).isTruthy = false
  | _ => False

namespace Machine

def frameAt (m : Machine) (offset : Nat) : Frame := { m.frame with cursor := offset }

/-- The other machine goes on with the running frame of `m` at the offset. Where a closure was
called, that frame waits there and the closure runs from its start. -/
inductive GoesOnAt (m : Machine) (offset : Nat) (other : Machine) : Prop where
  | running (hFrame : other.frame = m.frameAt offset) (hCallers : other.callers = m.callers)
  | waiting (hCall : ∃ arguments, m.next? = some (.call arguments))
      (hStart : other.frame.cursor = 0) (hCallers : other.callers = m.frameAt offset :: m.callers)

variable {settings : Settings} {m : Machine}

/-- An instruction that neither jumps nor leaves its function leaves the cursor after itself. -/
theorem Effect.goesOnAt {i : Instruction} {next : Machine}
    (hEffect : (m.fetched settings i).Effect i (.ok (), next)) (hNext : m.next? = some i)
    (hStays : ¬ i.opcode.Departs m) : m.GoesOnAt (m.frame.cursor + i.length) next := by
  cases hEffect with
  | result | drop | stay | setGlobal | setLocal => exact GoesOnAt.running rfl rfl
  | enter arguments => exact GoesOnAt.waiting ⟨arguments, hNext⟩ rfl rfl
  | jump => exact absurd trivial hStays
  | branch target hOperand hTruthy => exact absurd hTruthy hStays
  | leave caller callers hLeaves => cases hLeaves <;> exact absurd trivial hStays
  | finish hLeaves => cases hLeaves <;> exact absurd trivial hStays

/-- As long as functions called by a waiting frame run, it waits as it is; once none of them is
left, it runs. -/
theorem RunsFor.resumes {waiting : Frame} {callers : List Frame} {start finish : Machine}
    {steps : Nat}
    (run : RunsFor settings (fun other => callers.length < other.callers.length) start finish steps)
    (hStart : start.callers = waiting :: callers) :
    waiting :: callers <:+ finish.callers ∨ finish.frame = waiting ∧ finish.callers = callers := by
  induction run with
  | zero => exact Or.inl (hStart ▸ List.suffix_rfl)
  | @succ middle finish steps prior hDeeper hRunning last ih =>
      rcases ih with hWaits | ⟨_, hCallers⟩
      · obtain ⟨i, _, hEffect⟩ := Execution.effect_of_step last
        cases hEffect with
        | result | drop | jump | stay | branch | setGlobal | setLocal | finish =>
            exact Or.inl hWaits
        | enter => exact Or.inl (hWaits.trans (List.suffix_cons _ _))
        | leave caller others hLeaves hCallers =>
            rw [callers_fetched] at hCallers
            rw [hCallers] at hWaits
            rcases List.suffix_cons_iff.mp hWaits with hLast | hOthers
            · cases hLast
              exact Or.inr ⟨rfl, rfl⟩
            · exact Or.inl hOthers
      · rw [hCallers] at hDeeper
        exact absurd hDeeper (Nat.lt_irrefl _)

/-- No step is taken from a machine that may not take one. -/
theorem RunsFor.eq_of_not_allowed {allowed : Machine → Prop} {start finish : Machine}
    {steps : Nat} (run : RunsFor settings allowed start finish steps) (h : ¬ allowed start) :
    finish = start := by
  induction run with
  | zero => rfl
  | succ prior hAllowed hRunning last ih => exact absurd (ih ▸ hAllowed) h

/-- The next time that no function called since is running, the frame is back at the offset. -/
theorem GoesOnAt.frame_eq {offset : Nat} {next finish : Machine} {steps : Nat}
    (h : m.GoesOnAt offset next)
    (run : RunsFor settings (fun other => m.callers.length < other.callers.length)
      next finish steps)
    (hBack : finish.callers.length ≤ m.callers.length) :
    finish.frame = m.frameAt offset ∧ finish.callers = m.callers := by
  cases h with
  | running hFrame hCallers =>
      obtain rfl : finish = next := run.eq_of_not_allowed (by rw [hCallers]; exact Nat.lt_irrefl _)
      exact ⟨hFrame, hCallers⟩
  | waiting hCall hStart hCallers =>
      rcases run.resumes hCallers with hWaits | hResumed
      · exact absurd hWaits.length_le (Nat.not_le.mpr (Nat.lt_succ_of_le hBack))
      · exact hResumed

/-- What a listing shows at the cursor is what the step executes. For an opcode that lacks operand
bytes the listing has nothing to show, and the step faults. For any other opcode the listing shows
the operands that are read after it, and the step is the execution of the instruction with that
opcode and those operands. If the step succeeds, then unless the instruction jumps or leaves its
function the frame that executed it goes on where the listing goes on: at once, or, where a closure
was called, as soon as no function called since is running any more. -/
theorem steps_execute_what_is_listed (settings : Settings) {m : Machine} {byte : UInt8}
    {op : Opcode} (hByte : m.frame.function.code.byteAt? m.frame.cursor = some byte)
    (hOp : Opcode.ofByte? byte = some op) :
    (m.frame.function.code.size < m.frame.cursor + 1 + op.operandSize →
      m.frame.function.code.entryAt? m.frame.cursor = none ∧
        Execution.step settings m = (.error .fault, m)) ∧
    (m.frame.cursor + 1 + op.operandSize ≤ m.frame.function.code.size →
      ∃ entry operands i,
        m.frame.function.code.entryAt? m.frame.cursor = some entry ∧
        op.readOperands? (m.frame.function.code.toList.drop (m.frame.cursor + 1)) = some operands ∧
        entry.item = .instruction op operands ∧ i.opcode = op ∧ i.numbers = operands ∧
        Execution.step settings m = Execution.execute i (m.fetched settings i) ∧
        ∀ next, Execution.step settings m = (.ok (), next) → ¬ op.Departs m →
          m.GoesOnAt entry.next next ∧
            ∀ finish steps,
              RunsFor settings (fun other => m.callers.length < other.callers.length)
                next finish steps →
              finish.callers.length ≤ m.callers.length →
              finish.frame = m.frameAt entry.next ∧ finish.callers = m.callers) := by
  refine ⟨fun hShort => ?_, fun hRoom => ?_⟩
  · have hCut : m.frame.function.code.CutShortAt m.frame.cursor := ⟨byte, op, hByte, hOp, hShort⟩
    obtain ⟨hNext, hUnknown⟩ := hCut.instructionAt?_eq_none
    exact ⟨(Code.entryAt?_eq_none_iff _ _).mpr (Or.inr hCut),
      Execution.step_of_missing settings hNext hUnknown⟩
  · obtain ⟨i, hNext, rfl, hOperands⟩ := Code.exists_instructionAt? hByte hOp hRoom
    have hEntry := Code.entryAt?_of_instructionAt? hNext
    refine ⟨_, _, i, hEntry, hOperands, rfl, rfl, rfl, Execution.step_of_next? hNext, ?_⟩
    intro next hStep hStays
    rw [Execution.step_of_next? hNext] at hStep
    have hEffect := Execution.effect_execute i (m.fetched settings i)
    rw [hStep] at hEffect
    have hGoesOn := hEffect.goesOnAt hNext hStays
    rw [← i.size_item] at hGoesOn
    exact ⟨hGoesOn, fun finish steps run hBack => hGoesOn.frame_eq run hBack⟩

def givesBack : CompiledFunction :=
  { code := Code.assemble [(.getLocal, [0]), (.returnValue, [])], locals := 1, parameters := 1 }

/-- About to call the function with `true`. The call stands after a byte that is no opcode. -/
def callsLate : Machine :=
  { constants := []
    stack := Slots.ofList stackSize [.closure (.object 0) givesBack [], .boolean true]
    sp := 2
    globals := { size := globalsSize }
    frame := ⟨.program 0, ⟨Code.ofList [250, 25, 1, 1], 0, 0⟩, [], 1, 0⟩
    host := { labels := { objects := 1 } } }

/-- The same machine over a stream that ends after the opcode of the call. -/
def callsCutShort : Machine :=
  { callsLate with frame := ⟨.program 0, ⟨Code.ofList [250, 25], 0, 0⟩, [], 1, 0⟩ }

/-- The call is listed as `Call 1` and the next item at offset 3. There the calling frame goes on
once the function has returned, two steps later. Without its operand byte the call faults. -/
theorem callsLate_executes_what_is_listed :
    callsLate.frame.function.code.byteAt? 1 = some 25 ∧ Opcode.ofByte? 25 = some .call ∧
      callsLate.frame.function.code.entryAt? 1 = some ⟨1, .instruction .call [1]⟩ ∧
      (∃ finish, RunsFor {} (fun other => callsLate.callers.length < other.callers.length)
        (callsLate.after {} 1) finish 2 ∧ finish.frame = callsLate.frameAt 3) ∧
      Execution.step {} callsCutShort = (.error .fault, callsCutShort) := by
  have hByte : callsLate.frame.function.code.byteAt? callsLate.frame.cursor = some 25 := rfl
  have hCutByte : callsCutShort.frame.function.code.byteAt? callsCutShort.frame.cursor = some 25 :=
    rfl
  have hOp : Opcode.ofByte? 25 = some .call := rfl
  have hEntry : callsLate.frame.function.code.entryAt? callsLate.frame.cursor =
      some ⟨1, .instruction .call [1]⟩ := by decide
  obtain ⟨entry, operands, i, hShown, _, hItem, hOpcode, _, _, hSteps⟩ :=
    (steps_execute_what_is_listed {} hByte hOp).2 (by decide)
  obtain rfl : ⟨1, .instruction .call [1]⟩ = entry := Option.some.inj (hEntry.symm.trans hShown)
  have run : RunsFor {} (fun other => callsLate.callers.length < other.callers.length)
      (callsLate.after {} 1) _ 2 := runsFor_after (by decide +kernel)
  have hFirst : Execution.step {} callsLate = (.ok (), callsLate.after {} 1) :=
    step_eq_of_isOk (by decide +kernel)
  have hBack := (hSteps _ hFirst id).2 _ 2 run (by decide +kernel)
  exact ⟨hByte, hOp, hEntry, ⟨_, run, hBack.1⟩,
    ((steps_execute_what_is_listed {} hCutByte hOp).1 (by decide)).2⟩

end Machine

end Tandem
