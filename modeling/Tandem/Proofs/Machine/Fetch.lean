import Tandem.Proofs.Code.Decoding
import Tandem.Proofs.Machine.Run
/-!
Steps by the instruction at the cursor. A step that finds an instruction with all its operand
bytes is the execution of that instruction in a machine whose cursor has moved on and whose host
may have written a trace message. A step that finds none stops the run.
-/
namespace Tandem

theorem Instruction.length_pos (i : Instruction) : 0 < i.length := by
  cases i <;> exact Nat.succ_pos _

namespace Machine

def next? (m : Machine) : Option Instruction := m.frame.function.code.instructionAt? m.frame.cursor

/-- The byte at the cursor, if it is no opcode. -/
def unknown? (m : Machine) : Option UInt8 := m.frame.function.code.unknownAt? m.frame.cursor

/-- Where there is an instruction, something is left to run. -/
theorem running_of_next? {m : Machine} {i : Instruction} (h : m.next? = some i) :
    m.frame.atEnd = false :=
  decide_eq_false (Nat.not_le.mpr (Code.lt_size_of_instructionAt? h))

/-- The host once the message for the instruction at the cursor has been written, if one is asked
for. -/
def tracedHost (settings : Settings) (m : Machine) : Host :=
  if settings.trace then
    match m.frame.function.code.entryAt? m.frame.cursor with
    | some entry => m.host.trace (Execution.traceMessage m entry)
    | none => m.host
  else m.host

/-- The machine in which an instruction that was found at the cursor is executed. -/
def fetched (settings : Settings) (i : Instruction) (m : Machine) : Machine :=
  { m with
    frame := { m.frame with cursor := m.frame.cursor + i.length }
    host := m.tracedHost settings }

/-- Tracing gives out no labels. -/
@[simp]
theorem labels_tracedHost (settings : Settings) (m : Machine) :
    (m.tracedHost settings).labels = m.host.labels := by
  unfold tracedHost
  split
  · split <;> rfl
  · rfl

/-- Tracing prints no lines of the program. -/
@[simp]
theorem printed_tracedHost (settings : Settings) (m : Machine) :
    (m.tracedHost settings).printed = m.host.printed := by
  unfold tracedHost
  split
  · split <;> rfl
  · rfl

variable (settings : Settings) (i : Instruction) (m : Machine)

@[simp]
theorem stack_fetched : (m.fetched settings i).stack = m.stack := rfl

@[simp]
theorem sp_fetched : (m.fetched settings i).sp = m.sp := rfl

@[simp]
theorem callers_fetched : (m.fetched settings i).callers = m.callers := rfl

@[simp]
theorem frame_fetched : (m.fetched settings i).frame =
    { m.frame with cursor := m.frame.cursor + i.length } := rfl

@[simp]
theorem labels_fetched : (m.fetched settings i).host.labels = m.host.labels :=
  labels_tracedHost settings m

end Machine

namespace Execution

variable {settings : Settings} {m : Machine}

/-- Looking at the machine changes nothing. -/
theorem get_bind {α : Type} (next : Machine → Execution α) (m : Machine) :
    (get >>= next) m = next m m := rfl

/-- Where the machine finds an instruction, so does tracing. It touches nothing but the host. -/
theorem trace_of_next? {i : Instruction} (h : m.next? = some i) :
    trace settings m = (.ok (), { m with host := m.tracedHost settings }) := by
  have hEntry := Code.entryAt?_of_instructionAt? h
  unfold trace Machine.tracedHost
  split
  · rw [get_bind, hEntry]
    rfl
  · rfl

/-- Where there is no entry to show, tracing faults before the machine can. -/
theorem trace_of_missing
    (h : m.frame.function.code.entryAt? m.frame.cursor = none) :
    trace settings m = (if settings.trace then .error .fault else .ok (), m) := by
  unfold trace
  split
  · rw [get_bind, h]
    rfl
  · rfl

theorem fetch_of_next? {i : Instruction} (hNext : m.next? = some i) :
    fetch settings m = (.ok i, m.fetched settings i) := by
  have h := hNext
  unfold Machine.next? Code.instructionAt? at h
  unfold fetch
  rw [get_bind]
  cases hByte : m.frame.function.code.byteAt? m.frame.cursor with
  | none => simp [hByte] at h
  | some byte =>
      cases hOp : Opcode.ofByte? byte with
      | none => simp [hByte, hOp] at h
      | some op =>
          have hDecode : Instruction.decode? m.frame.function.code op (m.frame.cursor + 1) =
              some i := by simpa [hByte, hOp] using h
          simp only [hOp, hDecode]
          rw [bind_apply, trace_of_next? hNext]
          rfl

theorem fetch_of_unknown? (settings : Settings) {byte : UInt8} (h : m.unknown? = some byte) :
    fetch settings m = (.error (.error (.unknownOpcode byte)),
      { m with frame := { m.frame with cursor := m.frame.cursor + 1 } }) := by
  obtain ⟨hByte, hUnknown⟩ := Option.filter_eq_some_iff.mp h
  have hOp : Opcode.ofByte? byte = none := by simpa using hUnknown
  unfold fetch
  rw [get_bind, hByte]
  simp only [hOp]
  rfl

/-- Where the opcode or some of its operand bytes are missing, fetching faults, be it in tracing or
in decoding. It leaves no trace message. -/
theorem fetch_of_missing (settings : Settings) (h : m.next? = none) (hUnknown : m.unknown? = none) :
    fetch settings m = (.error .fault, m) := by
  unfold fetch
  rw [get_bind]
  cases hByte : m.frame.function.code.byteAt? m.frame.cursor with
  | none => rfl
  | some byte =>
      cases hOp : Opcode.ofByte? byte with
      | none => simp [Machine.unknown?, Code.unknownAt?, hByte, hOp] at hUnknown
      | some op =>
          have hDecode : Instruction.decode? m.frame.function.code op (m.frame.cursor + 1) =
              none := by simpa [Machine.next?, Code.instructionAt?, hByte, hOp] using h
          have hEntry : m.frame.function.code.entryAt? m.frame.cursor = none := by
            rw [Code.entryAt?_of_byteAt? hByte hOp]
            exact Option.map_eq_none_iff.mpr h
          simp only [hOp, hDecode]
          rw [bind_apply, trace_of_missing hEntry]
          cases settings.trace <;> rfl

/-- A step that finds an instruction is its execution. -/
theorem step_of_next? {i : Instruction} (h : m.next? = some i) :
    step settings m = execute i (m.fetched settings i) := by
  unfold step
  rw [bind_apply, fetch_of_next? h]

theorem step_of_unknown? (settings : Settings) {byte : UInt8} (h : m.unknown? = some byte) :
    step settings m = (.error (.error (.unknownOpcode byte)),
      { m with frame := { m.frame with cursor := m.frame.cursor + 1 } }) := by
  unfold step
  rw [bind_apply, fetch_of_unknown? settings h]

theorem step_of_missing (settings : Settings) (h : m.next? = none) (hUnknown : m.unknown? = none) :
    step settings m = (.error .fault, m) := by
  unfold step
  rw [bind_apply, fetch_of_missing settings h hUnknown]

/-- A step that finds no instruction stops the run: it faults, or it has read a byte that is no
opcode. -/
theorem step_of_next?_eq_none (settings : Settings) (h : m.next? = none) :
    step settings m = (.error .fault, m) ∨
      ∃ byte, step settings m = (.error (.error (.unknownOpcode byte)),
        { m with frame := { m.frame with cursor := m.frame.cursor + 1 } }) := by
  cases hUnknown : m.unknown? with
  | none => exact Or.inl (step_of_missing settings h hUnknown)
  | some byte => exact Or.inr ⟨byte, step_of_unknown? settings hUnknown⟩

/-- A step that does not stop the run has found an instruction and executed it. -/
theorem exists_execute_of_step {next : Machine} (h : step settings m = (.ok (), next)) :
    ∃ i, m.next? = some i ∧ execute i (m.fetched settings i) = (.ok (), next) := by
  cases hNext : m.next? with
  | none =>
      rcases step_of_next?_eq_none settings hNext with hStep | ⟨byte, hStep⟩
      all_goals
        rw [hStep] at h
        cases h
  | some i =>
      rw [step_of_next? hNext] at h
      exact ⟨i, rfl, h⟩

end Execution

namespace Machine

variable {settings : Settings} {m finish : Machine} {i : Instruction}

/-- The step that executes the instruction at the cursor. -/
theorem reaches_of_execute (hNext : m.next? = some i)
    (h : Execution.execute i (m.fetched settings i) = (.ok (), finish)) :
    Reaches settings m finish := by
  rw [← Execution.step_of_next? hNext] at h
  exact (Reaches.refl finish).step (running_of_next? hNext) h

theorem ends_of_execute {stop : Stop} (hNext : m.next? = some i)
    (h : Execution.execute i (m.fetched settings i) = (.error stop, finish)) :
    Ends settings m (.error stop) finish := by
  rw [← Execution.step_of_next? hNext] at h
  exact Ends.stopped (Reaches.refl m) (running_of_next? hNext) h

end Machine

end Tandem
