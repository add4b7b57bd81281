import Tandem.Proofs.Machine.Calls
import Tandem.Proofs.Machine.SideBySide
/-!
Top-level streams that stand inside longer ones. A machine that comes to a straight stream in the
middle of a longer one does what a machine does that runs that stream alone. The cursors differ in
the frame at the bottom only: functions that are called are the same on both. Lines may have been
printed before, and trace messages name other offsets.
-/
namespace Tandem

/-- The other host has the same labels left for values, and has printed the same lines after those
given. -/
structure Host.Continues (earlier : Array String) (host other : Host) : Prop where
  objects : other.labels.objects = host.labels.objects
  printed : other.printed = earlier ++ host.printed

theorem Host.Continues.quiet {α : Type} {earlier : Array String} {host other : Host}
    {action : StateM Host α} (h : host.Continues earlier other) (hQuiet : Quiet action) :
    (action.run host).1 = (action.run other).1 ∧
      (action.run host).2.Continues earlier (action.run other).2 := by
  let change : Host → Host := fun host =>
    ⟨⟨host.labels.objects, other.labels.programs⟩, earlier ++ host.printed, other.traced⟩
  have hUnseen : Unseen change := ⟨fun _ => rfl, fun _ _ => by simp [change, print]⟩
  have hOther : other = change host := by
    obtain ⟨⟨objects, programs⟩, printed, traced⟩ := other
    obtain ⟨rfl, rfl⟩ := h
    rfl
  rw [hOther, hQuiet change hUnseen host]
  exact ⟨rfl, rfl, rfl⟩

def Frame.topLevel (id : Label) (code : Code) (cursor : Nat) : Frame :=
  ⟨id, ⟨code, 0, 0⟩, [], cursor, 0⟩

/-- The frames are the same but for that at the bottom. There the one stack has a frame of the
stream `code`, and the other a frame of `whole`, in which that stream stands at `place`. -/
inductive PlacedFrames (code whole : Code) (place : Nat) : List Frame → List Frame → Prop where
  | topLevel (id other : Label) {cursor : Nat} (hVisits : code.Visits cursor) :
      PlacedFrames code whole place [.topLevel id code cursor]
        [.topLevel other whole (place + cursor)]
  | called (frame : Frame) {callers others : List Frame}
      (below : PlacedFrames code whole place callers others) :
      PlacedFrames code whole place (frame :: callers) (frame :: others)

/-- Frames of functions that were called are the same. -/
theorem PlacedFrames.of_called {code whole : Code} {place : Nat} {frame caller other : Frame}
    {callers others : List Frame}
    (h : PlacedFrames code whole place (frame :: caller :: callers) (other :: others)) :
    other = frame ∧ PlacedFrames code whole place (caller :: callers) others := by
  cases h with
  | called _ below => exact ⟨rfl, below⟩

/-- The frame at the bottom is that of a stream. -/
theorem PlacedFrames.of_topLevel {code whole : Code} {place : Nat} {frame other : Frame}
    {others : List Frame} (h : PlacedFrames code whole place [frame] (other :: others)) :
    ∃ id id' cursor, code.Visits cursor ∧ frame = .topLevel id code cursor ∧
      other = .topLevel id' whole (place + cursor) ∧ others = [] := by
  cases h with
  | topLevel id id' hVisits => exact ⟨id, id', _, hVisits, rfl, rfl, rfl⟩
  | called _ below => cases below

theorem PlacedFrames.matching {code whole : Code} {place : Nat} {frame other : Frame}
    {callers others : List Frame}
    (h : PlacedFrames code whole place (frame :: callers) (other :: others)) :
    other.base = frame.base ∧ other.free = frame.free := by
  cases h <;> exact ⟨rfl, rfl⟩

namespace Machine

/-- The other machine does in a longer stream what this one does in its own. -/
inductive Relocated (code whole : Code) (place : Nat) (earlier : Array String) (m : Machine) :
    Machine → Prop where
  | intro (frame : Frame) (callers : List Frame) (host : Host)
      (hFrames : PlacedFrames code whole place (m.frame :: m.callers) (frame :: callers))
      (hHost : m.host.Continues earlier host) :
      Relocated code whole place earlier m
        { m with frame := frame, callers := callers, host := host }

/-- The resemblance of machines of which the one has these callers. -/
theorem Resemblance.withCallers {alike : Machine → Machine → Prop} (R : Resemblance alike)
    (callers : List Frame) :
    Resemblance fun m other => m.callers = callers ∧ alike m other where
  same h := R.same h.2
  push h value := ⟨h.1, R.push h.2 value⟩
  drop h _ hSp := ⟨h.1, R.drop h.2 hSp⟩
  globals h globals := ⟨h.1, R.globals h.2 globals⟩
  host h hQuiet :=
    have ⟨hResult, hAlike⟩ := R.host h.2 hQuiet
    ⟨hResult, h.1, hAlike⟩

section

variable {code whole : Code} {place : Nat} {earlier : Array String} {m other : Machine}

theorem resemblance_relocated (code whole : Code) (place : Nat) (earlier : Array String) :
    Resemblance (Relocated code whole place earlier) where
  same := by
    rintro m _ ⟨frame, callers, host, hFrames, hHost⟩
    exact ⟨rfl, rfl, rfl, rfl, hFrames.matching.1, hFrames.matching.2⟩
  push := by
    rintro m _ ⟨frame, callers, host, hFrames, hHost⟩ value
    exact .intro frame callers host hFrames hHost
  drop := by
    rintro m _ ⟨frame, callers, host, hFrames, hHost⟩ sp _
    exact .intro frame callers host hFrames hHost
  globals := by
    rintro m _ ⟨frame, callers, host, hFrames, hHost⟩ globals
    exact .intro frame callers host hFrames hHost
  host := by
    rintro m _ α action ⟨frame, callers, host, hFrames, hHost⟩ hQuiet
    obtain ⟨hResult, hAfter⟩ := hHost.quiet hQuiet
    exact ⟨hResult, .intro frame callers _ hFrames hAfter⟩

/-- Both machines hold the same values. -/
theorem Relocated.stack_eq (h : Relocated code whole place earlier m other) :
    other.stack = m.stack := by
  cases h
  rfl

/-- In a function that was called both machines are at the same place. -/
theorem Relocated.frame_eq {caller : Frame} {callers : List Frame}
    (h : Relocated code whole place earlier m other) (hCallers : m.callers = caller :: callers) :
    other.frame = m.frame := by
  obtain ⟨frame, others, host, hFrames, hHost⟩ := h
  rw [hCallers] at hFrames
  exact hFrames.of_called.1

theorem Relocated.moved {caller : Frame} {callers : List Frame}
    (h : Relocated code whole place earlier m other) (hCallers : m.callers = caller :: callers)
    (cursor : Nat) :
    Relocated code whole place earlier { m with frame := { m.frame with cursor := cursor } }
      { other with frame := { other.frame with cursor := cursor } } := by
  obtain ⟨frame, others, host, hFrames, hHost⟩ := h
  rw [hCallers] at hFrames
  obtain ⟨rfl, hBelow⟩ := hFrames.of_called
  refine .intro _ others host (PlacedFrames.called _ ?_) hHost
  rw [hCallers]
  exact hBelow

end

end Machine

namespace Execution

open Machine

variable {code whole : Code} {place : Nat} {earlier : Array String} {m other : Machine}

theorem beside_enter (h : Relocated code whole place earlier m other) (id : Label)
    (function : CompiledFunction) (free : List Value) (arguments : Nat) :
    Beside (Relocated code whole place earlier) (enter id function free arguments m)
      (enter id function free arguments other) := by
  have hSp := ((resemblance_relocated code whole place earlier).same h).sp
  by_cases hEnters : arguments = function.parameters ∧
      m.sp - arguments + function.locals ≤ stackSize
  · rw [enter_of_room hEnters.1 hEnters.2, enter_of_room hEnters.1 (by rw [hSp]; exact hEnters.2)]
    obtain ⟨frame, callers, host, hFrames, hHost⟩ := h
    exact ⟨rfl, .intro _ _ host (PlacedFrames.called _ hFrames) hHost⟩
  · obtain ⟨cause, hRefused⟩ := enter_of_refused hEnters id free
    rw [hRefused m rfl, hRefused other hSp]
    exact ⟨rfl, h⟩

/-- Functions are left for the same callers. -/
theorem beside_leave {caller : Frame} {callers : List Frame}
    (h : Relocated code whole place earlier m other) (hCallers : m.callers = caller :: callers)
    (value : Value) :
    Beside (Relocated code whole place earlier) (leave value m) (leave value other) := by
  obtain ⟨frame, others, host, hFrames, hHost⟩ := h
  rw [hCallers] at hFrames
  obtain ⟨rfl, hBelow⟩ := hFrames.of_called
  cases others with
  | nil => cases hBelow
  | cons back others =>
      cases hBase : m.frame.base with
      | zero =>
          rw [leave_of_base_eq_zero hCallers hBase, leave_of_base_eq_zero (by rfl) (by exact hBase)]
          refine ⟨rfl, .intro _ _ host ?_ hHost⟩
          rw [hCallers]
          exact hFrames
      | succ base =>
          rw [leave_of_caller hCallers hBase, leave_of_caller (by rfl) (by exact hBase)]
          exact (resemblance_relocated code whole place earlier).pushes value _ _
            (.intro back others host hBelow hHost)

theorem beside_setLocal (h : Relocated code whole place earlier m other) (slot : Nat) :
    Beside (Relocated code whole place earlier) (execute (.setLocal slot) m)
      (execute (.setLocal slot) other) := by
  refine (resemblance_relocated code whole place earlier).popThen h fun hOperand => ?_
  obtain ⟨frame, callers, host, hFrames, hHost⟩ := h
  simp only [get_bind, hFrames.matching.1]
  cases m.stack.set? (m.frame.base + slot) (m.stack.read (m.sp - 1)) with
  | none => exact ⟨rfl, .intro frame callers host hFrames hHost⟩
  | some stack => exact ⟨rfl, .intro frame callers host hFrames hHost⟩

theorem beside_inPlace (h : Relocated code whole place earlier m other) {i : Instruction}
    (hInPlace : i.InPlace)
    (hCalled : i.opcode.isStraight = false → ∃ caller callers, m.callers = caller :: callers) :
    Beside (Relocated code whole place earlier) (execute i m) (execute i other) := by
  have R := (resemblance_relocated code whole place earlier).withCallers m.callers
  have hBeside := R.execute ⟨rfl, h⟩ hInPlace (fun slot _ => by rw [h.stack_eq]) fun hOther => ?_
  · exact ⟨hBeside.1, hBeside.2.2⟩
  · obtain ⟨caller, callers, hCallers⟩ := hCalled hOther
    refine ⟨h.frame_eq hCallers, fun target first second hAlike => ?_⟩
    obtain ⟨hFirst, hAlike⟩ := hAlike
    exact ⟨rfl, hFirst, hAlike.moved (hFirst.trans hCallers) target⟩

/-- In a function that was called every instruction comes out the same. So does every straight one
in the stream at the bottom. -/
theorem beside_execute (h : Relocated code whole place earlier m other) {i : Instruction}
    (hStraight : m.callers = [] → i.opcode.isStraight = true) :
    Beside (Relocated code whole place earlier) (execute i m) (execute i other) := by
  have R := resemblance_relocated code whole place earlier
  have hCalled : i.opcode.isStraight = false → ∃ caller callers, m.callers = caller :: callers := by
    intro hOther
    refine List.exists_cons_of_ne_nil fun hMain => ?_
    rw [hStraight hMain] at hOther
    cases hOther
  cases i with
  | setLocal slot => exact beside_setLocal h slot
  | call arguments =>
      exact R.call h arguments (fun slot _ _ => by rw [h.stack_eq])
        fun id function free _ _ => beside_enter h id function free arguments
  | returnValue =>
      obtain ⟨caller, callers, hCallers⟩ := hCalled rfl
      have hRead : other.stack.read (m.sp - 1) = m.stack.read (m.sp - 1) := by rw [h.stack_eq]
      refine R.popThen h fun _ => ?_
      rw [hRead]
      exact beside_leave (R.drop h (Nat.sub_le _ _)) hCallers _
  | returnNull =>
      obtain ⟨caller, callers, hCallers⟩ := hCalled rfl
      exact beside_leave h hCallers .null
  | _ => exact beside_inPlace h trivial hCalled

end Execution

namespace Machine

variable {code whole : Code} {place : Nat} {earlier : Array String} {m other : Machine}

/-- The machine finds the same instruction in the longer stream, and the cursors move by the same
length. -/
theorem Relocated.fetched (h : Relocated code whole place earlier m other)
    (hStands : code.StandsIn place whole) (settings : Settings) {i : Instruction}
    (hNext : m.next? = some i) :
    other.next? = some i ∧
      Relocated code whole place earlier (m.fetched settings i) (other.fetched settings i) := by
  obtain ⟨frame, others, host, hFrames, hHost⟩ := h
  have hTraced : (m.tracedHost settings).Continues earlier (tracedHost settings
      { m with frame := frame, callers := others, host := host }) := by
    refine ⟨?_, ?_⟩
    · rw [labels_tracedHost, labels_tracedHost]
      exact hHost.objects
    · rw [printed_tracedHost, printed_tracedHost]
      exact hHost.printed
  cases hCallers : m.callers with
  | nil =>
      rw [hCallers] at hFrames
      obtain ⟨id, id', cursor, hVisits, hFrame, rfl, rfl⟩ := hFrames.of_topLevel
      rw [next?, hFrame] at hNext
      refine ⟨hStands.instructionAt? hNext, .intro _ _ _ ?_ hTraced⟩
      have hMoved : PlacedFrames code whole place [_] [_] :=
        PlacedFrames.topLevel id id' (hVisits.next hNext)
      rw [← Nat.add_assoc] at hMoved
      rw [frame_fetched, callers_fetched, hFrame, hCallers]
      exact hMoved
  | cons caller callers =>
      rw [hCallers] at hFrames
      obtain ⟨rfl, hBelow⟩ := hFrames.of_called
      refine ⟨hNext, .intro _ _ _ ?_ hTraced⟩
      rw [frame_fetched, callers_fetched, hCallers]
      exact PlacedFrames.called _ hBelow

/-- At the bottom a straight stream has nothing but straight instructions. -/
theorem Relocated.isStraight (h : Relocated code whole place earlier m other)
    (hStraight : code.Straight) {i : Instruction} (hNext : m.next? = some i)
    (hCallers : m.callers = []) : i.opcode.isStraight = true := by
  obtain ⟨frame, others, host, hFrames, hHost⟩ := h
  rw [hCallers] at hFrames
  obtain ⟨id, id', cursor, hVisits, hFrame, rfl, rfl⟩ := hFrames.of_topLevel
  rw [next?, hFrame] at hNext
  exact hStraight cursor i hVisits hNext

end Machine

namespace Execution

open Machine

variable {code whole : Code} {place : Nat} {earlier : Array String} {m other : Machine}

/-- A step that finds an instruction comes out the same where the stream stands in another one. -/
theorem beside_step_of_next? (h : Relocated code whole place earlier m other)
    (hStands : code.StandsIn place whole) (hStraight : code.Straight) (settings : Settings)
    {i : Instruction} (hNext : m.next? = some i) :
    Beside (Relocated code whole place earlier) (step settings m) (step settings other) := by
  obtain ⟨hOther, hFetched⟩ := h.fetched hStands settings hNext
  rw [step_of_next? hNext, step_of_next? hOther]
  exact beside_execute hFetched (h.isStraight hStraight hNext)

end Execution

namespace Machine

variable {settings : Settings} {code whole : Code} {place : Nat} {earlier : Array String}

/-- What a machine does in a straight stream it does as well where that stream stands in another
one. -/
theorem RunsFor.relocated {start finish other : Machine} {steps : Nat}
    (run : RunsFor settings (fun _ => True) start finish steps)
    (hStands : code.StandsIn place whole) (hStraight : code.Straight)
    (h : Relocated code whole place earlier start other) :
    ∃ last, RunsFor settings (fun _ => True) other last steps ∧
      Relocated code whole place earlier finish last := by
  induction run with
  | zero => exact ⟨other, RunsFor.zero other, h⟩
  | @succ middle finish steps prior _ hRunning last ih =>
      obtain ⟨here, hPrior, hHere⟩ := ih
      obtain ⟨i, hNext, _⟩ := Execution.exists_execute_of_step last
      obtain ⟨hOutcome, hAfter⟩ :=
        Execution.beside_step_of_next? hHere hStands hStraight settings hNext
      obtain ⟨⟨_, next⟩, hStep⟩ : ∃ answer, Execution.step settings here = answer := ⟨_, rfl⟩
      rw [last, hStep] at hOutcome hAfter
      cases hOutcome
      exact ⟨next, RunsFor.succ hPrior trivial
        (running_of_next? (hHere.fetched hStands settings hNext).1) hStep, hAfter⟩

/-- The other machine has the same globals and the same stack pointer, and has printed the same
lines after those given. -/
structure EndsAlike (earlier : Array String) (m other : Machine) : Prop where
  globals : other.globals = m.globals
  sp : other.sp = m.sp
  printed : other.host.printed = earlier ++ m.host.printed

theorem Relocated.endsAlike {m other : Machine} (h : Relocated code whole place earlier m other) :
    EndsAlike earlier m other := by
  obtain ⟨frame, others, host, hFrames, hHost⟩ := h
  exact ⟨rfl, rfl, hHost.printed⟩

section

variable {first second : Code} {m other : Machine}

/-- Behind another stream there is an instruction, an unknown byte or the end where there is one in
the stream itself. -/
theorem Relocated.same_of_append
    (h : Relocated second (first ++ second) first.size earlier m other) :
    other.next? = m.next? ∧ other.unknown? = m.unknown? ∧ other.frame.atEnd = m.frame.atEnd := by
  obtain ⟨frame, others, host, hFrames, hHost⟩ := h
  cases hCallers : m.callers with
  | nil =>
      rw [hCallers] at hFrames
      obtain ⟨id, id', cursor, hVisits, hFrame, rfl, rfl⟩ := hFrames.of_topLevel
      rw [next?, next?, unknown?, unknown?, hFrame]
      refine ⟨Code.instructionAt?_append_right _ _ _, Code.unknownAt?_append_right _ _ _,
        decide_eq_decide.mpr ?_⟩
      show (first ++ second).size ≤ first.size + cursor ↔ second.size ≤ cursor
      rw [Code.size_append, Nat.add_le_add_iff_left]
  | cons caller callers =>
      rw [hCallers] at hFrames
      obtain ⟨rfl, _⟩ := hFrames.of_called
      exact ⟨rfl, rfl, rfl⟩

/-- Behind another stream a straight stream is executed in the same way, step by step. Both
machines fail in the same way, too. -/
theorem Relocated.step_of_append
    (h : Relocated second (first ++ second) first.size earlier m other)
    (hStraight : second.Straight) (settings : Settings) :
    (Execution.step settings m).1 = (Execution.step settings other).1 ∧
      EndsAlike earlier (Execution.step settings m).2 (Execution.step settings other).2 ∧
      ((Execution.step settings m).1 = .ok () →
        Relocated second (first ++ second) first.size earlier (Execution.step settings m).2
          (Execution.step settings other).2) := by
  obtain ⟨hSameNext, hSameUnknown, _⟩ := h.same_of_append
  cases hNext : m.next? with
  | some i =>
      obtain ⟨hOutcome, hAfter⟩ := Execution.beside_step_of_next? h
        (Code.standsIn_append_right first second) hStraight settings hNext
      exact ⟨hOutcome, hAfter.endsAlike, fun _ => hAfter⟩
  | none =>
      rw [hNext] at hSameNext
      cases hUnknown : m.unknown? with
      | none =>
          rw [hUnknown] at hSameUnknown
          rw [Execution.step_of_missing settings hNext hUnknown,
            Execution.step_of_missing settings hSameNext hSameUnknown]
          exact ⟨rfl, h.endsAlike, fun _ => h⟩
      | some byte =>
          rw [hUnknown] at hSameUnknown
          rw [Execution.step_of_unknown? settings hUnknown,
            Execution.step_of_unknown? settings hSameUnknown]
          exact ⟨rfl, ⟨h.endsAlike.globals, h.endsAlike.sp, h.endsAlike.printed⟩, nofun⟩

end

end Machine

end Tandem
