import Tandem.Code.Listing
import Tandem.Host
import Tandem.Machine.Error
import Tandem.Machine.Slots
import Tandem.Text.Paint
/-!
The state of the machine that runs instruction streams: a stack of values, global slots, and one
frame for each function that has been called and not yet left. Operands are pushed and popped above
the arguments and locals of the running function, which lie on the same stack.
-/
namespace Tandem

def stackSize : Nat := 2048

/-- The least number of global slots, one for every slot that an instruction can name. -/
def globalsSize : Nat := 65536

/-- A function that is being run. -/
structure Frame where
  /-- The identity of the closure that was called. -/
  id : Label
  function : CompiledFunction
  free : List Value
  /-- The offset of the next byte to read. -/
  cursor : Nat
  /-- The stack slot of the first argument. -/
  base : Nat
  deriving Inhabited

namespace Frame

def closure (frame : Frame) : Value := .closure frame.id frame.function frame.free

def atEnd (frame : Frame) : Bool := frame.function.code.size ≤ frame.cursor

end Frame

/-- The state of a run. The running frame stands apart from those that wait for it, the innermost
of which comes first. -/
structure Machine where
  constants : List Value
  stack : Slots
  /-- The number of slots in use, which is also the first free slot. Slots beyond it keep what was
  last written to them. -/
  sp : Nat
  globals : Slots
  frame : Frame
  callers : List Frame := []
  host : Host
  deriving Inhabited

namespace Machine

/-- A machine about to run a bundle over given globals. -/
def load (bundle : Bundle) (globals : Slots) (host : Host) : Machine :=
  let (id, host) := Host.freshProgram.run host
  { constants := bundle.constants
    stack := { size := stackSize }
    sp := 0
    globals := globals.widen globalsSize
    frame := { id := id, function := ⟨bundle.code, 0, 0⟩, free := [], cursor := 0, base := 0 }
    host := host }

def depth (m : Machine) : Nat := m.callers.length + 1

/-- The value popped last, which its slot still holds. There is none to be seen while the stack is
full; this is null then. -/
def lastPopped (m : Machine) : Value := (m.stack.get? m.sp).getD .null

def top? (m : Machine) : Option Value :=
  match m.sp with
  | 0 => none
  | sp + 1 => some (m.stack.read sp)

end Machine

/-- A part of a run: it changes the machine and may stop the run. -/
abbrev Execution (α : Type) := ExceptT Stop (StateM Machine) α

namespace Execution

/-- One part of a run after another: the second starts from the machine that the first left, and
only if the first did not stop the run. -/
theorem bind_apply {α β : Type} (first : Execution α) (next : α → Execution β) (m : Machine) :
    (first >>= next) m =
      match first m with
      | (.ok value, after) => next value after
      | (.error stop, after) => (.error stop, after) := by
  show (let answer := first m; ExceptT.bindCont next answer.1 answer.2) = _
  obtain ⟨outcome, after⟩ := first m
  cases outcome <;> rfl

@[simp]
theorem pure_apply {α : Type} (value : α) (m : Machine) :
    (pure value : Execution α) m = (.ok value, m) := rfl

def tracePaint : Text.Paint := .cyan

def fail {α : Type} (cause : MachineError) : Execution α := throw (.error cause)

/-- Stops the run because something that the instructions ask for is not there. -/
def fault {α : Type} : Execution α := throw .fault

def onHost {α : Type} (action : StateM Host α) : Execution α := do
  let m ← get
  let (result, host) := action.run m.host
  set { m with host := host }
  return result

def freshLabel : Execution Label := onHost Host.freshLabel

def push (value : Value) : Execution Unit := do
  let m ← get
  if m.sp < stackSize then
    set { m with stack := m.stack.write m.sp value, sp := m.sp + 1 }
  else fail .stackOverflow

theorem push_of_lt {m : Machine} (h : m.sp < stackSize) (value : Value) :
    push value m = (.ok (), { m with stack := m.stack.write m.sp value, sp := m.sp + 1 }) := by
  show (if m.sp < stackSize then _ else _ : Execution Unit) m = _
  rw [if_pos h]
  rfl

theorem push_of_full {m : Machine} (h : stackSize ≤ m.sp) (value : Value) :
    push value m = (.error (.error .stackOverflow), m) := by
  show (if m.sp < stackSize then _ else _ : Execution Unit) m = _
  rw [if_neg (Nat.not_lt.mpr h)]
  rfl

/-- Takes the value on top off the stack. Its slot is not cleared. -/
def pop : Execution Value := do
  let m ← get
  match m.sp with
  | 0 => fault
  | sp + 1 =>
    set { m with sp := sp }
    return m.stack.read sp

theorem pop_of_pos {m : Machine} (h : 0 < m.sp) :
    pop m = (.ok (m.stack.read (m.sp - 1)), { m with sp := m.sp - 1 }) := by
  obtain ⟨constants, stack, sp, globals, frame, callers, host⟩ := m
  cases sp with
  | zero => exact absurd h (Nat.lt_irrefl 0)
  | succ sp => rfl

theorem pop_of_empty {m : Machine} (h : m.sp = 0) : pop m = (.error .fault, m) := by
  obtain ⟨constants, stack, sp, globals, frame, callers, host⟩ := m
  subst h
  rfl

/-- Takes the topmost values off the stack and gives them from the bottom up. -/
def popMany (count : Nat) : Execution (List Value) := do
  let m ← get
  if count ≤ m.sp then
    let start := m.sp - count
    set { m with sp := start }
    return m.stack.slice start count
  else fault

theorem popMany_of_le {m : Machine} {count : Nat} (h : count ≤ m.sp) :
    popMany count m =
      (.ok (m.stack.slice (m.sp - count) count), { m with sp := m.sp - count }) := by
  show (if count ≤ m.sp then _ else _ : Execution (List Value)) m = _
  rw [if_pos h]
  rfl

/-- Continues the running function at another offset. -/
def moveTo (offset : Nat) : Execution Unit :=
  modify fun m => { m with frame := { m.frame with cursor := offset } }

end Execution

end Tandem
