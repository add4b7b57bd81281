import Tandem.Builtin.Call
import Tandem.Machine.Basic
import Tandem.Machine.Instruction
import Tandem.Value.Equality
/-!
One step of the machine: an instruction is fetched, its trace message is written if asked for, and
it is executed. Integers wrap around at 64 bits and division rounds toward zero.
-/
namespace Tandem.Execution

/-- Two operands from the stack; the right one lies on top. -/
def popOperands : Execution (Value × Value) := do
  let right ← pop
  let left ← pop
  return (left, right)

/-- An arithmetic operation. On strings there is only concatenation. -/
def arithmetic (op : Arithmetic) : Execution Unit := do
  match ← popOperands with
  | (.integer a, .integer b) =>
    match op with
    | .add => push (.integer (a + b))
    | .subtract => push (.integer (a - b))
    | .multiply => push (.integer (a * b))
    | .divide => if b = 0 then fail .divisionByZero else push (.integer (a / b))
  | (.string _ a, .string _ b) =>
    match op with
    | .add => push (.string (← freshLabel) (a ++ b))
    | op => fail (.unsupportedStringOperator op.opcode)
  | (left, right) => fail (.unsupportedTypes op.opcode left.typeName right.typeName)

/-- A comparison. An integer can be compared with integers only; all other values can only be told
apart. -/
def comparison (op : Comparison) : Execution Unit := do
  match ← popOperands with
  | (.integer a, .integer b) =>
    match op with
    | .equal => push (.boolean (a == b))
    | .notEqual => push (.boolean (a != b))
    | .greater => push (.boolean (a > b))
  | (.integer _, right) => fail (.unsupportedTypes op.opcode "INTEGER" right.typeName)
  | (left, .integer _) => fail (.unsupportedTypes op.opcode left.typeName "INTEGER")
  | (left, right) =>
    match op with
    | .equal => push (.boolean (left.identical right))
    | .notEqual => push (.boolean (!left.identical right))
    | .greater => fail (.unknownOperator .greater left.typeName right.typeName)

/-- Access to an element of an array or to an entry of a hash. What is not there gives null. -/
def index : Execution Unit := do
  match ← popOperands with
  | (.array _ elements, .integer i) =>
    push (if i < 0 then .null else elements[i.toNatClampNeg]?.getD .null)
  | (.hash _ entries, key) =>
    match key.hashKey? with
    | some hashKey => push ((Entries.find? hashKey entries).getD .null)
    | none => fail (.unusableKey key.typeName)
  | (object, _) => fail (.notIndexable object.typeName)

/-- The entries made of keys and values that alternate in the slots from `slot` on. -/
def collectEntries (stack : Slots) :
    (pairs : Nat) → (slot : Nat) → Entries → Except Stop Entries
  | 0, _, entries => .ok entries
  | pairs + 1, slot, entries =>
    match stack.get? slot, stack.get? (slot + 1) with
    | some keyValue, some value =>
      match keyValue.toKey? with
      | some key => collectEntries stack pairs (slot + 2) (entries.insert key value)
      | none => .error (.error (.unusableKey keyValue.typeName))
    | _, _ => .error .fault

/-- Makes a hash of the topmost values, which are left in place if one of the keys cannot be used.
If their number is odd, the last key is paired with what the first free slot still holds. -/
def hash (count : Nat) : Execution Unit := do
  let m ← get
  if count ≤ m.sp then
    let start := m.sp - count
    let entries ← collectEntries m.stack ((count + 1) / 2) start []
    set { m with sp := start }
    push (.hash (← freshLabel) entries)
  else fault

/-- Enters a function. Its arguments become its first locals. The first slot above the locals is a
sum of natural numbers: it is assumed that the number of locals, added to a slot number, does not
overflow a machine word. -/
def enter (id : Label) (function : CompiledFunction) (free : List Value) (arguments : Nat) :
    Execution Unit := do
  let m ← get
  if arguments ≠ function.parameters then fail (.wrongArity function.parameters arguments)
  else
    let base := m.sp - arguments
    if base + function.locals ≤ stackSize then
      set { m with
        callers := m.frame :: m.callers
        frame := { id := id, function := function, free := free, cursor := 0, base := base }
        sp := base + function.locals }
    else fail .stackOverflow

/-- Calls the value that lies below the arguments. -/
def call (arguments : Nat) : Execution Unit := do
  let m ← get
  if arguments < m.sp then
    match m.stack.read (m.sp - 1 - arguments) with
    | .closure id function free => enter id function free arguments
    | .builtin b =>
      let values ← popMany arguments
      let result ← onHost (b.call values)
      let _ ← pop
      push result
    | callee => fail (.notCallable callee.typeName)
  else fault

/-- Leaves the running function with a value. The callee and its arguments make room for the value;
at the top level the run ends instead. -/
def leave (value : Value) : Execution Unit := do
  let m ← get
  match m.callers, m.frame.base with
  | [], _ => moveTo m.frame.function.code.size
  | caller :: callers, base + 1 =>
    set { m with frame := caller, callers := callers, sp := base }
    push value
  | _ :: _, 0 => fault

/-- Makes a closure of a pool entry and the topmost values. -/
def closure (index free : Nat) : Execution Unit := do
  let m ← get
  match m.constants[index]? with
  | none => fault
  | some (.compiled _ function) =>
    let values ← popMany free
    push (.closure (← freshLabel) function values)
  | some value => fail (.notFunction value.typeName)

def need : Option Value → Execution Value
  | some value => return value
  | none => fault

/-- Executes a decoded instruction. The cursor stands after it already. -/
def execute : Instruction → Execution Unit
  | .constant index => do push (← need (← get).constants[index]?)
  | .pop => do let _ ← pop
  | .boolean b => push (.boolean b)
  | .null => push .null
  | .arithmetic op => arithmetic op
  | .comparison op => comparison op
  | .not => do push (.boolean (!(← pop).isTruthy))
  | .negate => do
    match ← pop with
    | .integer n => push (.integer (-n))
    | value => fail (.unsupportedNegation value.typeName)
  | .jump target => moveTo target
  | .jumpUnlessTruthy target => do
    if (← pop).isTruthy then return else moveTo target
  | .setGlobal slot => do
    let value ← pop
    let m ← get
    match m.globals.set? slot value with
    | some globals => set { m with globals := globals }
    | none => fault
  | .getGlobal slot => do push (← need ((← get).globals.get? slot))
  | .setLocal slot => do
    let value ← pop
    let m ← get
    match m.stack.set? (m.frame.base + slot) value with
    | some stack => set { m with stack := stack }
    | none => fault
  | .getLocal slot => do
    let m ← get
    push (← need (m.stack.get? (m.frame.base + slot)))
  | .getBuiltin index =>
    match Builtin.ofIndex? index with
    | some b => push (.builtin b)
    | none => fail (.unknownBuiltin index)
  | .getFree index => do push (← need (← get).frame.free[index]?)
  | .currentClosure => do push (← get).frame.closure
  | .array count => do
    let elements ← popMany count
    push (.array (← freshLabel) elements)
  | .hash count => hash count
  | .index => index
  | .call arguments => call arguments
  | .returnValue => do leave (← pop)
  | .returnNull => leave .null
  | .closure index free => closure index free

/-- The trace message of the instruction at the cursor. -/
def traceMessage (m : Machine) (entry : Code.Entry) : String :=
  "[depth " ++ toString m.depth ++ " sp " ++ toString m.sp ++ "] " ++ entry.line m.constants

/-- Writes the trace message of the instruction at the cursor. Its operands are read as a listing
reads them, so that the run may stop here already, for want of operand bytes. -/
def trace (settings : Settings) : Execution Unit := do
  if settings.trace then
    let m ← get
    match m.frame.function.code.entryAt? m.frame.cursor with
    | some entry => onHost (modify (Host.trace (traceMessage m entry)))
    | none => fault

/-- Reads the instruction at the cursor and moves the cursor past it. -/
def fetch (settings : Settings) : Execution Instruction := do
  let m ← get
  let cursor := m.frame.cursor
  match m.frame.function.code.byteAt? cursor with
  | none => fault
  | some byte =>
    match Opcode.ofByte? byte with
    | none =>
      moveTo (cursor + 1)
      fail (.unknownOpcode byte)
    | some op =>
      trace settings
      match Instruction.decode? m.frame.function.code op (cursor + 1) with
      | none => fault
      | some instruction =>
        moveTo (cursor + instruction.length)
        return instruction

def step (settings : Settings) : Execution Unit := do
  execute (← fetch settings)

end Tandem.Execution

namespace Tandem

/-- Runs a machine until its running function has nothing left to run, or until the run stops early.
A function that comes to its end without a return ends the whole run. The result is missing if the
given number of steps is not enough. -/
def Machine.run (settings : Settings) (steps : Nat) (m : Machine) :
    Option (Except Stop Unit × Machine) :=
  if m.frame.atEnd then some (.ok (), m)
  else
    match steps with
    | 0 => none
    | steps + 1 =>
      match Execution.step settings m with
      | (.ok (), next) => next.run settings steps
      | (.error stop, next) => some (.error stop, next)

end Tandem
