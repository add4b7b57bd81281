import Tandem.Proofs.Code.Straight
import Tandem.Proofs.Machine.Effect
import Tandem.Proofs.Quiet
/-!
Two machines side by side. They are alike in some way that keeps what decides over the outcome of an
instruction: the same instruction is executed on both, and both come out the same. Instructions that
work on the operands and leave the frames alone are treated here once for all ways of being alike;
how a frame is opened, left or written to differs from one to the other.
-/
namespace Tandem

/-- The instruction neither writes a local nor calls or leaves a function. -/
def Instruction.InPlace : Instruction → Prop
  | setLocal _ | call _ | returnValue | returnNull => False
  | _ => True

/-- The number of operands that the instruction gets to. It does not get to those of a closure if
the pool entry is not a function. -/
def Instruction.taken (m : Machine) : Instruction → Nat
  | closure place free =>
    match m.constants[place]? with
    | some (.compiled _ _) => free
    | _ => 0
  | i => i.operands

/-- The outcome of the instruction may depend on what the slot holds: it is the slot of an operand
or the local to be pushed. A hash with an odd number of operands reads the first free slot, too. -/
def Instruction.Reads (m : Machine) (i : Instruction) (slot : Nat) : Prop :=
  m.sp - i.taken m ≤ slot ∧ slot < m.sp ∨
    match i with
    | getLocal place => slot = m.frame.base + place
    | hash count => count % 2 = 1 ∧ slot = m.sp
    | _ => False

namespace Machine

/-- The other machine has the same pool, globals, frames and stack pointer, and a stack of the same
size. -/
structure Shares (m other : Machine) : Prop where
  constants : other.constants = m.constants
  size : other.stack.size = m.stack.size
  sp : other.sp = m.sp
  globals : other.globals = m.globals
  frame : other.frame = m.frame
  callers : other.callers = m.callers

/-- A way for two machines to be alike. It is kept when both machines do the same to their stack
pointer, cursor, globals or host, or push the same value. -/
structure Likeness (alike : Machine → Machine → Prop) : Prop where
  shares {m other : Machine} : alike m other → m.Shares other
  push {m other : Machine} (h : alike m other) (value : Value) :
    alike { m with stack := m.stack.write m.sp value, sp := m.sp + 1 }
      { other with stack := other.stack.write m.sp value, sp := m.sp + 1 }
  drop {m other : Machine} (h : alike m other) {sp : Nat} (hSp : sp ≤ m.sp) :
    alike { m with sp := sp } { other with sp := sp }
  moved {m other : Machine} (h : alike m other) (cursor : Nat) :
    alike { m with frame := { m.frame with cursor := cursor } }
      { other with frame := { m.frame with cursor := cursor } }
  globals {m other : Machine} (h : alike m other) (globals : Slots) :
    alike { m with globals := globals } { other with globals := globals }
  host {m other : Machine} {α : Type} {action : StateM Host α} (h : alike m other)
    (hQuiet : Host.Quiet action) :
    (action.run m.host).1 = (action.run other.host).1 ∧
      alike { m with host := (action.run m.host).2 }
        { other with host := (action.run other.host).2 }

/-- The other machine has the same pool, globals and stack pointer and a stack of the same size. Its
running function may be another one, but starts at the same slot and has the same free values. -/
structure Matches (m other : Machine) : Prop where
  constants : other.constants = m.constants
  size : other.stack.size = m.stack.size
  sp : other.sp = m.sp
  globals : other.globals = m.globals
  base : other.frame.base = m.frame.base
  free : other.frame.free = m.frame.free

/-- A looser way for two machines to be alike: they may run in different frames. It is kept as
likeness is, but for the cursor. -/
structure Resemblance (alike : Machine → Machine → Prop) : Prop where
  same {m other : Machine} : alike m other → m.Matches other
  push {m other : Machine} (h : alike m other) (value : Value) :
    alike { m with stack := m.stack.write m.sp value, sp := m.sp + 1 }
      { other with stack := other.stack.write m.sp value, sp := m.sp + 1 }
  drop {m other : Machine} (h : alike m other) {sp : Nat} (hSp : sp ≤ m.sp) :
    alike { m with sp := sp } { other with sp := sp }
  globals {m other : Machine} (h : alike m other) (globals : Slots) :
    alike { m with globals := globals } { other with globals := globals }
  host {m other : Machine} {α : Type} {action : StateM Host α} (h : alike m other)
    (hQuiet : Host.Quiet action) :
    (action.run m.host).1 = (action.run other.host).1 ∧
      alike { m with host := (action.run m.host).2 }
        { other with host := (action.run other.host).2 }

theorem Likeness.resemblance {alike : Machine → Machine → Prop} (L : Likeness alike) :
    Resemblance alike where
  same h :=
    have hShares := L.shares h
    ⟨hShares.constants, hShares.size, hShares.sp, hShares.globals,
      congrArg Frame.base hShares.frame, congrArg Frame.free hShares.frame⟩
  push := L.push
  drop := L.drop
  globals := L.globals
  host := L.host

end Machine

namespace Execution

variable {α β : Type} {alike : Machine → Machine → Prop} {m other : Machine}

/-- Two executions that come out the same: they give the same value or are stopped by the same
cause, and the machines that they leave are alike. -/
def Beside (alike : Machine → Machine → Prop) (left right : Except Stop α × Machine) : Prop :=
  left.1 = right.1 ∧ alike left.2 right.2

/-- On machines that are alike, the execution comes out the same. -/
def Indifferent (alike : Machine → Machine → Prop) (x : Execution α) : Prop :=
  ∀ m other, alike m other → Beside alike (x m) (x other)

section

variable {x y : Execution α} {next : α → Execution β}

/-- Executions are compared part by part. -/
theorem Beside.bind (h : Beside alike (x m) (y other))
    (hNext : ∀ value, Indifferent alike (next value)) :
    Beside alike ((x >>= next) m) ((y >>= next) other) := by
  obtain ⟨hOutcome, hAlike⟩ := h
  rw [bind_apply, bind_apply]
  generalize x m = left, y other = right at hOutcome hAlike
  obtain ⟨outcome, after⟩ := left
  obtain ⟨_, others⟩ := right
  cases hOutcome
  cases outcome with
  | ok value => exact hNext value after others hAlike
  | error stop => exact ⟨rfl, hAlike⟩

theorem Indifferent.bind (h : Indifferent alike x)
    (hNext : ∀ value, Indifferent alike (next value)) : Indifferent alike (x >>= next) :=
  fun m other hAlike => (h m other hAlike).bind hNext

theorem indifferent_pure (value : α) : Indifferent alike (pure value) := fun _ _ h => ⟨rfl, h⟩

theorem indifferent_fail (cause : MachineError) :
    Indifferent alike (fail cause : Execution α) :=
  fun _ _ h => ⟨rfl, h⟩

theorem indifferent_fault : Indifferent alike (fault : Execution α) := fun _ _ h => ⟨rfl, h⟩

theorem indifferent_need (value? : Option Value) : Indifferent alike (need value?) := by
  cases value? with
  | none => exact indifferent_fault
  | some value => exact indifferent_pure value

end

/-- The entries collected depend on nothing but the slots of the keys and values. -/
theorem collectEntries_congr {stack others : Slots} (hSize : others.size = stack.size)
    {pairs slot : Nat}
    (h : ∀ place, slot ≤ place → place < slot + 2 * pairs → stack.read place = others.read place)
    (entries : Entries) :
    collectEntries others pairs slot entries = collectEntries stack pairs slot entries := by
  induction pairs generalizing slot entries with
  | zero => rfl
  | succ pairs ih =>
      have hGet : ∀ place, slot ≤ place → place < slot + 2 * (pairs + 1) →
          others.get? place = stack.get? place := by
        intro place hLow hHigh
        rw [Slots.get?, Slots.get?, hSize, h place hLow hHigh]
      have hRest : ∀ entries, collectEntries others pairs (slot + 2) entries =
          collectEntries stack pairs (slot + 2) entries :=
        ih fun place hLow hHigh => h place (by omega) (by omega)
      rw [collectEntries, collectEntries, hGet slot (by omega) (by omega),
        hGet (slot + 1) (by omega) (by omega)]
      simp only [hRest]

end Execution

namespace Machine.Resemblance

open Execution

variable {alike : Machine → Machine → Prop} (R : Resemblance alike)

include R

section

variable {α : Type} {x : Execution α}

theorem onHost {action : StateM Host α} (hQuiet : Host.Quiet action) :
    Indifferent alike (Execution.onHost action) := by
  intro m other h
  obtain ⟨hResult, hAlike⟩ := R.host h hQuiet
  exact ⟨congrArg Except.ok hResult, hAlike⟩

theorem freshLabel : Indifferent alike Execution.freshLabel := R.onHost Host.quiet_freshLabel

theorem pushes (value : Value) : Indifferent alike (Execution.push value) := by
  intro m other h
  have hSp := (R.same h).sp
  by_cases hRoom : m.sp < stackSize
  · rw [push_of_lt hRoom, push_of_lt (by rw [hSp]; exact hRoom), hSp]
    exact ⟨rfl, R.push h value⟩
  · rw [push_of_full (Nat.not_lt.mp hRoom), push_of_full (by rw [hSp]; exact Nat.not_lt.mp hRoom)]
    exact ⟨rfl, h⟩

end

section

variable {m other : Machine} {α : Type}

/-- After a value was popped the executions go on with what the two machines held on top. -/
theorem popThen {next : Value → Execution α} (h : alike m other)
    (hNext : 0 < m.sp → Beside alike (next (m.stack.read (m.sp - 1)) { m with sp := m.sp - 1 })
      (next (other.stack.read (m.sp - 1)) { other with sp := m.sp - 1 })) :
    Beside alike ((pop >>= next) m) ((pop >>= next) other) := by
  have hSp := (R.same h).sp
  rw [bind_apply, bind_apply]
  by_cases hOperand : 0 < m.sp
  · rw [pop_of_pos hOperand, pop_of_pos (by rw [hSp]; exact hOperand), hSp]
    exact hNext hOperand
  · rw [pop_of_empty (by omega), pop_of_empty (by omega)]
    exact ⟨rfl, h⟩

/-- Popping a value comes out the same if both machines hold the same value on top. -/
theorem pops {next : Value → Execution α} (h : alike m other)
    (hRead : 0 < m.sp → m.stack.read (m.sp - 1) = other.stack.read (m.sp - 1))
    (hNext : ∀ value, Indifferent alike (next value)) :
    Beside alike ((pop >>= next) m) ((pop >>= next) other) := by
  refine R.popThen h fun hOperand => ?_
  rw [hRead hOperand]
  exact hNext _ _ _ (R.drop h (Nat.sub_le _ _))

/-- What a value that is dropped unseen was does not matter. -/
theorem popUnseen {x : Execution α} (hNext : Indifferent alike x) :
    Indifferent alike (pop >>= fun _ => x) :=
  fun _ _ h => R.popThen h fun _ => hNext _ _ (R.drop h (Nat.sub_le _ _))

theorem popMany (h : alike m other) {count : Nat}
    (hReads : ∀ slot, m.sp - count ≤ slot → slot < m.sp →
      m.stack.read slot = other.stack.read slot) :
    Beside alike (Execution.popMany count m) (Execution.popMany count other) := by
  have hSp := (R.same h).sp
  by_cases hOperands : count ≤ m.sp
  · have hSlice : m.stack.slice (m.sp - count) count = other.stack.slice (m.sp - count) count :=
      Slots.slice_congr fun slot hLow hHigh => hReads slot hLow (by omega)
    rw [popMany_of_le hOperands, popMany_of_le (by rw [hSp]; exact hOperands), hSp, hSlice]
    exact ⟨rfl, R.drop h (Nat.sub_le _ _)⟩
  · rw [popMany_of_lt (by omega), popMany_of_lt (by omega)]
    exact ⟨rfl, h⟩

theorem popOperands (h : alike m other)
    (hReads : ∀ slot, m.sp - 2 ≤ slot → slot < m.sp →
      m.stack.read slot = other.stack.read slot) :
    Beside alike (Execution.popOperands m) (Execution.popOperands other) := by
  refine R.popThen h fun hRight => ?_
  rw [hReads (m.sp - 1) (by omega) (by omega)]
  refine R.popThen (R.drop h (Nat.sub_le _ _)) fun hLeft => ?_
  simp only at hLeft ⊢
  rw [hReads (m.sp - 1 - 1) (by omega) (by omega)]
  exact ⟨rfl, R.drop h (by omega)⟩

end

section

variable {m other : Machine} {i : Instruction}

theorem arithmetic (h : alike m other) (op : Arithmetic)
    (hReads : ∀ slot, m.sp - 2 ≤ slot → slot < m.sp →
      m.stack.read slot = other.stack.read slot) :
    Beside alike (Execution.arithmetic op m) (Execution.arithmetic op other) := by
  refine (R.popOperands h hReads).bind fun operands => ?_
  split
  · cases op with
    | divide =>
        simp only
        split
        · exact indifferent_fail _
        · exact R.pushes _
    | _ => exact R.pushes _
  · cases op with
    | add => exact R.freshLabel.bind fun id => R.pushes _
    | _ => exact indifferent_fail _
  · exact indifferent_fail _

theorem comparison (h : alike m other) (op : Comparison)
    (hReads : ∀ slot, m.sp - 2 ≤ slot → slot < m.sp →
      m.stack.read slot = other.stack.read slot) :
    Beside alike (Execution.comparison op m) (Execution.comparison op other) := by
  refine (R.popOperands h hReads).bind fun operands => ?_
  split
  · cases op <;> exact R.pushes _
  · exact indifferent_fail _
  · exact indifferent_fail _
  · cases op with
    | greater => exact indifferent_fail _
    | _ => exact R.pushes _

theorem index (h : alike m other)
    (hReads : ∀ slot, m.sp - 2 ≤ slot → slot < m.sp →
      m.stack.read slot = other.stack.read slot) :
    Beside alike (Execution.index m) (Execution.index other) := by
  refine (R.popOperands h hReads).bind fun operands => ?_
  split
  · exact R.pushes _
  · split
    · exact R.pushes _
    · exact indifferent_fail _
  · exact indifferent_fail _

theorem hash (h : alike m other) (count : Nat)
    (hReads : ∀ slot, (Instruction.hash count).Reads m slot →
      m.stack.read slot = other.stack.read slot) :
    Beside alike (Execution.hash count m) (Execution.hash count other) := by
  have hSame := R.same h
  unfold Execution.hash
  rw [get_bind, get_bind, hSame.sp]
  by_cases hOperands : count ≤ m.sp
  · have hEntries : collectEntries other.stack ((count + 1) / 2) (m.sp - count) [] =
        collectEntries m.stack ((count + 1) / 2) (m.sp - count) [] := by
      refine collectEntries_congr hSame.size (fun slot hLow hHigh => hReads slot ?_) []
      by_cases hPlace : slot < m.sp
      · exact Or.inl ⟨hLow, hPlace⟩
      · exact Or.inr (by omega)
    simp only [if_pos hOperands, hEntries]
    cases collectEntries m.stack ((count + 1) / 2) (m.sp - count) [] with
    | error stop => exact ⟨rfl, h⟩
    | ok entries =>
        have hPush : Indifferent alike
            (do Execution.push (.hash (← Execution.freshLabel) entries)) :=
          R.freshLabel.bind fun id => R.pushes _
        exact hPush _ _ (R.drop h (Nat.sub_le _ _))
  · rw [if_neg hOperands, if_neg hOperands]
    exact ⟨rfl, h⟩

theorem closure (h : alike m other) (place free : Nat)
    (hReads : ∀ slot, (Instruction.closure place free).Reads m slot →
      m.stack.read slot = other.stack.read slot) :
    Beside alike (Execution.closure place free m) (Execution.closure place free other) := by
  unfold Execution.closure
  rw [get_bind, get_bind, (R.same h).constants]
  cases hEntry : m.constants[place]? with
  | none => exact ⟨rfl, h⟩
  | some value =>
      cases value with
      | compiled id function =>
          have hTaken : (Instruction.closure place free).taken m = free := by
            rw [Instruction.taken, hEntry]
          have hValues : ∀ slot, m.sp - free ≤ slot → slot < m.sp →
              m.stack.read slot = other.stack.read slot :=
            fun slot hLow hHigh => hReads slot (Or.inl ⟨hTaken.symm ▸ hLow, hHigh⟩)
          exact (R.popMany h hValues).bind fun values => R.freshLabel.bind fun id => R.pushes _
      | _ => exact ⟨rfl, h⟩

/-- A call comes out the same if entering the function does, should a closure be called. -/
theorem call (h : alike m other) (arguments : Nat)
    (hReads : ∀ slot, m.sp - (arguments + 1) ≤ slot → slot < m.sp →
      m.stack.read slot = other.stack.read slot)
    (hEnter : ∀ id function free, arguments < m.sp →
      m.stack.read (m.sp - 1 - arguments) = .closure id function free →
      Beside alike (enter id function free arguments m) (enter id function free arguments other)) :
    Beside alike (Execution.call arguments m) (Execution.call arguments other) := by
  unfold Execution.call
  rw [get_bind, get_bind, (R.same h).sp]
  by_cases hOperands : arguments < m.sp
  · rw [if_pos hOperands, if_pos hOperands,
      ← hReads (m.sp - 1 - arguments) (by omega) (by omega)]
    cases hCallee : m.stack.read (m.sp - 1 - arguments) with
    | closure id function free => exact hEnter id function free hOperands hCallee
    | builtin b =>
        refine (R.popMany h fun slot hLow => hReads slot (by omega)).bind fun values => ?_
        exact (R.onHost (b.quiet_call values)).bind fun result => R.popUnseen (R.pushes _)
    | _ => exact ⟨rfl, h⟩
  · rw [if_neg hOperands, if_neg hOperands]
    exact ⟨rfl, h⟩

/-- Pushing what must be there comes out the same if the same is there on both machines. -/
theorem pushesNeeded (h : alike m other) {value? others? : Option Value}
    (hSame : others? = value?) :
    Beside alike ((need value? >>= Execution.push) m)
      ((need others? >>= Execution.push) other) := by
  rw [hSame]
  exact ((indifferent_need value?).bind R.pushes) m other h

/-- An instruction that works in place comes out the same on machines that resemble each other if
they hold the same values where it reads. Unless it is straight, both have to run in the same frame
and are alike still when they go on at the same offset. -/
theorem execute (h : alike m other) (hInPlace : i.InPlace)
    (hReads : ∀ slot, i.Reads m slot → m.stack.read slot = other.stack.read slot)
    (hFrame : i.opcode.isStraight = false →
      other.frame = m.frame ∧ ∀ target, Indifferent alike (Execution.moveTo target)) :
    Beside alike (Execution.execute i m) (Execution.execute i other) := by
  have hSame := R.same h
  have hOperands : ∀ slot, m.sp - i.taken m ≤ slot → slot < m.sp →
      m.stack.read slot = other.stack.read slot :=
    fun slot hLow hHigh => hReads slot (Or.inl ⟨hLow, hHigh⟩)
  have hTop : i.taken m = 1 → 0 < m.sp →
      m.stack.read (m.sp - 1) = other.stack.read (m.sp - 1) :=
    fun hOne hOperand => hOperands _ (by omega) (by omega)
  cases i with
  | constant place =>
      exact R.pushesNeeded h (congrArg (·[place]?) hSame.constants)
  | pop => exact R.popUnseen (indifferent_pure _) _ _ h
  | boolean b => exact R.pushes _ _ _ h
  | null => exact R.pushes _ _ _ h
  | arithmetic op => exact R.arithmetic h op hOperands
  | comparison op => exact R.comparison h op hOperands
  | negate =>
      refine R.pops h (hTop rfl) fun value => ?_
      cases value with
      | integer n => exact R.pushes _
      | _ => exact indifferent_fail _
  | not => exact R.pops h (hTop rfl) fun value => R.pushes _
  | jump target => exact (hFrame rfl).2 target _ _ h
  | jumpUnlessTruthy target =>
      refine R.pops h (hTop rfl) fun value => ?_
      split
      · exact indifferent_pure ()
      · exact (hFrame rfl).2 target
  | setGlobal slot =>
      refine R.pops h (hTop rfl) fun value first second hAlike => ?_
      rw [get_bind, get_bind, (R.same hAlike).globals]
      cases first.globals.set? slot value with
      | none => exact ⟨rfl, hAlike⟩
      | some globals => exact ⟨rfl, R.globals hAlike globals⟩
  | getGlobal slot =>
      exact R.pushesNeeded h (congrArg (·.get? slot) hSame.globals)
  | getLocal slot =>
      have hLocal : other.stack.get? (other.frame.base + slot) =
          m.stack.get? (m.frame.base + slot) := by
        rw [Slots.get?, Slots.get?, hSame.size, hSame.base,
          hReads (m.frame.base + slot) (Or.inr rfl)]
      exact R.pushesNeeded h hLocal
  | getBuiltin place =>
      rw [Execution.execute]
      cases Builtin.ofIndex? place with
      | none => exact indifferent_fail _ _ _ h
      | some b => exact R.pushes _ _ _ h
  | getFree place =>
      exact R.pushesNeeded h (congrArg (·[place]?) hSame.free)
  | currentClosure =>
      show Beside alike (Execution.push m.frame.closure m)
        (Execution.push other.frame.closure other)
      rw [(hFrame rfl).1]
      exact R.pushes _ _ _ h
  | array count =>
      exact (R.popMany h hOperands).bind fun elements => R.freshLabel.bind fun id => R.pushes _
  | hash count => exact R.hash h count hReads
  | index => exact R.index h hOperands
  | closure place free => exact R.closure h place free hReads
  | setLocal | call | returnValue | returnNull => exact absurd hInPlace id

end

end Machine.Resemblance

namespace Machine.Likeness

open Execution

variable {alike : Machine → Machine → Prop} (L : Likeness alike)

include L

theorem moveTo (offset : Nat) : Indifferent alike (Execution.moveTo offset) := by
  intro m other h
  refine ⟨rfl, ?_⟩
  show alike { m with frame := _ } { other with frame := { other.frame with cursor := offset } }
  rw [(L.shares h).frame]
  exact L.moved h offset

/-- An instruction that works in place comes out the same on machines that are alike if they hold
the same values where it reads. -/
theorem execute {m other : Machine} {i : Instruction} (h : alike m other) (hInPlace : i.InPlace)
    (hReads : ∀ slot, i.Reads m slot → m.stack.read slot = other.stack.read slot) :
    Beside alike (Execution.execute i m) (Execution.execute i other) :=
  L.resemblance.execute h hInPlace hReads fun _ => ⟨(L.shares h).frame, L.moveTo⟩

end Machine.Likeness

end Tandem
