import Tandem.Proofs.Machine.Calls
/-!
What a stretch of instructions does to the stack of its function, and how much of the stack it needs
for that. Instructions push and pop operands above what lay on the stack at the start. A stretch
comes to its end if the stack has enough slots for the highest that it uses, and ends in a stack
overflow if not. Stretches that follow one another need the more of what each of them needs, and a
call is one of them.
-/
namespace Tandem

/-- Nothing is captured, so nothing is taken off the stack. -/
theorem Execution.execute_closure {m : Machine} {index : Nat} {label : Label}
    {function : CompiledFunction} (h : m.constants[index]? = some (.compiled label function)) :
    execute (.closure index 0) m =
      push (.closure m.host.freshLabel.1 function []) { m with host := m.host.freshLabel.2 } := by
  rw [execute, closure, get_bind, h]
  simp only
  rw [bind_apply, popMany_of_le (Nat.zero_le _)]
  rfl

namespace Machine

variable {settings : Settings}

/-- With `top` slots on the stack, the run comes to a machine of which the goal holds. With fewer it
ends in a stack overflow. -/
inductive ComesTo (settings : Settings) (m : Machine) (top : Nat) (goal : Machine → Prop) :
    Prop where
  | reached {finish : Machine} (hRoom : top ≤ stackSize) (run : Reaches settings m finish)
      (hGoal : goal finish) : ComesTo settings m top goal
  | overflow {finish : Machine} (hFull : stackSize < top)
      (hEnds : Ends settings m (.error (.error .stackOverflow)) finish) :
      ComesTo settings m top goal

/-- The second machine is in the same frame as the first, with the cursor at `offset`. It has the
operands, the topmost one first, on top of what lay on the stack of the first. -/
structure StandsAt (start : Machine) (offset : Nat) (operands : List Value) (m : Machine) :
    Prop where
  frame : m.frame = { start.frame with cursor := offset }
  callers : m.callers = start.callers
  constants : m.constants = start.constants
  globals : m.globals = start.globals
  size : m.stack.size = start.stack.size
  sp : m.sp = start.sp + operands.length
  below : ∀ slot < start.sp, m.stack.read slot = start.stack.read slot
  operands : ∀ place value, operands.reverse[place]? = some value →
    m.stack.read (start.sp + place) = value

section

variable {m : Machine} {i : Instruction} {goal : Machine → Prop}

theorem ComesTo.bind {first second : Nat} {after : Machine → Prop}
    (h : ComesTo settings m first goal)
    (hNext : ∀ middle, goal middle → ComesTo settings middle second after) :
    ComesTo settings m (max first second) after := by
  cases h with
  | overflow hFull hEnds => exact .overflow (Nat.lt_of_lt_of_le hFull (Nat.le_max_left _ _)) hEnds
  | reached hRoom run hGoal =>
      cases hNext _ hGoal with
      | reached hMore more hAfter =>
          exact .reached (Nat.max_le.mpr ⟨hRoom, hMore⟩) (run.trans more) hAfter
      | overflow hFull hEnds =>
          exact .overflow (Nat.lt_of_lt_of_le hFull (Nat.le_max_right _ _)) (run.ends hEnds)

theorem ComesTo.of_eq {top other : Nat} (h : ComesTo settings m top goal) (hTop : top = other) :
    ComesTo settings m other goal := hTop ▸ h

theorem ComesTo.mono {top : Nat} {weaker : Machine → Prop} (h : ComesTo settings m top goal)
    (hGoal : ∀ finish, goal finish → weaker finish) : ComesTo settings m top weaker := by
  cases h with
  | reached hRoom run hFinish => exact .reached hRoom run (hGoal _ hFinish)
  | overflow hFull hEnds => exact .overflow hFull hEnds

theorem comesTo_of_execute {finish : Machine} (hNext : m.next? = some i)
    (h : Execution.execute i (m.fetched settings i) = (.ok (), finish)) (hGoal : goal finish) :
    ComesTo settings m 0 goal :=
  .reached (Nat.zero_le _) (reaches_of_execute hNext h) hGoal

end

namespace StandsAt

variable {start m : Machine} {offset : Nat} {operands rest : List Value}

theorem refl (start : Machine) : start.StandsAt start.frame.cursor [] start where
  frame := rfl
  callers := rfl
  constants := rfl
  globals := rfl
  size := rfl
  sp := rfl
  below _ _ := rfl
  operands _ _ h := nomatch h

theorem fetched (h : start.StandsAt offset operands m) (settings : Settings) (i : Instruction) :
    start.StandsAt (offset + i.length) operands (m.fetched settings i) :=
  { h with frame := by rw [frame_fetched, h.frame] }

theorem next?_eq (h : start.StandsAt offset operands m) :
    m.next? = start.frame.function.code.instructionAt? offset := by
  rw [Machine.next?, h.frame]

theorem moved (h : start.StandsAt offset operands m) (target : Nat) :
    start.StandsAt target operands { m with frame := { m.frame with cursor := target } } :=
  { h with frame := by rw [h.frame] }

/-- An operand lies above those that were there before it. -/
theorem read_eq {value : Value} (above : List Value)
    (h : start.StandsAt offset (above ++ value :: rest) m) :
    m.stack.read (start.sp + rest.length) = value :=
  h.operands rest.length value (by simp)

theorem dropped (taken : List Value) (h : start.StandsAt offset (taken ++ rest) m) :
    start.StandsAt offset rest { m with sp := m.sp - taken.length } where
  frame := h.frame
  callers := h.callers
  constants := h.constants
  globals := h.globals
  size := h.size
  sp := by
    show m.sp - taken.length = start.sp + rest.length
    rw [h.sp, List.length_append]
    omega
  below := h.below
  operands := by
    intro place value hValue
    obtain ⟨hPlace, _⟩ := List.getElem?_eq_some_iff.mp hValue
    refine h.operands place value ?_
    rw [List.reverse_append, List.getElem?_append_left hPlace, hValue]

theorem pushed (h : start.StandsAt offset operands m) (value : Value) :
    start.StandsAt offset (value :: operands)
      { m with stack := m.stack.write m.sp value, sp := m.sp + 1 } where
  frame := h.frame
  callers := h.callers
  constants := h.constants
  globals := h.globals
  size := (Slots.size_write _ _ _).trans h.size
  sp := by rw [h.sp, List.length_cons, Nat.add_assoc]
  below := by
    intro slot hSlot
    rw [Slots.read_write_of_ne _ (by rw [h.sp]; omega), h.below slot hSlot]
  operands := by
    intro place found hFound
    rw [List.reverse_cons] at hFound
    have hPlace : place < operands.reverse.length ∨ place = operands.reverse.length := by
      have hLength := (List.getElem?_eq_some_iff.mp hFound).1
      rw [List.length_append, List.length_singleton] at hLength
      omega
    rcases hPlace with hOld | rfl
    · rw [List.getElem?_append_left hOld] at hFound
      rw [List.length_reverse] at hOld
      rw [Slots.read_write_of_ne _ (by rw [h.sp]; omega)]
      exact h.operands place found hFound
    · rw [List.getElem?_concat_length] at hFound
      rw [List.length_reverse, ← h.sp, Slots.read_write_self]
      exact Option.some.inj hFound

section

variable {i : Instruction}

/-- An instruction that pushes a value needs one slot more than the operands that it leaves. -/
theorem comesTo_push {middle : Machine} {value : Value} (h : start.StandsAt offset operands middle)
    (hNext : m.next? = some i)
    (hExecute : Execution.execute i (m.fetched settings i) = Execution.push value middle) :
    ComesTo settings m (start.sp + operands.length + 1)
      (start.StandsAt offset (value :: operands)) := by
  have hSp := h.sp
  by_cases hRoom : middle.sp < stackSize
  · rw [Execution.push_of_lt hRoom] at hExecute
    exact .reached (by omega) (reaches_of_execute hNext hExecute) (h.pushed value)
  · rw [Execution.push_of_full (Nat.not_lt.mp hRoom)] at hExecute
    exact .overflow (by omega) (ends_of_execute hNext hExecute)

theorem constant (h : start.StandsAt offset operands m) {index : Nat} {value : Value}
    (hCode : start.frame.function.code.instructionAt? offset = some (.constant index))
    (hValue : start.constants[index]? = some value) :
    ComesTo settings m (start.sp + operands.length + 1)
      (start.StandsAt (offset + 3) (value :: operands)) := by
  refine (h.fetched settings (.constant index)).comesTo_push (h.next?_eq.trans hCode) ?_
  show (Execution.need m.constants[index]? >>= Execution.push) _ = _
  rw [h.constants, hValue]
  rfl

theorem getGlobal (h : start.StandsAt offset operands m) {slot : Nat} {value : Value}
    (hCode : start.frame.function.code.instructionAt? offset = some (.getGlobal slot))
    (hValue : start.globals.get? slot = some value) :
    ComesTo settings m (start.sp + operands.length + 1)
      (start.StandsAt (offset + 3) (value :: operands)) := by
  refine (h.fetched settings (.getGlobal slot)).comesTo_push (h.next?_eq.trans hCode) ?_
  show (Execution.need (m.globals.get? slot) >>= Execution.push) _ = _
  rw [h.globals, hValue]
  rfl

/-- Locals lie below the operands. -/
theorem getLocal (h : start.StandsAt offset operands m) {slot : Nat} {value : Value}
    (hCode : start.frame.function.code.instructionAt? offset = some (.getLocal slot))
    (hBelow : start.frame.base + slot < start.sp)
    (hValue : start.stack.get? (start.frame.base + slot) = some value) :
    ComesTo settings m (start.sp + operands.length + 1)
      (start.StandsAt (offset + 2) (value :: operands)) := by
  refine (h.fetched settings (.getLocal slot)).comesTo_push (h.next?_eq.trans hCode) ?_
  have hBase : m.frame.base = start.frame.base := by rw [h.frame]
  show (Execution.need (m.stack.get? (m.frame.base + slot)) >>= Execution.push) _ = _
  rw [hBase, Slots.get?, h.size, h.below _ hBelow, ← Slots.get?, hValue]
  rfl

/-- A function of the pool becomes a closure that has captured nothing. -/
theorem closure (h : start.StandsAt offset operands m) {index : Nat} {label : Label}
    {function : CompiledFunction}
    (hCode : start.frame.function.code.instructionAt? offset = some (.closure index 0))
    (hFunction : start.constants[index]? = some (.compiled label function)) :
    ComesTo settings m (start.sp + operands.length + 1) fun finish =>
      ∃ id, start.StandsAt (offset + 4) (.closure id function [] :: operands) finish := by
  let fetched := m.fetched settings (.closure index 0)
  have hFetched : start.StandsAt (offset + 4) operands fetched :=
    h.fetched settings (.closure index 0)
  have hMiddle : start.StandsAt (offset + 4) operands
      { fetched with host := fetched.host.freshLabel.2 } := { hFetched with }
  have hPush : ComesTo settings m (start.sp + operands.length + 1) (start.StandsAt (offset + 4)
      (.closure fetched.host.freshLabel.1 function [] :: operands)) :=
    hMiddle.comesTo_push (h.next?_eq.trans hCode)
      (Execution.execute_closure (hFetched.constants ▸ hFunction))
  exact hPush.mono fun finish hFinish => ⟨_, hFinish⟩

theorem popOperands_bind {left right : Value}
    (h : start.StandsAt offset (right :: left :: rest) m)
    (next : Value × Value → Execution Unit) :
    (Execution.popOperands >>= next) m = next (left, right) { m with sp := m.sp - 2 } := by
  have hSp : m.sp = start.sp + rest.length + 2 := h.sp
  have hLeft : m.stack.read (start.sp + rest.length) = left := h.read_eq [right]
  have hRight : m.stack.read (start.sp + rest.length + 1) = right := h.read_eq []
  rw [Execution.bind_apply, Execution.popOperands_of_le (by omega), hSp, Nat.add_sub_cancel,
    hLeft]
  simp only [Nat.add_succ_sub_one, hRight]

/-- Two integers make room for what is computed of them. -/
theorem combine {a b : Int64} {value : Value}
    (h : start.StandsAt offset (.integer b :: .integer a :: rest) m)
    (hCode : start.frame.function.code.instructionAt? offset = some i) (hLength : i.length = 1)
    {next : Value × Value → Execution Unit}
    (hExecute : Execution.execute i = (Execution.popOperands >>= next))
    (hNext : next (.integer a, .integer b) = Execution.push value) :
    ComesTo settings m (start.sp + rest.length + 1)
      (start.StandsAt (offset + 1) (value :: rest)) := by
  have hFetched := h.fetched settings i
  rw [hLength] at hFetched
  have hDropped := hFetched.dropped [.integer b, .integer a]
  refine hDropped.comesTo_push (h.next?_eq.trans hCode) ?_
  rw [hExecute, hFetched.popOperands_bind, hNext]
  rfl

theorem greater {a b : Int64} (h : start.StandsAt offset (.integer b :: .integer a :: rest) m)
    (hCode : start.frame.function.code.instructionAt? offset = some (.comparison .greater)) :
    ComesTo settings m (start.sp + rest.length + 1)
      (start.StandsAt (offset + 1) (.boolean (a > b) :: rest)) :=
  h.combine hCode rfl rfl rfl

theorem add {a b : Int64} (h : start.StandsAt offset (.integer b :: .integer a :: rest) m)
    (hCode : start.frame.function.code.instructionAt? offset = some (.arithmetic .add)) :
    ComesTo settings m (start.sp + rest.length + 1)
      (start.StandsAt (offset + 1) (.integer (a + b) :: rest)) :=
  h.combine hCode rfl rfl rfl

theorem subtract {a b : Int64} (h : start.StandsAt offset (.integer b :: .integer a :: rest) m)
    (hCode : start.frame.function.code.instructionAt? offset = some (.arithmetic .subtract)) :
    ComesTo settings m (start.sp + rest.length + 1)
      (start.StandsAt (offset + 1) (.integer (a - b) :: rest)) :=
  h.combine hCode rfl rfl rfl

theorem pop_bind {value : Value} (h : start.StandsAt offset (value :: rest) m)
    (next : Value → Execution Unit) :
    (Execution.pop >>= next) m = next value { m with sp := m.sp - 1 } := by
  have hSp : m.sp = start.sp + rest.length + 1 := h.sp
  have hValue : m.stack.read (start.sp + rest.length) = value := h.read_eq []
  rw [Execution.bind_apply, Execution.pop_of_pos (by omega), hSp, Nat.add_sub_cancel, hValue]

theorem popped {value : Value} (h : start.StandsAt offset (value :: rest) m) :
    start.StandsAt offset rest { m with sp := m.sp - 1 } :=
  h.dropped [value]

/-- The slot of a value that is popped is not cleared. -/
theorem pop {value : Value} (h : start.StandsAt offset (value :: rest) m)
    (hCode : start.frame.function.code.instructionAt? offset = some .pop)
    (hSlot : start.sp + rest.length < start.stack.size) :
    ComesTo settings m 0 fun finish =>
      start.StandsAt (offset + 1) rest finish ∧ finish.lastPopped = value := by
  have hFetched := h.fetched settings .pop
  have hPopped := hFetched.popped
  have hValue : m.stack.read (start.sp + rest.length) = value := h.read_eq []
  refine comesTo_of_execute (h.next?_eq.trans hCode) ?_ ⟨hPopped, ?_⟩
  · rw [Execution.execute, hFetched.pop_bind]
    rfl
  · rw [lastPopped, hPopped.sp, Slots.get?, if_pos (by rw [hPopped.size]; exact hSlot)]
    exact hValue

/-- What follows may count on the value in the global slot. -/
theorem setGlobal {slot : Nat} {value : Value} (h : start.StandsAt offset (value :: rest) m)
    (hCode : start.frame.function.code.instructionAt? offset = some (.setGlobal slot))
    (hSlot : slot < start.globals.size) :
    ComesTo settings m 0
      ({ start with globals := start.globals.write slot value }.StandsAt (offset + 3) rest) := by
  have hFetched := h.fetched settings (.setGlobal slot)
  have hPopped := hFetched.popped
  let finish : Machine :=
    { m.fetched settings (.setGlobal slot) with
      sp := m.sp - 1
      globals := start.globals.write slot value }
  have hExecute : Execution.execute (.setGlobal slot) (m.fetched settings (.setGlobal slot)) =
      (.ok (), finish) := by
    rw [Execution.execute, hFetched.pop_bind, Execution.get_bind, hFetched.globals, Slots.set?,
      if_pos hSlot]
    rfl
  exact comesTo_of_execute (h.next?_eq.trans hCode) hExecute { hPopped with globals := rfl }

theorem jumpUnlessTruthy {condition : Value} {target : Nat}
    (h : start.StandsAt offset (condition :: rest) m)
    (hCode : start.frame.function.code.instructionAt? offset = some (.jumpUnlessTruthy target)) :
    ComesTo settings m 0
      (start.StandsAt (if condition.isTruthy then offset + 3 else target) rest) := by
  have hFetched := h.fetched settings (.jumpUnlessTruthy target)
  cases hTruthy : condition.isTruthy with
  | true =>
      refine comesTo_of_execute (h.next?_eq.trans hCode) ?_ hFetched.popped
      rw [Execution.execute, hFetched.pop_bind, hTruthy]
      rfl
  | false =>
      refine comesTo_of_execute (h.next?_eq.trans hCode) ?_ (hFetched.popped.moved target)
      rw [Execution.execute, hFetched.pop_bind, hTruthy]
      rfl

theorem jump {target : Nat} (h : start.StandsAt offset operands m)
    (hCode : start.frame.function.code.instructionAt? offset = some (.jump target)) :
    ComesTo settings m 0 (start.StandsAt target operands) :=
  comesTo_of_execute (h.next?_eq.trans hCode) rfl
    ((h.fetched settings (.jump target)).moved target)

end

section

variable {arguments : List Value} {id : Label} {function : CompiledFunction} {free : List Value}

theorem sp_of_call (h : start.StandsAt offset (arguments ++ .closure id function free :: rest) m) :
    m.sp = start.sp + rest.length + 1 + arguments.length := by
  rw [h.sp, List.length_append, List.length_cons]
  omega

/-- The step that leaves the callee goes on just after the call, with the value in the place of the
callee and its arguments. -/
theorem returnValue {last : Machine} {own : Nat} {value : Value}
    (h : start.StandsAt offset (arguments ++ .closure id function free :: rest) m)
    (hLast : (m.entering settings arguments.length id function free).StandsAt own [value] last)
    (hCode : function.code.instructionAt? own = some .returnValue) :
    ComesTo settings last (start.sp + rest.length + 1)
      (start.StandsAt (offset + 2) (value :: rest)) := by
  let entered := m.entering settings arguments.length id function free
  have hSp := h.sp_of_call
  -- The callee has kept everything below its own operands, so also what is the caller's.
  have hKept : ∀ slot < start.sp + rest.length, last.stack.read slot = m.stack.read slot := by
    intro slot hSlot
    have hEntered : slot < entered.sp := by
      show slot < m.sp - arguments.length + function.locals
      omega
    exact hLast.below slot hEntered
  have hResumed : start.StandsAt (offset + 2) rest
      { last.fetched settings .returnValue with
        frame := m.resumed
        callers := m.callers
        sp := start.sp + rest.length } := by
    constructor
    · simp only [resumed, h.frame]
    · exact h.callers
    · exact hLast.constants.trans h.constants
    · exact hLast.globals.trans h.globals
    · exact hLast.size.trans h.size
    · rfl
    · exact fun slot hSlot => (hKept slot (by omega)).trans (h.below slot hSlot)
    · intro place found hFound
      obtain ⟨hPlace, _⟩ := List.getElem?_eq_some_iff.mp hFound
      have hBelow : place < rest.length := List.length_reverse ▸ hPlace
      rw [stack_fetched, hKept _ (Nat.add_lt_add_left hBelow _)]
      refine h.operands place found ?_
      rw [List.reverse_append, List.reverse_cons, List.append_assoc,
        List.getElem?_append_left hPlace, hFound]
  refine hResumed.comesTo_push (hLast.next?_eq.trans hCode) ?_
  have hFetched := hLast.fetched settings .returnValue
  have hBase : last.frame.base = start.sp + rest.length + 1 := by
    rw [hLast.frame]
    show m.sp - arguments.length = _
    omega
  rw [Execution.execute, hFetched.pop_bind,
    Execution.leave_of_caller (by exact hLast.callers) (by exact hBase)]

/-- A call takes the callee and its arguments off the stack and puts there the value with which the
callee is left. -/
theorem call (arguments : List Value) {value : Value} {top : Nat}
    (h : start.StandsAt offset (arguments ++ .closure id function free :: rest) m)
    (hCode : start.frame.function.code.instructionAt? offset = some (.call arguments.length))
    (hArity : arguments.length = function.parameters)
    (hBody : m.sp - arguments.length + function.locals ≤ stackSize →
      ComesTo settings (m.entering settings arguments.length id function free) top fun last =>
        ∃ own, function.code.instructionAt? own = some .returnValue ∧
          (m.entering settings arguments.length id function free).StandsAt own [value] last) :
    ComesTo settings m (max (start.sp + rest.length + 1 + function.locals) top)
      (start.StandsAt (offset + 2) (value :: rest)) := by
  have hNext : m.next? = some (.call arguments.length) := h.next?_eq.trans hCode
  have hSp := h.sp_of_call
  have hPlace : m.sp - 1 - arguments.length = start.sp + rest.length := by omega
  have hCallee : m.stack.read (m.sp - 1 - arguments.length) = .closure id function free := by
    rw [hPlace]
    exact h.read_eq arguments
  let entered := m.entering settings arguments.length id function free
  have hEnter : ComesTo settings m (start.sp + rest.length + 1 + function.locals) fun other =>
      other = entered ∧ m.sp - arguments.length + function.locals ≤ stackSize := by
    by_cases hRoom : m.sp - arguments.length + function.locals ≤ stackSize
    · have hCall : m.CallsClosure arguments.length id function free :=
        ⟨hNext, by omega, hCallee, hArity, hRoom⟩
      have run : Reaches settings m entered :=
        (Reaches.refl _).step (running_of_next? hNext) hCall.step_eq
      exact .reached (by omega) run ⟨rfl, hRoom⟩
    · have hRefused : Execution.execute (.call arguments.length)
            (m.fetched settings (.call arguments.length)) =
          (.error (.error .stackOverflow), m.fetched settings (.call arguments.length)) := by
        rw [Execution.execute, Execution.call_of_closure (by rw [sp_fetched]; omega)
          (by exact hCallee), Execution.enter_of_full hArity (by exact Nat.not_le.mp hRoom)]
      exact .overflow (by omega) (ends_of_execute hNext hRefused)
  have hLeft : ComesTo settings m (max (start.sp + rest.length + 1 + function.locals) top)
      fun last => ∃ own, function.code.instructionAt? own = some .returnValue ∧
        entered.StandsAt own [value] last := by
    refine hEnter.bind fun other hOther => ?_
    rw [hOther.1]
    exact hBody hOther.2
  -- The value goes where the callee was, so it needs no slot that entering did not need.
  have hReturns (last : Machine) (hEnd : ∃ own,
      function.code.instructionAt? own = some .returnValue ∧ entered.StandsAt own [value] last) :
      ComesTo settings last (start.sp + rest.length + 1)
        (start.StandsAt (offset + 2) (value :: rest)) := by
    obtain ⟨own, hOwn, hLast⟩ := hEnd
    exact h.returnValue hLast hOwn
  exact (hLeft.bind hReturns).of_eq (by omega)

end

end StandsAt

end Machine

end Tandem
