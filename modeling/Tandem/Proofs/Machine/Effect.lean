import Tandem.Proofs.Machine.Fetch
import Tandem.Proofs.Value.Parts
/-!
What the execution of one instruction can do to a machine. Most instructions take operands off
the stack and put one value in their place; the others drop a value, write a slot, move the
cursor, enter a function or leave one. Everything that is kept by every run follows from this
list by looking at each kind of effect once.
-/
namespace Tandem

namespace Instruction

/-- The number of values that the instruction takes off the stack. For a call the callee is one
of them. -/
def operands : Instruction → Nat
  | pop | negate | not | jumpUnlessTruthy _ | setGlobal _ | setLocal _ | returnValue => 1
  | arithmetic _ | comparison _ | index => 2
  | array count | hash count => count
  | call arguments => arguments + 1
  | closure _ free => free
  | _ => 0

/-- The number of values that the instruction leaves in their place. A call leaves the answer once
the function is left; an instruction that leaves a function has no place of its own any more. -/
def results : Instruction → Nat
  | pop | jumpUnlessTruthy _ | jump _ | setGlobal _ | setLocal _ | returnValue | returnNull => 0
  | _ => 1

/-- Everything that the instruction asks for is there: operands, pool entries and slots. -/
def Supported (i : Instruction) (m : Machine) : Prop :=
  i.operands ≤ m.sp ∧
    match i with
    | constant place => place < m.constants.length
    | setGlobal slot | getGlobal slot => slot < m.globals.size
    | setLocal slot | getLocal slot => m.frame.base + slot < m.stack.size
    | getFree place => place < m.frame.free.length
    | hash count => count % 2 = 0 ∧ m.sp ≤ m.stack.size
    | closure place _ => place < m.constants.length
    | returnValue | returnNull => m.callers = [] ∨ 0 < m.frame.base
    | _ => True

/-- The instruction leaves its function with the value. -/
inductive Leaves (m : Machine) : Instruction → Value → Prop where
  | value (hOperand : 0 < m.sp) : Leaves m returnValue (m.stack.read (m.sp - 1))
  | null : Leaves m returnNull .null

end Instruction

namespace Machine

/-- The predicate holds throughout all values that a machine holds: those in its pool, in its
stack slots, the free ones included, in its globals and in its frames. -/
structure AllValues (holds : Value → Prop) (m : Machine) : Prop where
  constants : ∀ value ∈ m.constants, value.Throughout holds
  stack : ∀ slot, (m.stack.read slot).Throughout holds
  globals : ∀ slot, (m.globals.read slot).Throughout holds
  frame : m.frame.closure.Throughout holds
  callers : ∀ caller ∈ m.callers, caller.closure.Throughout holds

/-- The predicate holds of every closure that the instruction can make of a pool entry. -/
def MakesClosures (holds : Value → Prop) (m : Machine) (i : Instruction) : Prop :=
  ∀ index free id function, i = .closure index free →
    m.constants[index]? = some (.compiled id function) →
    ∀ label values, values.length = free → holds (.closure label function values)

/-- The value is made of what the machine holds: a predicate that says nothing about data holds
throughout it if it holds throughout the machine and of the closures made. -/
def Makes (m : Machine) (i : Instruction) (value : Value) : Prop :=
  ∀ holds, Value.AdmitsData holds → m.AllValues holds → m.MakesClosures holds i →
    value.Throughout holds

/-- The machine after the execution of an instruction, by what was done to it, together with the
way in which the execution ended. -/
inductive Effect (m : Machine) : Instruction → Except Stop Unit × Machine → Prop where
  /-- One value takes the place of the operands. -/
  | result {i : Instruction} (value : Value) (host : Host) (hResult : i.results = 1)
      (hOperands : i.operands ≤ m.sp)
      (hRoom : m.sp - i.operands < stackSize) (hMade : m.Makes i value) :
      Effect m i (.ok (),
        { m with
          stack := m.stack.write (m.sp - i.operands) value
          sp := m.sp - i.operands + 1
          host := host })
  | drop (hOperand : 0 < m.sp) : Effect m .pop (.ok (), { m with sp := m.sp - 1 })
  | jump (target : Nat) :
      Effect m (.jump target) (.ok (), { m with frame := { m.frame with cursor := target } })
  | stay (target : Nat) (hOperand : 0 < m.sp)
      (hTruthy : (m.stack.read (m.sp - 1)).isTruthy = true) :
      Effect m (.jumpUnlessTruthy target) (.ok (), { m with sp := m.sp - 1 })
  | branch (target : Nat) (hOperand : 0 < m.sp)
      (hTruthy : (m.stack.read (m.sp - 1)).isTruthy = false) :
      Effect m (.jumpUnlessTruthy target) (.ok (),
        { m with sp := m.sp - 1, frame := { m.frame with cursor := target } })
  | setGlobal (slot : Nat) (hOperand : 0 < m.sp) (hSlot : slot < m.globals.size) :
      Effect m (.setGlobal slot) (.ok (),
        { m with
          sp := m.sp - 1
          globals := m.globals.write slot (m.stack.read (m.sp - 1)) })
  | setLocal (slot : Nat) (hOperand : 0 < m.sp) (hSlot : m.frame.base + slot < m.stack.size) :
      Effect m (.setLocal slot) (.ok (),
        { m with
          sp := m.sp - 1
          stack := m.stack.write (m.frame.base + slot) (m.stack.read (m.sp - 1)) })
  /-- The arguments stay where they are and become the first locals. -/
  | enter (arguments : Nat) (id : Label) (function : CompiledFunction) (free : List Value)
      (hOperands : arguments < m.sp)
      (hCallee : m.stack.read (m.sp - 1 - arguments) = .closure id function free)
      (hArity : arguments = function.parameters)
      (hRoom : m.sp - arguments + function.locals ≤ stackSize) :
      Effect m (.call arguments) (.ok (),
        { m with
          callers := m.frame :: m.callers
          frame := ⟨id, function, free, 0, m.sp - arguments⟩
          sp := m.sp - arguments + function.locals })
  /-- The value takes the place of the callee, and the caller goes on. -/
  | leave {i : Instruction} {value : Value} (caller : Frame) (callers : List Frame)
      (hLeaves : i.Leaves m value) (hCallers : m.callers = caller :: callers)
      (hBase : 0 < m.frame.base) (hRoom : m.frame.base ≤ stackSize) :
      Effect m i (.ok (),
        { m with
          frame := caller
          callers := callers
          sp := m.frame.base
          stack := m.stack.write (m.frame.base - 1) value })
  /-- There is no caller, so the run is over. -/
  | finish {i : Instruction} {value : Value} (hLeaves : i.Leaves m value)
      (hCallers : m.callers = []) :
      Effect m i (.ok (),
        { m with
          sp := m.sp - i.operands
          frame := { m.frame with cursor := m.frame.function.code.size } })
  /-- An error drops operands at most. The stack overflows only where a value is pushed that takes
  the place of no operand, or where a function is entered. -/
  | error {i : Instruction} (cause : MachineError) (sp : Nat) (host : Host) (hSp : sp ≤ m.sp)
      (hOverflow : cause = .stackOverflow → stackSize ≤ m.sp - i.operands ∨
        ∃ arguments id function free, i = .call arguments ∧
          m.stack.read (m.sp - 1 - arguments) = .closure id function free) :
      Effect m i (.error (.error cause), { m with sp := sp, host := host })
  /-- A function that lies above the end of the stack cannot be left. -/
  | leaveFull {i : Instruction} (after : Machine) (hFull : stackSize < m.frame.base) :
      Effect m i (.error (.error .stackOverflow), after)
  | fault {i : Instruction} (after : Machine) (h : ¬ i.Supported m) :
      Effect m i (.error .fault, after)

theorem read_write_throughout {holds : Value → Prop} {slots : Slots}
    (hSlots : ∀ slot, (slots.read slot).Throughout holds) {value : Value}
    (hValue : value.Throughout holds) (written slot : Nat) :
    ((slots.write written value).read slot).Throughout holds := by
  by_cases h : written = slot
  · rw [h, Slots.read_write_self]
    exact hValue
  · rw [Slots.read_write_of_ne slots h]
    exact hSlots slot

variable {m : Machine} {i : Instruction}

/-- Whatever an instruction leaves with is among the values of the machine or null. -/
theorem throughout_of_leaves {holds : Value → Prop} {value : Value} (h : i.Leaves m value)
    (hData : Value.AdmitsData holds) (hAll : m.AllValues holds) : value.Throughout holds := by
  cases h with
  | value hOperand => exact hAll.stack _
  | null => exact hData.null

/-- A predicate that says nothing about data is kept throughout a machine by every instruction, as
long as it holds of the closures that are made. -/
theorem Effect.allValues {holds : Value → Prop} {next : Machine}
    (h : m.Effect i (.ok (), next)) (hData : Value.AdmitsData holds) (hAll : m.AllValues holds)
    (hMakes : m.MakesClosures holds i) : next.AllValues holds := by
  cases h with
  | result value host hResult hOperands hRoom hMade =>
      have hValue := hMade holds hData hAll hMakes
      exact { hAll with stack := read_write_throughout hAll.stack hValue _ }
  | drop hOperand => exact { hAll with }
  | jump target => exact { hAll with }
  | stay target hOperand hTruthy => exact { hAll with }
  | branch target hOperand hTruthy => exact { hAll with }
  | setGlobal slot hOperand hSlot =>
      exact { hAll with globals := read_write_throughout hAll.globals (hAll.stack _) slot }
  | setLocal slot hOperand hSlot =>
      exact { hAll with stack := read_write_throughout hAll.stack (hAll.stack _) _ }
  | enter arguments id function free hOperands hCallee hArity hRoom =>
      have hClosure := hAll.stack (m.sp - 1 - arguments)
      rw [hCallee] at hClosure
      refine { hAll with frame := hClosure, callers := ?_ }
      intro caller hCaller
      rcases List.mem_cons.mp hCaller with hHere | hOther
      · rw [hHere]
        exact hAll.frame
      · exact hAll.callers caller hOther
  | leave caller callers hLeaves hCallers hBase hRoom =>
      have hOld : ∀ frame ∈ caller :: callers, frame.closure.Throughout holds := by
        rw [← hCallers]
        exact hAll.callers
      exact
        { hAll with
          stack := read_write_throughout hAll.stack (throughout_of_leaves hLeaves hData hAll) _
          frame := hOld caller List.mem_cons_self
          callers := fun frame hFrame => hOld frame (List.mem_cons_of_mem _ hFrame) }
  | finish hLeaves hCallers => exact { hAll with }

/-- The pool stays as it is. -/
theorem Effect.constants_eq {next : Machine} (h : m.Effect i (.ok (), next)) :
    next.constants = m.constants := by
  cases h <;> rfl

end Machine

namespace Execution

open Machine

variable {m : Machine} {i : Instruction}

theorem popOperands_of_le (h : 2 ≤ m.sp) :
    popOperands m = (.ok (m.stack.read (m.sp - 2), m.stack.read (m.sp - 1)),
      { m with sp := m.sp - 2 }) := by
  unfold popOperands
  rw [bind_apply, pop_of_pos (by omega)]
  simp only
  rw [bind_apply, pop_of_pos (by simp only; omega)]
  rfl

theorem popOperands_of_lt (h : m.sp < 2) : ∃ after, popOperands m = (.error .fault, after) := by
  unfold popOperands
  rw [bind_apply]
  by_cases hZero : m.sp = 0
  · rw [pop_of_empty hZero]
    exact ⟨_, rfl⟩
  · rw [pop_of_pos (by omega)]
    simp only
    rw [bind_apply, pop_of_empty (by simp only; omega)]
    exact ⟨_, rfl⟩

theorem popMany_of_lt {count : Nat} (h : m.sp < count) : popMany count m = (.error .fault, m) := by
  unfold popMany
  rw [get_bind, if_neg (by omega)]
  rfl

theorem effect_fault (after : Machine) (h : ¬ i.operands ≤ m.sp) :
    m.Effect i (.error .fault, after) :=
  Effect.fault after fun hSupported => h hSupported.1

/-- Pushing a value that takes the place of the operands. -/
theorem effect_push (value : Value) (host : Host) (hResult : i.results = 1)
    (hOperands : i.operands ≤ m.sp) (hMade : m.Makes i value) :
    m.Effect i (push value { m with sp := m.sp - i.operands, host := host }) := by
  by_cases hRoom : m.sp - i.operands < stackSize
  · rw [push_of_lt (by exact hRoom)]
    exact Effect.result value host hResult hOperands hRoom hMade
  · rw [push_of_full (by simp only; omega)]
    exact Effect.error _ _ _ (Nat.sub_le _ _) fun _ => Or.inl (by omega)

theorem effect_fail {cause : MachineError} (hCause : cause ≠ .stackOverflow) (sp : Nat)
    (host : Host) (hSp : sp ≤ m.sp) :
    m.Effect i ((fail cause : Execution Unit) { m with sp := sp, host := host }) :=
  Effect.error cause sp host hSp fun h => absurd h hCause

/-- Data without parts can always be made. -/
theorem makes_of_data {value : Value} (hCode : value.isCode = false) (hParts : value.parts = []) :
    m.Makes i value :=
  fun _ hData _ _ => hData.throughout hCode hParts

/-- An instruction with two operands can be looked at from the point where both have been taken. -/
theorem effect_popOperands (hTwo : i.operands = 2) {next : Value × Value → Execution Unit}
    (hNext : i.operands ≤ m.sp → ∀ left right, m.stack.read (m.sp - 2) = left →
      m.stack.read (m.sp - 1) = right →
      m.Effect i (next (left, right) { m with sp := m.sp - i.operands })) :
    m.Effect i ((popOperands >>= next) m) := by
  rw [bind_apply]
  by_cases hOperands : i.operands ≤ m.sp
  · rw [popOperands_of_le (hTwo ▸ hOperands)]
    have hEffect := hNext hOperands _ _ rfl rfl
    rw [hTwo] at hEffect
    exact hEffect
  · obtain ⟨after, hPop⟩ := popOperands_of_lt (m := m) (by omega)
    rw [hPop]
    exact effect_fault after hOperands

theorem effect_arithmetic (op : Arithmetic) : m.Effect (.arithmetic op) (arithmetic op m) := by
  refine effect_popOperands rfl fun hOperands left right _ _ => ?_
  have hSp : m.sp - (Instruction.arithmetic op).operands ≤ m.sp := Nat.sub_le _ _
  cases left with
  | integer a =>
      cases right with
      | integer b =>
          cases op with
          | divide =>
              by_cases hZero : b = 0
              · simp only [hZero, if_pos]
                exact effect_fail (by simp) _ _ hSp
              · simp only [if_neg hZero]
                exact effect_push _ _ rfl hOperands (makes_of_data rfl rfl)
          | _ => exact effect_push _ _ rfl hOperands (makes_of_data rfl rfl)
      | _ => exact effect_fail (by simp) _ _ hSp
  | string a textA =>
      cases right with
      | string b textB =>
          cases op with
          | add => exact effect_push _ _ rfl hOperands (makes_of_data rfl rfl)
          | _ => exact effect_fail (by simp) _ _ hSp
      | _ => exact effect_fail (by simp) _ _ hSp
  | _ => exact effect_fail (by simp) _ _ hSp

theorem effect_comparison (op : Comparison) : m.Effect (.comparison op) (comparison op m) := by
  refine effect_popOperands rfl fun hOperands left right _ _ => ?_
  have hSp : m.sp - (Instruction.comparison op).operands ≤ m.sp := Nat.sub_le _ _
  generalize (left, right) = pair
  split
  · cases op <;> exact effect_push _ _ rfl hOperands (makes_of_data rfl rfl)
  · exact effect_fail (by simp) _ _ hSp
  · exact effect_fail (by simp) _ _ hSp
  · cases op with
    | greater => exact effect_fail (by simp) _ _ hSp
    | _ => exact effect_push _ _ rfl hOperands (makes_of_data rfl rfl)

theorem effect_index : m.Effect .index (index m) := by
  refine effect_popOperands rfl fun hOperands left right hLeft _ => ?_
  have hSp : m.sp - Instruction.index.operands ≤ m.sp := Nat.sub_le _ _
  generalize hPair : (left, right) = pair
  split
  · cases hPair
    refine effect_push _ _ rfl hOperands fun holds hData hAll _ => ?_
    have hElements := (hAll.stack (m.sp - 2)).inside
    rw [hLeft] at hElements
    split
    · exact hData.null
    · exact Value.throughout_getD hData.null fun value hValue =>
        hElements value (List.mem_of_getElem? hValue)
  · cases hPair
    cases hKey : right.hashKey? with
    | some hashKey =>
        refine effect_push _ _ rfl hOperands fun holds hData hAll _ => ?_
        have hEntries := (hAll.stack (m.sp - 2)).inside
        rw [hLeft] at hEntries
        refine Value.throughout_getD hData.null fun value hValue => ?_
        obtain ⟨entry, hEntry, rfl⟩ := Entries.exists_mem_of_find? hValue
        exact hEntries _ (List.mem_map_of_mem hEntry)
    | none => exact effect_fail (by simp) _ _ hSp
  · exact effect_fail (by simp) _ _ hSp

/-- Collecting pairs stops at a key that cannot be used, or at a slot beyond the stack. -/
theorem collectEntries_error {stack : Slots} {pairs slot : Nat} {entries : Entries} {stop : Stop}
    (h : collectEntries stack pairs slot entries = .error stop) :
    (∃ typeName, stop = .error (.unusableKey typeName)) ∨
      stop = .fault ∧ stack.size < slot + 2 * pairs := by
  induction pairs generalizing slot entries with
  | zero => cases h
  | succ pairs ih =>
      rw [collectEntries] at h
      split at h
      · split at h
        · rcases ih h with hKey | ⟨hFault, hSize⟩
          · exact Or.inl hKey
          · exact Or.inr ⟨hFault, by omega⟩
        · cases h
          exact Or.inl ⟨_, rfl⟩
      · rename_i hMissing
        cases h
        refine Or.inr ⟨rfl, ?_⟩
        by_cases hSlot : slot + 1 < stack.size
        · refine absurd ?_ (hMissing (stack.read slot) (stack.read (slot + 1)) ?_)
          all_goals simp [Slots.get?, hSlot, Nat.lt_of_succ_lt hSlot]
        · omega

theorem collectEntries_throughout {holds : Value → Prop} {stack : Slots}
    (hStack : ∀ slot, (stack.read slot).Throughout holds) {pairs slot : Nat}
    {entries result : Entries} (hEntries : ∀ entry ∈ entries, entry.2.Throughout holds)
    (h : collectEntries stack pairs slot entries = .ok result) :
    ∀ entry ∈ result, entry.2.Throughout holds := by
  induction pairs generalizing slot entries with
  | zero =>
      cases h
      exact hEntries
  | succ pairs ih =>
      rw [collectEntries] at h
      split at h
      · rename_i keyValue value hKey hValue
        split at h
        · rename_i key hToKey
          refine ih ?_ h
          intro entry hEntry
          rcases Entries.mem_insert hEntry with hNew | hOld
          · have hRead : value = stack.read (slot + 1) := by
              unfold Slots.get? at hValue
              split at hValue
              · exact (Option.some.inj hValue).symm
              · cases hValue
            rw [hNew, hRead]
            exact hStack _
          · exact hEntries entry hOld
        · cases h
      · cases h

theorem effect_hash (count : Nat) : m.Effect (.hash count) (hash count m) := by
  unfold hash
  rw [get_bind]
  by_cases hOperands : count ≤ m.sp
  · rw [if_pos hOperands]
    cases hCollect : collectEntries m.stack ((count + 1) / 2) (m.sp - count) [] with
    | error stop =>
        rcases collectEntries_error hCollect with ⟨typeName, rfl⟩ | ⟨rfl, hSize⟩
        · exact effect_fail (by simp) _ _ (Nat.le_refl _)
        · refine Effect.fault m fun hSupported => ?_
          obtain ⟨hEven, hSlots⟩ := hSupported.2
          omega
    | ok entries =>
        refine effect_push (.hash _ entries) _ rfl hOperands fun holds hData hAll _ => ?_
        exact hData.hash _ (collectEntries_throughout hAll.stack (by simp) hCollect)
  · rw [if_neg hOperands]
    exact effect_fault m hOperands

theorem effect_enter (arguments : Nat) (id : Label) (function : CompiledFunction)
    (free : List Value) (hOperands : arguments < m.sp)
    (hCallee : m.stack.read (m.sp - 1 - arguments) = .closure id function free) :
    m.Effect (.call arguments) (enter id function free arguments m) := by
  unfold enter
  rw [get_bind]
  by_cases hArity : arguments = function.parameters
  · rw [if_neg (not_not_intro hArity)]
    by_cases hRoom : m.sp - arguments + function.locals ≤ stackSize
    · simp only [if_pos hRoom]
      exact Effect.enter arguments id function free hOperands hCallee hArity hRoom
    · simp only [if_neg hRoom]
      exact Effect.error _ m.sp m.host (Nat.le_refl _) fun _ =>
        Or.inr ⟨arguments, id, function, free, rfl, hCallee⟩
  · rw [if_pos hArity]
    exact effect_fail (by simp) _ _ (Nat.le_refl _)

theorem mem_slice {slots : Slots} {start count : Nat} {value : Value}
    (h : value ∈ slots.slice start count) : ∃ slot, slots.read slot = value := by
  obtain ⟨place, _, hRead⟩ := List.mem_map.mp h
  exact ⟨start + place, hRead⟩

theorem throughout_slice {holds : Value → Prop} {slots : Slots}
    (hSlots : ∀ slot, (slots.read slot).Throughout holds) (start count : Nat) :
    ∀ value ∈ slots.slice start count, value.Throughout holds := by
  intro value hValue
  obtain ⟨slot, rfl⟩ := mem_slice hValue
  exact hSlots slot

/-- A built-in function is called in place: its arguments and the function itself make room for
the answer. -/
theorem effect_callBuiltin (arguments : Nat) (b : Builtin) (hOperands : arguments < m.sp) :
    m.Effect (.call arguments)
      ((do
        let values ← popMany arguments
        let result ← onHost (b.call values)
        let _ ← pop
        push result : Execution Unit) m) := by
  rw [bind_apply, popMany_of_le (Nat.le_of_lt hOperands)]
  simp only
  rw [bind_apply]
  show m.Effect (.call arguments) ((do let _ ← pop; push _ : Execution Unit)
    { m with sp := m.sp - arguments, host := _ })
  rw [bind_apply, pop_of_pos (by simp only; omega)]
  refine effect_push _ _ (i := .call arguments) rfl hOperands fun holds hData hAll _ => ?_
  exact Builtin.throughout_call hData b (throughout_slice hAll.stack _ _) m.host

theorem effect_call (arguments : Nat) : m.Effect (.call arguments) (call arguments m) := by
  unfold call
  rw [get_bind]
  by_cases hOperands : arguments < m.sp
  · rw [if_pos hOperands]
    cases hCallee : m.stack.read (m.sp - 1 - arguments) with
    | closure id function free => exact effect_enter arguments id function free hOperands hCallee
    | builtin b => exact effect_callBuiltin arguments b hOperands
    | _ => exact effect_fail (by simp) _ _ (Nat.le_refl _)
  · rw [if_neg hOperands]
    exact effect_fault m hOperands

theorem leave_of_main (h : m.callers = []) (value : Value) :
    leave value m =
      (.ok (), { m with frame := { m.frame with cursor := m.frame.function.code.size } }) := by
  obtain ⟨constants, stack, sp, globals, frame, callers, host⟩ := m
  cases h
  rfl

theorem leave_of_caller {caller : Frame} {callers : List Frame} {base : Nat}
    (hCallers : m.callers = caller :: callers) (hBase : m.frame.base = base + 1) (value : Value) :
    leave value m = push value { m with frame := caller, callers := callers, sp := base } := by
  obtain ⟨constants, stack, sp, globals, ⟨id, function, free, cursor, frameBase⟩, frames, host⟩ := m
  cases hCallers
  cases hBase
  rfl

theorem leave_of_base_eq_zero {caller : Frame} {callers : List Frame}
    (hCallers : m.callers = caller :: callers) (hBase : m.frame.base = 0) (value : Value) :
    leave value m = (.error .fault, m) := by
  obtain ⟨constants, stack, sp, globals, ⟨id, function, free, cursor, frameBase⟩, frames, host⟩ := m
  cases hCallers
  cases hBase
  rfl

theorem effect_leave {value : Value} (hLeaves : i.Leaves m value)
    (hSupported : i.Supported m → m.callers = [] ∨ 0 < m.frame.base) :
    m.Effect i (leave value { m with sp := m.sp - i.operands }) := by
  obtain ⟨callers, hCallers⟩ : ∃ callers, m.callers = callers := ⟨_, rfl⟩
  obtain ⟨base, hBase⟩ : ∃ base, m.frame.base = base := ⟨_, rfl⟩
  cases callers with
  | nil =>
      rw [leave_of_main (by exact hCallers)]
      exact Effect.finish hLeaves hCallers
  | cons caller callers =>
      cases base with
      | zero =>
          rw [leave_of_base_eq_zero (by exact hCallers) (by exact hBase)]
          refine Effect.fault _ fun h => ?_
          rcases hSupported h with hNone | hPositive
          · rw [hCallers] at hNone
            cases hNone
          · omega
      | succ base =>
          rw [leave_of_caller (by exact hCallers) (by exact hBase)]
          by_cases hRoom : base < stackSize
          · rw [push_of_lt (by exact hRoom)]
            have hEffect := Effect.leave caller callers hLeaves hCallers (by omega) (by omega)
            rw [hBase] at hEffect
            exact hEffect
          · rw [push_of_full (by exact Nat.not_lt.mp hRoom)]
            exact Effect.leaveFull _ (by omega)

theorem effect_closure (place free : Nat) :
    m.Effect (.closure place free) (closure place free m) := by
  unfold closure
  rw [get_bind]
  cases hPlace : m.constants[place]? with
  | none =>
      refine Effect.fault m fun hSupported => ?_
      have hLength := List.getElem?_eq_none_iff.mp hPlace
      exact absurd hSupported.2 (Nat.not_lt.mpr hLength)
  | some value =>
      cases value with
      | compiled id function =>
          by_cases hOperands : free ≤ m.sp
          · simp only
            rw [bind_apply, popMany_of_le hOperands]
            refine effect_push (.closure _ function _) _ (i := .closure place free) rfl hOperands
              fun holds hData hAll hMakes => ?_
            refine Value.Throughout.intro ?_ (throughout_slice hAll.stack _ _)
            exact hMakes place free id function rfl hPlace _ _ (by simp [Slots.slice])
          · simp only
            rw [bind_apply, popMany_of_lt (by omega)]
            exact effect_fault m hOperands
      | _ => exact effect_fail (by simp) _ _ (Nat.le_refl _)

theorem effect_need {value? : Option Value}
    (hSupported : i.Supported m → value?.isSome) (hResult : i.results = 1)
    (hOperands : i.operands = 0)
    (hMade : ∀ value, value? = some value → m.Makes i value) :
    m.Effect i ((need value? >>= push) m) := by
  cases value? with
  | none => exact Effect.fault m fun h => Bool.noConfusion (hSupported h)
  | some value =>
      have hEffect := effect_push (m := m) value m.host hResult (by omega) (hMade value rfl)
      rw [hOperands] at hEffect
      exact hEffect

theorem effect_pop {next : Value → Execution Unit} (hOne : i.operands = 1)
    (hNext : 0 < m.sp →
      m.Effect i (next (m.stack.read (m.sp - 1)) { m with sp := m.sp - 1 })) :
    m.Effect i ((pop >>= next) m) := by
  rw [bind_apply]
  by_cases hOperand : 0 < m.sp
  · rw [pop_of_pos hOperand]
    exact hNext hOperand
  · rw [pop_of_empty (by omega)]
    exact effect_fault m (by omega)

/-- Every execution of an instruction is one of the effects. -/
theorem effect_execute (i : Instruction) (m : Machine) : m.Effect i (execute i m) := by
  cases i with
  | constant index =>
      refine effect_need (fun h => ?_) rfl rfl fun value hValue holds hData hAll _ => ?_
      · simpa using h.2
      · exact hAll.constants value (List.mem_of_getElem? hValue)
  | pop => exact effect_pop rfl fun hOperand => Effect.drop hOperand
  | boolean b => exact effect_push _ _ rfl (Nat.zero_le _) (makes_of_data rfl rfl)
  | null => exact effect_push _ _ rfl (Nat.zero_le _) (makes_of_data rfl rfl)
  | arithmetic op => exact effect_arithmetic op
  | comparison op => exact effect_comparison op
  | negate =>
      refine effect_pop rfl fun hOperand => ?_
      cases m.stack.read (m.sp - 1) with
      | integer n => exact effect_push _ _ rfl hOperand (makes_of_data rfl rfl)
      | _ => exact effect_fail (by simp) _ _ (Nat.sub_le _ _)
  | not =>
      exact effect_pop rfl fun hOperand => effect_push _ _ rfl hOperand (makes_of_data rfl rfl)
  | jump target => exact Effect.jump target
  | jumpUnlessTruthy target =>
      refine effect_pop rfl fun hOperand => ?_
      cases hTruthy : (m.stack.read (m.sp - 1)).isTruthy with
      | true => exact Effect.stay target hOperand hTruthy
      | false => exact Effect.branch target hOperand hTruthy
  | setGlobal slot =>
      refine effect_pop rfl fun hOperand => ?_
      rw [get_bind]
      by_cases hSlot : slot < m.globals.size
      · simp only [Slots.set?, if_pos hSlot]
        exact Effect.setGlobal slot hOperand hSlot
      · simp only [Slots.set?, if_neg hSlot]
        exact Effect.fault _ fun h => hSlot h.2
  | getGlobal slot =>
      refine effect_need (fun h => ?_) rfl rfl fun value hValue holds hData hAll _ => ?_
      · have hSlot : slot < m.globals.size := h.2
        simp [Slots.get?, hSlot]
      · unfold Slots.get? at hValue
        split at hValue
        · rw [← Option.some.inj hValue]
          exact hAll.globals slot
        · cases hValue
  | setLocal slot =>
      refine effect_pop rfl fun hOperand => ?_
      rw [get_bind]
      by_cases hSlot : m.frame.base + slot < m.stack.size
      · simp only [Slots.set?, if_pos hSlot]
        exact Effect.setLocal slot hOperand hSlot
      · simp only [Slots.set?, if_neg hSlot]
        exact Effect.fault _ fun h => hSlot h.2
  | getLocal slot =>
      refine effect_need (fun h => ?_) rfl rfl fun value hValue holds hData hAll _ => ?_
      · have hSlot : m.frame.base + slot < m.stack.size := h.2
        simp [Slots.get?, hSlot]
      · unfold Slots.get? at hValue
        split at hValue
        · rw [← Option.some.inj hValue]
          exact hAll.stack _
        · cases hValue
  | getBuiltin index =>
      rw [execute]
      cases Builtin.ofIndex? index with
      | none => exact effect_fail (by simp) _ _ (Nat.le_refl _)
      | some b => exact effect_push _ _ rfl (Nat.zero_le _) (makes_of_data rfl rfl)
  | getFree index =>
      refine effect_need (fun h => ?_) rfl rfl fun value hValue holds hData hAll _ => ?_
      · have hIndex : index < m.frame.free.length := h.2
        simpa using hIndex
      · exact hAll.frame.inside value (List.mem_of_getElem? hValue)
  | currentClosure =>
      exact effect_push _ _ rfl (Nat.zero_le _) fun holds hData hAll _ => hAll.frame
  | array count =>
      show m.Effect _ ((popMany count >>= _) m)
      by_cases hOperands : count ≤ m.sp
      · rw [bind_apply, popMany_of_le hOperands]
        refine effect_push (.array _ _) _ (i := .array count) rfl hOperands
          fun holds hData hAll _ => ?_
        exact hData.array _ (throughout_slice hAll.stack _ _)
      · rw [bind_apply, popMany_of_lt (by omega)]
        exact effect_fault m hOperands
  | hash count => exact effect_hash count
  | index => exact effect_index
  | call arguments => exact effect_call arguments
  | returnValue =>
      exact effect_pop rfl fun hOperand =>
        effect_leave (Instruction.Leaves.value hOperand) fun h => h.2
  | returnNull => exact effect_leave Instruction.Leaves.null fun h => h.2
  | closure index free => exact effect_closure index free

/-- What one step does, as long as it does not stop the run. -/
theorem effect_of_step {settings : Settings} {next : Machine}
    (h : step settings m = (.ok (), next)) :
    ∃ i, m.next? = some i ∧ (m.fetched settings i).Effect i (.ok (), next) := by
  obtain ⟨i, hNext, hExecute⟩ := exists_execute_of_step h
  exact ⟨i, hNext, hExecute ▸ effect_execute i (m.fetched settings i)⟩

end Execution

namespace Machine

theorem allValues_load {holds : Value → Prop} {bundle : Bundle} {globals : Slots}
    (hData : Value.AdmitsData holds)
    (hConstants : ∀ value ∈ bundle.constants, value.Throughout holds)
    (hGlobals : ∀ slot, (globals.read slot).Throughout holds)
    (hMain : ∀ id, holds (.closure id ⟨bundle.code, 0, 0⟩ [])) (host : Host) :
    (load bundle globals host).AllValues holds where
  constants := hConstants
  stack := fun _ => hData.null
  globals := hGlobals
  frame := Value.Throughout.intro (hMain _) fun _ hPart => absurd hPart List.not_mem_nil
  callers := fun _ hCaller => absurd hCaller List.not_mem_nil

theorem AllValues.fetched {holds : Value → Prop} {m : Machine} (h : m.AllValues holds)
    (settings : Settings) (i : Instruction) : (m.fetched settings i).AllValues holds :=
  { h with }

/-- A predicate that says nothing about data is kept throughout the machine by every step. -/
theorem AllValues.step {holds : Value → Prop} {settings : Settings} {m next : Machine}
    (h : m.AllValues holds)
    (hData : Value.AdmitsData holds)
    (hMakes : ∀ i, m.next? = some i → m.MakesClosures holds i)
    (hStep : Execution.step settings m = (.ok (), next)) : next.AllValues holds := by
  obtain ⟨i, hNext, hEffect⟩ := Execution.effect_of_step hStep
  exact hEffect.allValues hData (h.fetched settings i) (hMakes i hNext)

theorem RunsFor.constants_eq {settings : Settings} {allowed : Machine → Prop}
    {start finish : Machine} {steps : Nat} (run : RunsFor settings allowed start finish steps) :
    finish.constants = start.constants := by
  induction run with
  | zero => rfl
  | succ prior _ _ last ih =>
      obtain ⟨i, _, hEffect⟩ := Execution.effect_of_step last
      exact hEffect.constants_eq.trans ih

end Machine

end Tandem
