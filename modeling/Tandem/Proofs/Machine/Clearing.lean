import Tandem.Proofs.Machine.Fetch
/-!
A machine that clears what it no longer uses. It executes the same instructions, but writes null to
every slot from which a value was dropped, and to those that a call reserves for the locals beyond
the arguments. The other machine leaves there whatever it finds.
-/
namespace Tandem

namespace Slots

/-- The slots with null in `count` of them from `start` on. -/
def clear (slots : Slots) (start : Nat) : (count : Nat) → Slots
  | 0 => slots
  | count + 1 => (slots.clear start count).write (start + count) .null

@[simp]
theorem size_clear (slots : Slots) (start count : Nat) :
    (slots.clear start count).size = slots.size := by
  induction count with
  | zero => rfl
  | succ count ih => rw [clear, size_write, ih]

/-- Clearing touches the given slots and no others. -/
theorem read_clear (slots : Slots) (start count slot : Nat) :
    (slots.clear start count).read slot =
      if start ≤ slot ∧ slot < start + count then .null else slots.read slot := by
  induction count with
  | zero =>
      rw [if_neg (by omega)]
      rfl
  | succ count ih =>
      rw [clear]
      by_cases hLast : start + count = slot
      · rw [hLast, read_write_self, if_pos (by omega)]
      · rw [read_write_of_ne _ hLast, ih]
        by_cases hBefore : start ≤ slot ∧ slot < start + count
        · rw [if_pos hBefore, if_pos (by omega)]
        · rw [if_neg hBefore, if_neg (by omega)]

end Slots

namespace Execution

/-- Does the same, and clears the slots from which values were dropped. If a function has been
entered, the slots that were added above the arguments are cleared instead. -/
def clearing {α : Type} (x : Execution α) : Execution α := fun m =>
  let (outcome, after) := x m
  let stack :=
    if m.depth < after.depth then after.stack.clear m.sp (after.sp - m.sp)
    else after.stack.clear after.sp (m.sp - after.sp)
  (outcome, { after with stack := stack })

/-- Executes a decoded instruction and clears the slots that it leaves unused. A value is taken off
the stack before it is written to a local and before the function is left with it, so that is where
its slot is cleared. -/
def executeClearing : Instruction → Execution Unit
  | .setLocal slot => do
    let value ← clearing pop
    let m ← get
    match m.stack.set? (m.frame.base + slot) value with
    | some stack => set { m with stack := stack }
    | none => fault
  | .returnValue => do
    let value ← clearing pop
    clearing (leave value)
  | i => clearing (execute i)

def stepClearing (settings : Settings) : Execution Unit := do
  executeClearing (← fetch settings)

variable {m : Machine}

theorem clearing_pop_of_pos (h : 0 < m.sp) :
    clearing pop m = (.ok (m.stack.read (m.sp - 1)),
      { m with stack := m.stack.clear (m.sp - 1) 1, sp := m.sp - 1 }) := by
  have hOne : m.sp - (m.sp - 1) = 1 := by omega
  have hDepth : ¬ m.depth < Machine.depth { m with sp := m.sp - 1 } := Nat.lt_irrefl _
  unfold clearing
  rw [pop_of_pos h]
  simp only [if_neg hDepth, hOne]

theorem execute_setLocal (slot : Nat) (h : 0 < m.sp) :
    execute (.setLocal slot) m =
      if m.frame.base + slot < m.stack.size then
        (.ok (), { m with
          stack := m.stack.write (m.frame.base + slot) (m.stack.read (m.sp - 1))
          sp := m.sp - 1 })
      else (.error .fault, { m with sp := m.sp - 1 }) := by
  rw [execute, bind_apply, pop_of_pos h]
  simp only [get_bind, Slots.set?]
  split <;> rfl

/-- The popped slot is cleared before the local is written, as it may be the slot of that local. -/
theorem executeClearing_setLocal (slot : Nat) (h : 0 < m.sp) :
    executeClearing (.setLocal slot) m =
      if m.frame.base + slot < m.stack.size then
        (.ok (), { m with
          stack := (m.stack.clear (m.sp - 1) 1).write (m.frame.base + slot)
            (m.stack.read (m.sp - 1))
          sp := m.sp - 1 })
      else (.error .fault, { m with stack := m.stack.clear (m.sp - 1) 1, sp := m.sp - 1 }) := by
  rw [executeClearing, bind_apply, clearing_pop_of_pos h]
  simp only [get_bind, Slots.set?, Slots.size_clear]
  split <;> rfl

end Execution

namespace Machine

/-- Runs a machine like `Machine.run`, but clears unused slots. -/
def runClearing (settings : Settings) (steps : Nat) (m : Machine) :
    Option (Except Stop Unit × Machine) :=
  if m.frame.atEnd then some (.ok (), m)
  else
    match steps with
    | 0 => none
    | steps + 1 =>
      match Execution.stepClearing settings m with
      | (.ok (), next) => next.runClearing settings steps
      | (.error stop, next) => some (.error stop, next)

/-- Exactly `steps` steps that clear unused slots. -/
inductive ClearingRunsFor (settings : Settings) : Machine → Machine → Nat → Prop where
  | zero (m : Machine) : ClearingRunsFor settings m m 0
  | succ {start middle finish : Machine} {steps : Nat}
      (prior : ClearingRunsFor settings start middle steps)
      (hRunning : middle.frame.atEnd = false)
      (last : Execution.stepClearing settings middle = (.ok (), finish)) :
      ClearingRunsFor settings start finish (steps + 1)

end Machine

end Tandem
