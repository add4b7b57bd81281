import Tandem.Proofs.Code.RoundTrip
import Tandem.Proofs.Fibonacci.Evaluation
import Tandem.Proofs.Machine.Room
/-!
The Fibonacci function as instructions that call themselves through a global slot. What a call does
to the stack and how much room it needs follow by induction on the argument. The first of the two
calls inside a call is the deeper one, so the room is decided by the path that counts down by one.
The stack is large enough for the arguments up to 1022.
-/
namespace Tandem

/-- The instructions of a call of the function with an argument that is smaller by the number at
`index` in the pool. -/
def fibonacciCallCode (index : Nat) : List (Opcode × List Nat) :=
  [(.getGlobal, [0]), (.getLocal, [0]), (.constant, [index]), (.subtract, []), (.call, [1])]

/-- The function, which asks whether two is greater than its argument. -/
def fibonacciFunction : CompiledFunction where
  code := Code.assemble ([(.constant, [1]), (.getLocal, [0]), (.greater, []),
    (.jumpUnlessTruthy, [14]), (.getLocal, [0]), (.jump, [37])] ++
    fibonacciCallCode 0 ++ fibonacciCallCode 1 ++ [(.add, []), (.returnValue, [])])
  locals := 1
  parameters := 1

/-- The code of the function as it is emitted: both jumps are given their targets once these are
known. -/
def fibonacciEmission : Except PatchError Code := do
  let test := (Code.emitAll {} [(.constant, [1]), (.getLocal, [0]), (.greater, []),
    (.jumpUnlessTruthy, [9999]), (.getLocal, [0]), (.jump, [9999])]).2
  let alternative ← test.patch 6 test.size
  let calls := (Code.emitAll alternative
    (fibonacciCallCode 0 ++ fibonacciCallCode 1 ++ [(.add, [])])).2
  let complete ← calls.patch 11 calls.size
  return (complete.emit .returnValue []).2

theorem fibonacciEmission_eq : fibonacciEmission = .ok fibonacciFunction.code := by
  rfl

/-- The instructions that bind the function to the first global slot and call it. -/
def fibonacciMain : Code :=
  Code.assemble [(.closure, [2, 0]), (.setGlobal, [0]), (.getGlobal, [0]), (.constant, [3]),
    (.call, [1]), (.pop, [])]

def fibonacciBundle (n : Int64) : Bundle where
  code := fibonacciMain
  constants := [.integer 1, .integer 2, .compiled (.object 0) fibonacciFunction, .integer n]

/-- The slots above those of the caller that a call with the argument `k` needs, its own argument
aside. -/
def fibonacciRoom (k : Int64) : Nat := if k < 2 then 2 else 2 * k.toInt.toNat + 1

theorem fibonacciRoom_of_lt {k : Int64} (h : k < 2) : fibonacciRoom k = 2 := if_pos h

/-- The first call is made above the function and its argument, the second above a result as
well. -/
theorem fibonacciRoom_of_not_lt {k : Int64} (h : ¬ k < 2) :
    fibonacciRoom k = max 4 (max (fibonacciRoom (k - 1) + 2) (fibonacciRoom (k - 2) + 3)) := by
  obtain ⟨hOne, hTwo⟩ := toNat_sub_of_not_lt h
  have hLow := not_lt_two_iff.mp h
  rw [fibonacciRoom, if_neg h]
  simp only [fibonacciRoom, lt_two_iff]
  split
  · split <;> omega
  · split <;> omega

namespace Machine

variable {settings : Settings} {start m : Machine} {offset : Nat} {rest : List Value} {k : Int64}

/-- The numbers one and two stand in the pool and the function in the first global slot. -/
structure HasFibonacci (id : Label) (m : Machine) : Prop where
  one : m.constants[0]? = some (.integer 1)
  two : m.constants[1]? = some (.integer 2)
  function : m.globals.get? 0 = some (.closure id fibonacciFunction [])
  size : m.stack.size = stackSize

/-- The machine has just entered the function with the argument `k`. -/
structure EntersFibonacci (id : Label) (k : Int64) (m : Machine) : Prop
    extends m.HasFibonacci id where
  runs : m.frame.function = fibonacciFunction
  cursor : m.frame.cursor = 0
  sp : m.sp = m.frame.base + 1
  room : m.sp ≤ stackSize
  argument : m.stack.read m.frame.base = .integer k

/-- A call with the argument `k` comes to its end with the Fibonacci number of `k`, if there is room
for it. -/
def RunsFibonacci (settings : Settings) (k : Int64) : Prop :=
  ∀ id start, EntersFibonacci id k start →
    ComesTo settings start (start.sp + fibonacciRoom k)
      (start.StandsAt 37 [.integer (fibonacci64 k)])

variable {id : Label}

theorem HasFibonacci.call (hStart : start.HasFibonacci id) (hRuns : RunsFibonacci settings k)
    (h : start.StandsAt offset (.integer k :: .closure id fibonacciFunction [] :: rest) m)
    (hCode : start.frame.function.code.instructionAt? offset = some (.call 1)) :
    ComesTo settings m (start.sp + rest.length + 2 + fibonacciRoom k)
      (start.StandsAt (offset + 2) (.integer (fibonacci64 k) :: rest)) := by
  have hSp : m.sp = start.sp + rest.length + 2 := h.sp
  have hArgument : m.stack.read (m.sp - 1) = .integer k := by
    rw [hSp]
    exact h.read_eq []
  have hEntry : start.sp + rest.length + 1 + fibonacciFunction.locals ≤
      start.sp + rest.length + 2 + fibonacciRoom k := Nat.le_add_right _ _
  refine (h.call [.integer k] hCode rfl fun hRoom => ?_).of_eq
    (Nat.max_eq_right hEntry)
  have hEnters : (m.entering settings 1 id fibonacciFunction []).EntersFibonacci id k :=
    { one := h.constants ▸ hStart.one
      two := h.constants ▸ hStart.two
      function := h.globals ▸ hStart.function
      size := h.size.trans hStart.size
      runs := rfl
      cursor := rfl
      sp := rfl
      room := hRoom
      argument := hArgument }
  have hTop : (m.entering settings 1 id fibonacciFunction []).sp = start.sp + rest.length + 2 := by
    show m.sp - 1 + 1 = _
    rw [hSp]
    rfl
  have hRun := hRuns id _ hEnters
  rw [hTop] at hRun
  exact hRun.mono fun last hLast => ⟨37, rfl, hLast⟩

/-- Where the instructions of a call with a smaller argument stand in the function. -/
structure CallsAt (offset index : Nat) : Prop where
  function : fibonacciFunction.code.instructionAt? offset = some (.getGlobal 0)
  argument : fibonacciFunction.code.instructionAt? (offset + 3) = some (.getLocal 0)
  number : fibonacciFunction.code.instructionAt? (offset + 5) = some (.constant index)
  difference : fibonacciFunction.code.instructionAt? (offset + 8) =
    some (.arithmetic .subtract)
  call : fibonacciFunction.code.instructionAt? (offset + 9) = some (.call 1)

section

variable (hStart : start.EntersFibonacci id k)

include hStart

theorem EntersFibonacci.code {offset : Nat} {i : Instruction}
    (h : fibonacciFunction.code.instructionAt? offset = some i) :
    start.frame.function.code.instructionAt? offset = some i := by
  rw [hStart.runs, h]

theorem EntersFibonacci.getArgument {operands : List Value}
    (h : start.StandsAt offset operands m)
    (hCode : fibonacciFunction.code.instructionAt? offset = some (.getLocal 0)) :
    ComesTo settings m (start.sp + operands.length + 1)
      (start.StandsAt (offset + 2) (.integer k :: operands)) := by
  have hBelow : start.frame.base + 0 < start.sp := by
    rw [hStart.sp]
    exact Nat.lt_succ_self _
  refine h.getLocal (hStart.code hCode) hBelow ?_
  rw [Slots.get?, if_pos (by rw [hStart.size]; exact Nat.lt_of_lt_of_le hBelow hStart.room),
    Nat.add_zero, hStart.argument]

/-- One of the two calls inside a call. -/
theorem EntersFibonacci.inner {less : Int64} {index : Nat} (hAt : CallsAt offset index)
    (hIndex : start.constants[index]? = some (.integer less))
    (hRuns : RunsFibonacci settings (k - less)) (h : start.StandsAt offset rest m) :
    ComesTo settings m (start.sp + rest.length + max 3 (fibonacciRoom (k - less) + 2))
      (start.StandsAt (offset + 11) (.integer (fibonacci64 (k - less)) :: rest)) := by
  refine ((h.getGlobal (hStart.code hAt.function) hStart.function).bind fun _ h =>
    (hStart.getArgument h hAt.argument).bind fun _ h =>
    (h.constant (hStart.code hAt.number) hIndex).bind fun _ h =>
    (h.subtract (hStart.code hAt.difference)).bind fun _ h =>
    hStart.toHasFibonacci.call hRuns h (hStart.code hAt.call)).of_eq ?_
  simp only [List.length_cons]
  omega

theorem EntersFibonacci.condition (settings : Settings) :
    ComesTo settings start (start.sp + 2)
      (start.StandsAt (if (Value.boolean (k < 2)).isTruthy then 9 else 14) []) := by
  have hHere : start.StandsAt 0 [] start := hStart.cursor ▸ StandsAt.refl start
  refine ((hHere.constant (hStart.code rfl) hStart.two).bind fun _ h =>
    (hStart.getArgument h rfl).bind fun _ h =>
    (h.greater (hStart.code rfl)).bind fun _ h =>
    h.jumpUnlessTruthy (hStart.code rfl)).of_eq ?_
  simp only [List.length_cons, List.length_nil]
  omega

theorem EntersFibonacci.small (hLow : k < 2) (h : start.StandsAt 9 [] m) :
    ComesTo settings m (start.sp + 1) (start.StandsAt 37 [.integer (fibonacci64 k)]) := by
  rw [fibonacci64_of_lt hLow]
  refine ((hStart.getArgument h rfl).bind fun _ h => h.jump (hStart.code rfl)).of_eq ?_
  simp only [List.length_nil]
  omega

/-- The second call inside a call starts one slot above the first, on which the result of the first
lies. -/
theorem EntersFibonacci.large (hLow : ¬ k < 2) (hFirst : RunsFibonacci settings (k - 1))
    (hSecond : RunsFibonacci settings (k - 2)) (h : start.StandsAt 14 [] m) :
    ComesTo settings m (start.sp + fibonacciRoom k)
      (start.StandsAt 37 [.integer (fibonacci64 k)]) := by
  rw [fibonacci64_of_not_lt hLow, fibonacciRoom_of_not_lt hLow]
  refine ((hStart.inner ⟨rfl, rfl, rfl, rfl, rfl⟩ hStart.one hFirst h).bind fun _ h =>
    (hStart.inner ⟨rfl, rfl, rfl, rfl, rfl⟩ hStart.two hSecond h).bind fun _ h =>
    h.add (hStart.code rfl)).of_eq ?_
  simp only [List.length_cons, List.length_nil]
  omega

end

theorem two_le_fibonacciRoom (k : Int64) : 2 ≤ fibonacciRoom k := by
  by_cases hLow : k < 2
  · rw [fibonacciRoom_of_lt hLow]
  · rw [fibonacciRoom_of_not_lt hLow]
    omega

/-- By induction on the argument. -/
theorem runsFibonacci (settings : Settings) (k : Int64) : RunsFibonacci settings k := by
  induction hArgument : k.toInt.toNat using Nat.strongRecOn generalizing k with
  | ind argument ih =>
      intro id start hStart
      have hCondition := hStart.condition settings
      by_cases hLow : k < 2
      · simp only [decide_eq_true hLow] at hCondition
        refine (hCondition.bind fun _ h => hStart.small hLow h).of_eq ?_
        rw [fibonacciRoom_of_lt hLow]
        omega
      · obtain ⟨hOne, hTwo⟩ := toNat_sub_of_not_lt hLow
        have hFirst : RunsFibonacci settings (k - 1) := ih _ (by omega) (k - 1) rfl
        have hSecond : RunsFibonacci settings (k - 2) := ih _ (by omega) (k - 2) rfl
        have hRoom := two_le_fibonacciRoom k
        simp only [decide_eq_false hLow] at hCondition
        refine (hCondition.bind fun _ h => hStart.large hLow hFirst hSecond h).of_eq ?_
        omega

/-- The machine that runs the bundle, once the function is bound. -/
def fibonacciBound (id : Label) (n : Int64) (globals : Slots) (host : Host) : Machine :=
  { load (fibonacciBundle n) globals host with
    globals := (globals.widen globalsSize).write 0 (.closure id fibonacciFunction []) }

theorem zero_lt_widen (globals : Slots) : 0 < (globals.widen globalsSize).size := by
  show 0 < max globalsSize globals.size
  unfold globalsSize
  omega

theorem hasFibonacci_bound {n : Int64} {globals : Slots} {host : Host} :
    (fibonacciBound id n globals host).HasFibonacci id where
  one := rfl
  two := rfl
  function := by
    show Slots.get? _ 0 = _
    rw [fibonacciBound, Slots.get?, Slots.read_write_self, Slots.size_write,
      if_pos (zero_lt_widen globals)]
  size := rfl

/-- The main instructions bind the function, call it and pop what it leaves. -/
theorem comesTo_load (settings : Settings) (n : Int64) (globals : Slots) (host : Host) :
    ComesTo settings (load (fibonacciBundle n) globals host) (2 + fibonacciRoom n) fun finish =>
      finish.frame.atEnd = true ∧ finish.lastPopped = .integer (fibonacci64 n) ∧ finish.sp = 0 := by
  let start := load (fibonacciBundle n) globals host
  have hMain : ∀ offset i, fibonacciMain.instructionAt? offset = some i →
      start.frame.function.code.instructionAt? offset = some i := fun _ _ h => h
  have hHere : start.StandsAt 0 [] start := StandsAt.refl start
  have hBound : ComesTo settings start 1 fun m =>
      ∃ id, (fibonacciBound id n globals host).StandsAt 7 [] m := by
    refine ((hHere.closure (hMain 0 _ rfl) rfl).bind fun _ ⟨id, h⟩ =>
      (h.setGlobal (hMain 4 _ rfl) (zero_lt_widen globals)).mono fun _ h => ⟨id, h⟩).of_eq rfl
  have hCalled : ∀ m, (∃ id, (fibonacciBound id n globals host).StandsAt 7 [] m) →
      ComesTo settings m (2 + fibonacciRoom n) fun finish => finish.frame.atEnd = true ∧
        finish.lastPopped = .integer (fibonacci64 n) ∧ finish.sp = 0 := by
    intro m ⟨id, h⟩
    refine ((h.getGlobal (hMain 7 _ rfl) hasFibonacci_bound.function).bind fun _ h =>
      (h.constant (hMain 10 _ rfl) rfl).bind fun _ h =>
      (hasFibonacci_bound.call (runsFibonacci settings n) h (hMain 13 _ rfl)).bind fun _ h =>
      (h.pop (hMain 15 _ rfl) (Nat.succ_pos _)).mono fun finish hFinish => ?_).of_eq ?_
    · obtain ⟨hStands, hPopped⟩ := hFinish
      refine ⟨?_, hPopped, hStands.sp⟩
      rw [hStands.frame]
      rfl
    · show max (0 + 0 + 1) (max (0 + 1 + 1) (max (0 + 0 + 2 + fibonacciRoom n) 0)) = _
      omega
  exact (hBound.bind hCalled).of_eq (by omega)

end Machine

/-- The largest argument for which the stack has room. -/
theorem fibonacciRoom_fits {n : Int64} : 2 + fibonacciRoom n ≤ stackSize ↔ n ≤ 1022 := by
  have hLast : (1022 : Int64).toInt = 1022 := rfl
  rw [Int64.le_iff_toInt_le, hLast]
  simp only [fibonacciRoom, stackSize, lt_two_iff]
  split <;> omega

/-- Both engines come to the Fibonacci number of every argument, reduced to 64 bits: the tree in any
store, and the instructions as long as their stack has room, which is up to 1022. Beyond that they
end in a stack overflow. What the globals hold and what the host did before does not matter. -/
theorem fibonacci_agrees_on_both_engines (settings : Settings) (n : Int64) :
    (∀ store, ∃ enough, ∀ steps ≥ enough, ∃ after,
      runProgram settings steps (fibonacciProgram n) store =
        some (.ok (.integer (Int64.ofInt (fibonacci n.toInt))), after)) ∧
      ∀ globals host,
        (n ≤ 1022 → ∃ steps finish,
          (Machine.load (fibonacciBundle n) globals host).run settings steps =
              some (.ok (), finish) ∧
            finish.lastPopped = .integer (Int64.ofInt (fibonacci n.toInt)) ∧ finish.sp = 0) ∧
        (1023 ≤ n → ∃ steps finish,
          (Machine.load (fibonacciBundle n) globals host).run settings steps =
            some (.error (.error .stackOverflow), finish)) := by
  refine ⟨fun store => ⟨_, fun steps => runProgram_fibonacciProgram settings n store⟩,
    fun globals host => ?_⟩
  cases Machine.comesTo_load settings n globals host with
  | reached hRoom run hFinish =>
      have hLe : n ≤ 1022 := fibonacciRoom_fits.mp hRoom
      obtain ⟨hEnd, hPopped, hSp⟩ := hFinish
      obtain ⟨steps, hRun⟩ := (Machine.Ends.finished run hEnd).run_eq
      refine ⟨fun _ => ⟨steps, _, hRun, hPopped, hSp⟩, fun hLarge => ?_⟩
      exact absurd (Int64.le_trans hLarge hLe) (by decide)
  | overflow hFull hEnds =>
      obtain ⟨steps, hRun⟩ := hEnds.run_eq
      refine ⟨fun hLe => ?_, fun _ => ⟨steps, _, hRun⟩⟩
      exact absurd (fibonacciRoom_fits.mpr hLe) (Nat.not_le.mpr hFull)

/-- The tenth Fibonacci number is 55 on both engines, and the stack is too small for 1023. -/
theorem fibonacci_ten_agrees_on_both_engines :
    (∃ steps after, runProgram {} steps (fibonacciProgram 10) {} =
        some (.ok (.integer 55), after)) ∧
      (∃ steps finish, (Machine.load (fibonacciBundle 10) { size := 0 } {}).run {} steps =
          some (.ok (), finish) ∧ finish.lastPopped = .integer 55 ∧ finish.sp = 0) ∧
      ∃ steps finish, (Machine.load (fibonacciBundle 1023) { size := 0 } {}).run {} steps =
        some (.error (.error .stackOverflow), finish) := by
  have hTen : Int64.ofInt (fibonacci (10 : Int64).toInt) = 55 := by
    have hValue : fibonacci 10 = 55 := by simp [fibonacci]
    have hArgument : (10 : Int64).toInt = 10 := rfl
    rw [hArgument, hValue]
    rfl
  obtain ⟨hTree, hMachine⟩ := fibonacci_agrees_on_both_engines {} 10
  rw [hTen] at hTree hMachine
  obtain ⟨enough, hEnough⟩ := hTree {}
  exact ⟨⟨enough, hEnough enough (Nat.le_refl _)⟩, (hMachine { size := 0 } {}).1 (by decide),
    ((fibonacci_agrees_on_both_engines {} 1023).2 { size := 0 } {}).2 (by decide)⟩

end Tandem
