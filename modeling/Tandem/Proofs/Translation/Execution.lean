import Tandem.Proofs.Machine.Run
import Tandem.Proofs.Translation.Encoding
import Tandem.Proofs.Translation.Operations
/-!
The execution of translated expressions. A machine that stands before a fragment, with room enough
on the stack, either comes to the end of the fragment with the values of the fragment on top of
what was there before, or stops with an error. It is shown for single instructions, for fragments
one after another and for branches, and then for whole expressions.
-/
namespace Tandem

/-- The machine stands before the fragment, whose pool entries start at `entry`, and has room for
it. Offsets and pool indices are small enough to be encoded. -/
structure Fragment.Ready (F : Fragment) (m : Machine) (entry : Nat) : Prop where
  code : HoldsAt m.frame.function.code.toList m.frame.cursor (F.code m.frame.cursor entry)
  pool : HoldsAt m.constants entry (F.pool entry)
  room : m.sp + F.need ≤ stackSize
  short : m.frame.function.code.size ≤ 65535
  few : m.constants.length ≤ 65536
  stack : m.stack.size = stackSize

/-- The second machine stands `size` bytes further on than the first, in the same function, and
has the values on top of what lay on the stack before. -/
structure Machine.Delivers (m finish : Machine) (size : Nat) (values : List Value) : Prop where
  constants : finish.constants = m.constants
  frame : finish.frame = { m.frame with cursor := m.frame.cursor + size }
  sp : finish.sp = m.sp + values.length
  stack : finish.stack.size = m.stack.size
  below : ∀ slot < m.sp, finish.stack.read slot = m.stack.read slot
  values : finish.stack.slice m.sp values.length = values
  labels : m.nextLabel ≤ finish.nextLabel

/-- A machine that is ready for the fragment comes to its end with as many values as announced, for
which `gives` holds together with the labels before and after; or it stops with an error, and
`fails` holds. -/
def Fragment.Computes (F : Fragment) (gives : (low high : Nat) → List Value → Prop)
    (fails : Prop) : Prop :=
  ∀ settings m entry, F.Ready m entry →
    (∃ values finish, Machine.Reaches settings m finish ∧ m.Delivers finish F.size values ∧
      values.length = F.results ∧ gives m.nextLabel finish.nextLabel values) ∨
    fails ∧ ∃ cause finish, Machine.Ends settings m (.error (.error cause)) finish

namespace Machine

variable {settings : Settings}

theorem Delivers.refl (m : Machine) : m.Delivers m 0 [] where
  constants := rfl
  frame := rfl
  sp := rfl
  stack := rfl
  below _ _ := rfl
  values := rfl
  labels := Nat.le_refl _

theorem Delivers.trans {m middle finish : Machine} {first second : Nat} {xs ys : List Value}
    (left : m.Delivers middle first xs) (right : middle.Delivers finish second ys) :
    m.Delivers finish (first + second) (xs ++ ys) where
  constants := right.constants.trans left.constants
  frame := by rw [right.frame, left.frame, Nat.add_assoc]
  sp := by rw [right.sp, left.sp, List.length_append, Nat.add_assoc]
  stack := right.stack.trans left.stack
  below slot hSlot := by
    rw [right.below slot (by rw [left.sp]; omega), left.below slot hSlot]
  values := by
    have hFirst : finish.stack.slice m.sp xs.length = middle.stack.slice m.sp xs.length :=
      Slots.slice_congr fun slot _ hSlot => right.below slot (by rw [left.sp]; omega)
    rw [List.length_append, Slots.slice_add, hFirst, left.values, ← left.sp, right.values]
  labels := Nat.le_trans left.labels right.labels

@[simp]
theorem nextLabel_fetched (settings : Settings) (i : Instruction) (m : Machine) :
    (m.fetched settings i).nextLabel = m.nextLabel :=
  congrArg Supply.objects (labels_fetched settings i m)

theorem Offers.fetched {m : Machine} {values : List Value} (h : m.Offers values)
    (settings : Settings) (i : Instruction) : (m.fetched settings i).Offers values :=
  { h with }

theorem Delivers.offers {start m : Machine} {size : Nat} {values : List Value}
    (h : start.Delivers m size values) (hRoom : start.sp < stackSize)
    (hSp : m.sp ≤ m.stack.size) : m.Offers values := by
  have hStart : m.sp - values.length = start.sp := by
    rw [h.sp]
    omega
  refine ⟨by rw [h.sp]; omega, ?_, by rw [hStart]; exact hRoom, hSp⟩
  rw [hStart]
  exact h.values

/-- The instruction after a fragment puts one value in the place of what the fragment delivered. -/
theorem delivers_of_answered {start m : Machine} {size : Nat} {values : List Value}
    {i : Instruction} {gives : Nat → Value → Prop} {fails : Prop} (hNext : m.next? = some i)
    (hDelivers : start.Delivers m size values)
    (hAnswer : (m.fetched settings i).Answered values gives fails
      (Execution.execute i (m.fetched settings i))) :
    (∃ value finish, Reaches settings m finish ∧
      start.Delivers finish (size + i.length) [value] ∧ gives finish.nextLabel value) ∨
    fails ∧ ∃ cause finish, Ends settings m (.error (.error cause)) finish := by
  rcases hAnswer with ⟨value, host, hExecute, hLabels, hGives⟩ | ⟨hFails, cause, after, hExecute⟩
  · refine Or.inl ⟨value, _, reaches_of_execute hNext hExecute, ?_, hGives⟩
    have hStart : m.sp - values.length = start.sp := by
      rw [hDelivers.sp]
      omega
    constructor
    · exact hDelivers.constants
    · simp only [frame_fetched, hDelivers.frame, Nat.add_assoc]
    · simp only [sp_fetched, hStart, List.length_singleton]
    · exact (Slots.size_write _ _ _).trans hDelivers.stack
    · intro slot hSlot
      simp only [sp_fetched, stack_fetched, hStart]
      rw [Slots.read_write_of_ne _ (by omega), hDelivers.below slot hSlot]
    · simp only [sp_fetched, stack_fetched, hStart, List.length_singleton, Slots.slice_one,
        Slots.read_write_self]
    · rw [nextLabel_fetched] at hLabels
      exact Nat.le_trans hDelivers.labels hLabels
  · exact Or.inr ⟨hFails, cause, after, ends_of_execute hNext hExecute⟩

end Machine

namespace Fragment

open Machine

variable {F G : Fragment} {givesF givesG : Nat → Nat → List Value → Prop} {failsF failsG : Prop}

/-- A machine that was ready for something larger is ready for what comes next in it. -/
theorem Ready.after {m middle : Machine} {outer entry size : Nat} {values : List Value}
    (h : F.Ready m outer) (hDelivers : m.Delivers middle size values)
    (hCode : HoldsAt m.frame.function.code.toList (m.frame.cursor + size)
      (G.code (m.frame.cursor + size) entry))
    (hPool : HoldsAt m.constants entry (G.pool entry))
    (hRoom : m.sp + values.length + G.need ≤ stackSize) : G.Ready middle entry where
  code := by
    rw [hDelivers.frame]
    exact hCode
  pool := hDelivers.constants ▸ hPool
  room := hDelivers.sp ▸ hRoom
  short := by
    rw [hDelivers.frame]
    exact h.short
  few := hDelivers.constants ▸ h.few
  stack := hDelivers.stack.trans h.stack

theorem Ready.of_append_left {m : Machine} {entry : Nat} (h : (F.append G).Ready m entry) :
    F.Ready m entry where
  code := h.code.left
  pool := h.pool.left
  room := by
    have hRoom := h.room
    simp only [append] at hRoom
    omega
  short := h.short
  few := h.few
  stack := h.stack

theorem Ready.of_append_right {m middle : Machine} {entry : Nat} {values : List Value}
    (h : (F.append G).Ready m entry) (hDelivers : m.Delivers middle F.size values)
    (hResults : values.length = F.results) : G.Ready middle (entry + F.entries) := by
  have hCode := h.code.right
  have hPool := h.pool.right
  have hRoom := h.room
  rw [F.length_code] at hCode
  rw [F.length_pool] at hPool
  simp only [append] at hRoom
  exact h.after hDelivers hCode hPool (by omega)

theorem Computes.mono {gives : Nat → Nat → List Value → Prop} {fails : Prop}
    (h : F.Computes givesF failsF)
    (hGives : ∀ low high values, low ≤ high → values.length = F.results →
      givesF low high values → gives low high values)
    (hFails : failsF → fails) : F.Computes gives fails := by
  intro settings m entry hReady
  rcases h settings m entry hReady with
    ⟨values, finish, run, hDelivers, hResults, hGivesF⟩ | ⟨hFailsF, hEnds⟩
  · exact Or.inl ⟨values, finish, run, hDelivers, hResults,
      hGives _ _ _ hDelivers.labels hResults hGivesF⟩
  · exact Or.inr ⟨hFails hFailsF, hEnds⟩

theorem computes_nothing : nothing.Computes (fun _ _ values => values = []) False := by
  intro settings m entry hReady
  exact Or.inl ⟨[], m, Reaches.refl m, Delivers.refl m, rfl, rfl⟩

/-- One fragment after another delivers the values of both. -/
theorem Computes.append (hF : F.Computes givesF failsF) (hG : G.Computes givesG failsG) :
    (F.append G).Computes
      (fun low high values => ∃ middle xs ys, low ≤ middle ∧ middle ≤ high ∧ values = xs ++ ys ∧
        xs.length = F.results ∧ ys.length = G.results ∧ givesF low middle xs ∧
        givesG middle high ys)
      (failsF ∨ failsG) := by
  intro settings m entry hReady
  rcases hF settings m entry hReady.of_append_left with
    ⟨xs, middle, runF, hDeliversF, hResultsF, hGivesF⟩ | ⟨hFails, cause, finish, hEnds⟩
  · rcases hG settings middle _ (hReady.of_append_right hDeliversF hResultsF) with
      ⟨ys, finish, runG, hDeliversG, hResultsG, hGivesG⟩ | ⟨hFails, cause, finish, hEnds⟩
    · refine Or.inl ⟨xs ++ ys, finish, runF.trans runG, hDeliversF.trans hDeliversG, ?_,
        middle.nextLabel, xs, ys, hDeliversF.labels, hDeliversG.labels, rfl, hResultsF, hResultsG,
        hGivesF, hGivesG⟩
      rw [List.length_append, hResultsF, hResultsG]
      rfl
    · exact Or.inr ⟨Or.inr hFails, cause, finish, runF.ends hEnds⟩
  · exact Or.inr ⟨Or.inl hFails, cause, finish, hEnds⟩

theorem next?_of_holdsAt {m : Machine} {op : Opcode} {numbers : List Nat}
    (h : HoldsAt m.frame.function.code.toList m.frame.cursor (op.encode numbers)) :
    m.next? = Instruction.decode? m.frame.function.code op (m.frame.cursor + 1) :=
  Code.instructionAt?_of_holdsAt h

theorem computes_constant (value : Nat → Value) :
    (constant value).Computes (fun _ _ values => ∃ entry, values = [value entry]) False := by
  intro settings m entry hReady
  have hEntry : m.constants[entry]? = some (value entry) := hReady.pool.head
  have hFew : entry < 65536 := by
    obtain ⟨hPlace, _⟩ := List.getElem?_eq_some_iff.mp hEntry
    exact Nat.lt_of_lt_of_le hPlace hReady.few
  have hNext : m.next? = some (.constant entry) := by
    rw [next?_of_holdsAt hReady.code]
    exact Code.decode?_of_encode (fun _ _ => rfl) rfl hFew hReady.code
  have hRoom : m.sp < stackSize := hReady.room
  have hOffers : m.Offers [] :=
    (Delivers.refl m).offers hRoom (by rw [hReady.stack]; exact Nat.le_of_lt hRoom)
  have hAnswer : (m.fetched settings (.constant entry)).Answered []
      (fun _ found => found = value entry) False
      (Execution.execute (.constant entry) (m.fetched settings (.constant entry))) :=
    Execution.answered_constant (hOffers.fetched settings _) hEntry rfl
  rcases delivers_of_answered hNext (Delivers.refl m) hAnswer with
    ⟨_, finish, run, hDelivers, rfl⟩ | ⟨hFails, _⟩
  · exact Or.inl ⟨_, finish, run, hDelivers, rfl, entry, rfl⟩
  · exact hFails.elim

/-- A fragment and an instruction that makes one value of its results. -/
theorem Computes.apply (hF : F.Computes givesF failsF) {op : Opcode} {numbers : List Nat}
    {i : Instruction}
    (hDecode : ∀ (code : Code) offset, F.results ≤ stackSize →
      HoldsAt code.toList offset (op.encode numbers) →
      Instruction.decode? code op (offset + 1) = some i)
    (hLength : (op.encode numbers).length = i.length) {gives : Nat → Nat → Value → Prop}
    {fails : Prop} (hFails : failsF → fails)
    (hAnswer : ∀ low (m : Machine) values, values.length = F.results → low ≤ m.nextLabel →
      givesF low m.nextLabel values → m.Offers values →
      m.Answered values (gives low) fails (Execution.execute i m)) :
    (F.apply op numbers).Computes
      (fun low high values => ∃ value, values = [value] ∧ gives low high value) fails := by
  intro settings m entry hReady
  have hRoom : m.sp + max F.need 1 ≤ stackSize := hReady.room
  have hReadyF : F.Ready m entry :=
    { hReady with
      code := hReady.code.left
      pool := hReady.pool
      room := by omega }
  rcases hF settings m entry hReadyF with
    ⟨values, middle, runF, hDelivers, hResults, hGives⟩ | ⟨hFailsF, cause, finish, hEnds⟩
  · have hResultsLe : F.results ≤ F.need := F.results_le_need
    have hNext : middle.next? = some i := by
      have hCode := hReady.code.right
      rw [F.length_code] at hCode
      have hHere : HoldsAt middle.frame.function.code.toList middle.frame.cursor
          (op.encode numbers) := by
        rw [hDelivers.frame]
        exact hCode
      rw [next?_of_holdsAt hHere, hDecode _ _ (by omega) hHere]
    have hSp : middle.sp ≤ middle.stack.size := by
      rw [hDelivers.sp, hDelivers.stack, hReady.stack, hResults]
      omega
    have hOffers : middle.Offers values := hDelivers.offers (by omega) hSp
    have hLabel := nextLabel_fetched settings i middle
    have hAnswered := hAnswer m.nextLabel _ values hResults (hLabel ▸ hDelivers.labels)
      (hLabel ▸ hGives) (hOffers.fetched settings i)
    rcases delivers_of_answered hNext hDelivers hAnswered with
      ⟨value, finish, run, hFinish, hGiven⟩ | ⟨hFailsHere, cause, finish, hEnds⟩
    · refine Or.inl ⟨[value], finish, runF.trans run, ?_, rfl, value, rfl, hGiven⟩
      have hSize : (F.apply op numbers).size = F.size + i.length := by rw [← hLength]; rfl
      rw [hSize]
      exact hFinish
    · exact Or.inr ⟨hFailsHere, cause, finish, runF.ends hEnds⟩
  · exact Or.inr ⟨hFails hFailsF, cause, finish, hEnds⟩

section

variable {C T A : Fragment} {settings : Settings} {m middle finish : Machine} {entry : Nat}

/-- Where the parts of a branch stand in the stream, if those of the consequence start at
`consequenceAt` and those of the alternative at `alternativeAt`. -/
structure Placed (C T A : Fragment) (m : Machine) (entry consequenceAt alternativeAt : Nat) :
    Prop where
  test : HoldsAt m.frame.function.code.toList (m.frame.cursor + C.size)
    (Opcode.jumpUnlessTruthy.encode [alternativeAt])
  consequence : HoldsAt m.frame.function.code.toList consequenceAt
    (T.code consequenceAt (entry + C.entries))
  jump : HoldsAt m.frame.function.code.toList (consequenceAt + T.size)
    (Opcode.jump.encode [alternativeAt + A.size])
  alternative : HoldsAt m.frame.function.code.toList alternativeAt
    (A.code alternativeAt (entry + C.entries + T.entries))
  consequencePool : HoldsAt m.constants (entry + C.entries) (T.pool (entry + C.entries))
  alternativePool : HoldsAt m.constants (entry + C.entries + T.entries)
    (A.pool (entry + C.entries + T.entries))

theorem Ready.branch_condition (h : (C.branch T A).Ready m entry) : C.Ready m entry where
  code := h.code.left
  pool := h.pool.left
  room := by
    have hRoom := h.room
    simp only [branch] at hRoom
    omega
  short := h.short
  few := h.few
  stack := h.stack

theorem Ready.placed (h : (C.branch T A).Ready m entry) :
    Placed C T A m entry (m.frame.cursor + C.size + jumpSize)
      (m.frame.cursor + C.size + jumpSize + T.size + jumpSize) := by
  have hTest := h.code.right
  rw [C.length_code] at hTest
  have hConsequence : HoldsAt _ (m.frame.cursor + C.size + jumpSize) _ := hTest.right
  have hJump := hConsequence.right
  rw [T.length_code] at hJump
  have hPool := h.pool.right
  rw [C.length_pool] at hPool
  have hAlternativePool := hPool.right
  rw [T.length_pool] at hAlternativePool
  exact ⟨hTest.left, hConsequence.left, hJump.left, hJump.right, hPool.left, hAlternativePool⟩

/-- Jump targets are not beyond the end of the stream, so they can be encoded. -/
theorem Ready.targets_lt (h : (C.branch T A).Ready m entry) :
    m.frame.cursor + C.size + jumpSize + T.size + jumpSize + A.size < 65536 := by
  have hSize : 0 < (C.branch T A).size := by
    simp only [branch, jumpSize]
    omega
  have hEnd := h.code.end_le (by rw [(C.branch T A).length_code]; exact hSize)
  rw [(C.branch T A).length_code, Code.length_toList] at hEnd
  have hShort := h.short
  simp only [branch] at hEnd
  omega

/-- A jump at the end of what has been delivered goes on somewhere else in the same function. -/
theorem delivers_jump {size target : Nat} {values : List Value}
    (hDelivers : m.Delivers middle size values) (hNext : middle.next? = some (.jump target))
    {moved : Nat} (hTarget : target = m.frame.cursor + moved) :
    ∃ finish, Reaches settings middle finish ∧ m.Delivers finish moved values ∧
      finish.nextLabel = middle.nextLabel := by
  have hLabel := nextLabel_fetched settings (.jump target) middle
  refine ⟨_, reaches_of_execute hNext rfl, ?_, hLabel⟩
  constructor
  · exact hDelivers.constants
  · simp only [frame_fetched, hDelivers.frame, hTarget]
  · exact hDelivers.sp
  · exact hDelivers.stack
  · exact hDelivers.below
  · exact hDelivers.values
  · exact Nat.le_trans hDelivers.labels (Nat.le_of_eq hLabel.symm)

/-- The test takes the condition off the stack and goes on at the consequence or at the
alternative. -/
theorem delivers_test (settings : Settings) {condition : Value}
    (hReady : (C.branch T A).Ready m entry)
    (hDelivers : m.Delivers middle C.size [condition]) :
    ∃ tested, Reaches settings middle tested ∧
      m.Delivers tested
        (if condition.isTruthy then C.size + jumpSize
          else C.size + jumpSize + T.size + jumpSize) [] ∧
      tested.nextLabel = middle.nextLabel := by
  have hTargets := hReady.targets_lt
  have hTest := hReady.placed.test
  have hNext : middle.next? = some (.jumpUnlessTruthy
      (m.frame.cursor + C.size + jumpSize + T.size + jumpSize)) := by
    have hHere : HoldsAt middle.frame.function.code.toList middle.frame.cursor
        (Opcode.jumpUnlessTruthy.encode
          [m.frame.cursor + C.size + jumpSize + T.size + jumpSize]) := by
      rw [hDelivers.frame]
      exact hTest
    rw [next?_of_holdsAt hHere]
    exact Code.decode?_of_encode (fun _ _ => rfl) rfl (by omega) hHere
  have hRoom : m.sp < stackSize := by
    have hNeed := hReady.room
    simp only [branch] at hNeed
    omega
  have hSp : middle.sp ≤ middle.stack.size := by
    rw [hDelivers.sp, hDelivers.stack, hReady.stack]
    exact hRoom
  have hOffers := (hDelivers.offers hRoom hSp).fetched settings
    (.jumpUnlessTruthy (m.frame.cursor + C.size + jumpSize + T.size + jumpSize))
  have hLabel := nextLabel_fetched settings
    (.jumpUnlessTruthy (m.frame.cursor + C.size + jumpSize + T.size + jumpSize)) middle
  refine ⟨_, reaches_of_execute hNext (Execution.execute_jumpUnlessTruthy hOffers _), ?_, hLabel⟩
  have hTested : middle.sp - 1 = m.sp := by
    rw [hDelivers.sp]
    rfl
  constructor
  · exact hDelivers.constants
  · cases condition.isTruthy with
    | true => simp [hDelivers.frame, Instruction.length, jumpSize, Nat.add_assoc]
    | false => simp [hDelivers.frame, jumpSize, Nat.add_assoc]
  · exact hTested
  · exact hDelivers.stack
  · exact hDelivers.below
  · rfl
  · exact Nat.le_trans hDelivers.labels (Nat.le_of_eq hLabel.symm)

theorem Ready.branch_consequence (hReady : (C.branch T A).Ready m entry)
    (hDelivers : m.Delivers middle (C.size + jumpSize) []) :
    T.Ready middle (entry + C.entries) := by
  have hRoom := hReady.room
  simp only [branch] at hRoom
  refine hReady.after hDelivers ?_ hReady.placed.consequencePool ?_
  · rw [← Nat.add_assoc]
    exact hReady.placed.consequence
  · rw [List.length_nil]
    omega

theorem Ready.branch_alternative (hReady : (C.branch T A).Ready m entry)
    (hDelivers : m.Delivers middle (C.size + jumpSize + T.size + jumpSize) []) :
    A.Ready middle (entry + C.entries + T.entries) := by
  have hRoom := hReady.room
  have hCursor : m.frame.cursor + (C.size + jumpSize + T.size + jumpSize) =
      m.frame.cursor + C.size + jumpSize + T.size + jumpSize := by omega
  simp only [branch] at hRoom
  refine hReady.after hDelivers ?_ hReady.placed.alternativePool ?_
  · rw [hCursor]
    exact hReady.placed.alternative
  · rw [List.length_nil]
    omega

/-- Behind the consequence stands a jump over the alternative. -/
theorem delivers_consequence (settings : Settings) {values : List Value}
    (hReady : (C.branch T A).Ready m entry)
    (hDelivers : m.Delivers middle (C.size + jumpSize + T.size) values) :
    ∃ finish, Reaches settings middle finish ∧ m.Delivers finish (C.branch T A).size values ∧
      finish.nextLabel = middle.nextLabel := by
  have hTargets := hReady.targets_lt
  have hNext : middle.next? = some (.jump
      (m.frame.cursor + C.size + jumpSize + T.size + jumpSize + A.size)) := by
    have hHere : HoldsAt middle.frame.function.code.toList middle.frame.cursor
        (Opcode.jump.encode
          [m.frame.cursor + C.size + jumpSize + T.size + jumpSize + A.size]) := by
      have hCursor : m.frame.cursor + (C.size + jumpSize + T.size) =
          m.frame.cursor + C.size + jumpSize + T.size := by omega
      rw [hDelivers.frame, hCursor]
      exact hReady.placed.jump
    rw [next?_of_holdsAt hHere]
    exact Code.decode?_of_encode (fun _ _ => rfl) rfl (by omega) hHere
  refine delivers_jump hDelivers hNext ?_
  simp only [branch]
  omega

/-- A branch delivers what the part delivers that the condition leads to. -/
theorem Computes.branch {givesC givesT givesA : Nat → Nat → List Value → Prop}
    {failsC failsT failsA : Prop} (hC : C.Computes givesC failsC) (hT : T.Computes givesT failsT)
    (hA : A.Computes givesA failsA) (hOneC : C.results = 1) (hOneT : T.results = 1)
    (hOneA : A.results = 1) :
    (C.branch T A).Computes
      (fun low high values => ∃ middle condition, low ≤ middle ∧ middle ≤ high ∧
        givesC low middle [condition] ∧
        if condition.isTruthy then givesT middle high values else givesA middle high values)
      (failsC ∨ ∃ low middle condition, givesC low middle [condition] ∧
        if condition.isTruthy then failsT else failsA) := by
  intro settings m entry hReady
  rcases hC settings m entry hReady.branch_condition with
    ⟨values, middle, runC, hDeliversC, hResults, hGivesC⟩ | ⟨hFails, cause, finish, hEnds⟩
  · obtain ⟨condition, rfl⟩ := List.length_eq_one_iff.mp (hResults.trans hOneC)
    obtain ⟨tested, runTest, hTested, hLabel⟩ :=
      delivers_test settings hReady hDeliversC
    have hRun := runC.trans runTest
    rw [← hLabel] at hGivesC
    cases hTruthy : condition.isTruthy with
    | true =>
        rw [hTruthy, if_pos rfl] at hTested
        rcases hT settings tested _ (hReady.branch_consequence hTested) with
          ⟨values, after, runT, hDeliversT, hResultsT, hGivesT⟩ | ⟨hFails, cause, finish, hEnds⟩
        · obtain ⟨finish, runJump, hFinish, hLabelJump⟩ :=
            delivers_consequence settings hReady (hTested.trans hDeliversT)
          refine Or.inl ⟨values, finish, hRun.trans (runT.trans runJump), hFinish,
            hResultsT.trans hOneT, tested.nextLabel, condition, hTested.labels, ?_, hGivesC, ?_⟩
          · rw [hLabelJump]
            exact hDeliversT.labels
          · rw [hLabelJump, hTruthy]
            exact hGivesT
        · refine Or.inr ⟨Or.inr ⟨_, _, condition, hGivesC, ?_⟩, cause, finish, hRun.ends hEnds⟩
          rw [hTruthy]
          exact hFails
    | false =>
        rw [hTruthy, if_neg Bool.false_ne_true] at hTested
        rcases hA settings tested _ (hReady.branch_alternative hTested) with
          ⟨values, finish, runA, hDeliversA, hResultsA, hGivesA⟩ | ⟨hFails, cause, finish, hEnds⟩
        · have hSize : C.size + jumpSize + T.size + jumpSize + A.size = (C.branch T A).size := by
            simp only [Fragment.branch]
            omega
          refine Or.inl ⟨values, finish, hRun.trans runA, hSize ▸ hTested.trans hDeliversA,
            hResultsA.trans hOneA, tested.nextLabel, condition, hTested.labels,
            hDeliversA.labels, hGivesC, ?_⟩
          rw [hTruthy]
          exact hGivesA
        · refine Or.inr ⟨Or.inr ⟨_, _, condition, hGivesC, ?_⟩, cause, finish, hRun.ends hEnds⟩
          rw [hTruthy]
          exact hFails
  · exact Or.inr ⟨Or.inl hFails, cause, finish, hEnds⟩

end

end Fragment

end Tandem
