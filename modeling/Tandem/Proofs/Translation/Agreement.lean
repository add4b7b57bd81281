import Tandem.Proofs.Translation.Evaluation
import Tandem.Proofs.Translation.Execution
/-!
Both engines agree on plain expressions. A translated expression computes what the expression
means, and so does its evaluation as a tree; hence the machine answers with a value that has the
same contents, and stops with an error where the evaluation fails. The one exception is a
comparison that the evaluation of trees refuses while the machine tells the two values apart.
-/
namespace Tandem

/-- The only value is data made on the way, and what was meant. -/
def Given (meant : Meaning Value) (low high : Nat) (values : List Value) : Prop :=
  ∃ value, values = [value] ∧ value.Meets low high meant

def ElementsGiven (meant : Meaning (List Value)) (low high : Nat) (values : List Value) : Prop :=
  (∀ value ∈ values, value.DataWithin low high) ∧ Met meant (bareElements values)

/-- The values are data made on the way, and keys and values in turn as they were meant, whatever
entries there are before. -/
def PairsGiven (pairs : List (Expr × Expr)) (low high : Nat) (values : List Value) : Prop :=
  (∀ value ∈ values, value.DataWithin low high) ∧
    ∀ entries, PairsMet (pairMeanings pairs (bareEntries entries)) (collectValues values entries)

def BinaryOp.instruction : BinaryOp → Instruction
  | add => .arithmetic .add
  | subtract => .arithmetic .subtract
  | multiply => .arithmetic .multiply
  | divide => .arithmetic .divide
  | equal => .comparison .equal
  | notEqual => .comparison .notEqual
  | less | greater => .comparison .greater

namespace Fragment

variable {label : Nat → Label} {F : Fragment}

theorem results_fragment {e : Expr} (h : e.Plain) : (e.fragment label).results = 1 := by
  cases h with
  | boolean b => cases b <;> rfl
  | binary op hLeft hRight => cases op <;> rfl
  | _ => rfl

section

variable {F G : Fragment} {meant other : Meaning Value}

/-- An instruction without operands. -/
theorem computes_simple {op : Opcode} {i : Instruction} {value : Meaning Value}
    (hDecode : ∀ code offset, Instruction.decode? code op (offset + 1) = some i)
    (hLength : (op.encode []).length = i.length)
    (hAnswer : ∀ low (m : Machine), m.Offers [] →
      m.Answered [] (fun high => Value.Meets low high value) (Fails value)
        (Execution.execute i m)) :
    (nothing.apply op []).Computes (Given value) (Fails value) := by
  refine computes_nothing.apply (fun code offset _ _ => hDecode code offset) hLength
    False.elim fun low m values hResults hLow hValues hOffers => ?_
  rw [hValues] at hOffers ⊢
  exact hAnswer low m hOffers

theorem computes_unary (op : UnaryOp) (hF : F.Computes (Given meant) (Fails meant)) :
    (F.apply op.opcode []).Computes (Given (do op.meaning (← meant)))
      (Fails (do op.meaning (← meant))) := by
  cases op with
  | not =>
      refine hF.apply (fun code offset _ _ => rfl) rfl (fun hFails => hFails.bind _)
        fun low m values hResults hLow hGiven hOffers => ?_
      obtain ⟨value, rfl, _, hMet⟩ := hGiven
      exact (Execution.answered_not hOffers).bind hMet
  | negate =>
      refine hF.apply (fun code offset _ _ => rfl) rfl (fun hFails => hFails.bind _)
        fun low m values hResults hLow hGiven hOffers => ?_
      obtain ⟨value, rfl, _, hMet⟩ := hGiven
      exact (Execution.answered_negate hOffers).bind hMet

/-- Two fragments that give one value each. -/
theorem computes_pair (hF : F.Computes (Given meant) (Fails meant))
    (hG : G.Computes (Given other) (Fails other)) :
    (F.append G).Computes
      (fun low high values => ∃ left right middle, values = [left, right] ∧ low ≤ middle ∧
        middle ≤ high ∧ left.Meets low middle meant ∧ right.Meets middle high other)
      (Fails meant ∨ Fails other) := by
  refine (hF.append hG).mono ?_ id
  rintro low high values _ _ ⟨middle, _, _, hLow, hHigh, rfl, _, _, ⟨left, rfl, hLeft⟩,
    ⟨right, rfl, hRight⟩⟩
  exact ⟨left, right, middle, rfl, hLow, hHigh, hLeft, hRight⟩

theorem fails_pair {β γ δ : Type} {meant : Meaning β} {other : Meaning γ}
    {next : β → γ → Meaning δ} (h : Fails meant ∨ Fails other) :
    Fails (do
      let left ← meant
      let right ← other
      next left right) := by
  rcases h with hFirst | hSecond
  · exact hFirst.bind _
  · exact fails_bind_of_next fun left => hSecond.bind _

theorem answered_operator {op : BinaryOp} (hOp : op ≠ .less) {low middle : Nat} {m : Machine}
    {left right : Value} (hOffers : m.Offers [left, right]) (hLeft : left.DataWithin low middle)
    (hRight : right.DataWithin middle m.nextLabel) :
    m.Answered [left, right] (fun high => Value.Meets low high (op.meaning left.bare right.bare))
      (Fails (op.meaning left.bare right.bare)) (Execution.execute op.instruction m) := by
  cases op with
  | add => exact Execution.answered_arithmetic .add hOffers
  | subtract => exact Execution.answered_arithmetic .subtract hOffers
  | multiply => exact Execution.answered_arithmetic .multiply hOffers
  | divide => exact Execution.answered_arithmetic .divide hOffers
  | less => exact absurd rfl hOp
  | greater => exact Execution.answered_comparison .greater hOffers hLeft hRight
  | equal => exact Execution.answered_comparison .equal hOffers hLeft hRight
  | notEqual => exact Execution.answered_comparison .notEqual hOffers hLeft hRight

theorem computes_binary {op : BinaryOp} (hOp : op ≠ .less)
    (hF : F.Computes (Given meant) (Fails meant)) (hG : G.Computes (Given other) (Fails other)) :
    ((F.append G).apply op.opcode []).Computes
      (Given (do
        let left ← meant
        let right ← other
        op.meaning left right))
      (Fails (do
        let left ← meant
        let right ← other
        op.meaning left right)) := by
  have hDecode (code : Code) (offset : Nat) :
      Instruction.decode? code op.opcode (offset + 1) = some op.instruction := by
    cases op <;> rfl
  have hLength : (op.opcode.encode []).length = op.instruction.length := by cases op <;> rfl
  refine (computes_pair hF hG).apply (fun code offset _ _ => hDecode code offset) hLength
    fails_pair fun low m values hResults hLow hGiven hOffers => ?_
  obtain ⟨left, right, middle, rfl, _, _, ⟨hLeft, hLeftMet⟩, ⟨hRight, hRightMet⟩⟩ := hGiven
  exact ((answered_operator hOp hOffers hLeft hRight).bind hRightMet).bind hLeftMet

/-- The operands of `<` are computed from right to left. -/
theorem computes_less (hF : F.Computes (Given meant) (Fails meant))
    (hG : G.Computes (Given other) (Fails other)) :
    ((G.append F).apply .greater []).Computes
      (Given (do
        let left ← meant
        let right ← other
        BinaryOp.less.meaning left right))
      (Fails (do
        let left ← meant
        let right ← other
        BinaryOp.less.meaning left right)) := by
  refine (computes_pair hG hF).apply (fun code offset _ _ => rfl) rfl
    (fun hFails => fails_pair hFails.symm) fun low m values hResults hLow hGiven hOffers => ?_
  obtain ⟨right, left, middle, rfl, _, _, ⟨hRight, hRightMet⟩, ⟨hLeft, hLeftMet⟩⟩ := hGiven
  have hGreater := Execution.answered_comparison .greater hOffers hRight hLeft
  have hLess := hGreater.mono (fun high value => meets_less) fails_less
  exact (hLess.bind hRightMet).bind hLeftMet

theorem computes_index (hF : F.Computes (Given meant) (Fails meant))
    (hG : G.Computes (Given other) (Fails other)) :
    ((F.append G).apply .index []).Computes
      (Given (do
        let object ← meant
        let key ← other
        indexMeaning object key))
      (Fails (do
        let object ← meant
        let key ← other
        indexMeaning object key)) := by
  refine (computes_pair hF hG).apply (fun code offset _ _ => rfl) rfl fails_pair
    fun low m values hResults hLow hGiven hOffers => ?_
  obtain ⟨object, key, middle, rfl, _, hHigh, ⟨hObject, hObjectMet⟩, ⟨_, hKeyMet⟩⟩ := hGiven
  have hIndex := Execution.answered_index hOffers (hObject.mono (Nat.le_refl _) hHigh)
  exact (hIndex.bind hKeyMet).bind hObjectMet

/-- A branch computes what its condition leads to. -/
theorem computes_conditional {C T A : Fragment} {consequence alternative : Meaning Value}
    (hC : C.Computes (Given meant) (Fails meant))
    (hT : T.Computes (Given consequence) (Fails consequence))
    (hA : A.Computes (Given alternative) (Fails alternative)) (hOneC : C.results = 1)
    (hOneT : T.results = 1) (hOneA : A.results = 1) :
    (C.branch T A).Computes
      (Given (do if (← meant).isTruthy then consequence else alternative))
      (Fails (do if (← meant).isTruthy then consequence else alternative)) := by
  refine (hC.branch hT hA hOneC hOneT hOneA).mono ?_ ?_
  · rintro low high values _ _ ⟨middle, condition, hLow, _, ⟨_, hCondition, _, hMet⟩, hGiven⟩
    cases hCondition
    have hMeets : Given (if condition.bare.isTruthy then consequence else alternative) middle high
        values := by
      rw [Value.isTruthy_bare]
      split at hGiven
      · rwa [if_pos (by assumption)]
      · rwa [if_neg (by assumption)]
    obtain ⟨value, rfl, hMeets⟩ := hMeets
    exact ⟨value, rfl, (hMeets.mono hLow).bind hMet⟩
  · rintro (hFails | ⟨low, middle, condition, ⟨_, hCondition, _, hMet⟩, hFails⟩)
    · exact hFails.bind _
    · cases hCondition
      refine fails_bind_of_met hMet ?_
      rw [Value.isTruthy_bare]
      split at hFails
      · rwa [if_pos (by assumption)]
      · rwa [if_neg (by assumption)]

end

theorem results_fragments {es : List Expr} (h : ∀ e ∈ es, e.Plain) :
    (fragments label es).results = es.length := by
  induction es with
  | nil => rfl
  | cons e rest ih =>
      have hFirst : (e.fragment label).results = 1 := results_fragment (h e List.mem_cons_self)
      have hRest := ih fun e hMem => h e (List.mem_cons_of_mem _ hMem)
      simp only [fragments, append, hFirst, hRest, List.length_cons]
      omega

theorem results_pairFragments {pairs : List (Expr × Expr)} (hKeys : ∀ pair ∈ pairs, pair.1.Plain)
    (hValues : ∀ pair ∈ pairs, pair.2.Plain) :
    (pairFragments label pairs).results = 2 * pairs.length := by
  induction pairs with
  | nil => rfl
  | cons pair rest ih =>
      obtain ⟨key, value⟩ := pair
      have hKey : (key.fragment label).results = 1 := results_fragment (hKeys _ List.mem_cons_self)
      have hValue : (value.fragment label).results = 1 :=
        results_fragment (hValues _ List.mem_cons_self)
      have hRest := ih (fun pair hMem => hKeys pair (List.mem_cons_of_mem _ hMem))
        fun pair hMem => hValues pair (List.mem_cons_of_mem _ hMem)
      simp only [pairFragments, append, hKey, hValue, hRest, List.length_cons]
      omega

/-- Expressions one after another compute what they mean, if each of them does. -/
theorem computes_fragments {es : List Expr}
    (h : ∀ e ∈ es, (e.fragment label).Computes (Given e.meaning) (Fails e.meaning)) :
    (fragments label es).Computes (ElementsGiven (meanings es)) (Fails (meanings es)) := by
  induction es with
  | nil =>
      refine computes_nothing.mono ?_ False.elim
      rintro low high values _ _ rfl
      exact ⟨by simp, rfl⟩
  | cons e rest ih =>
      have hRest := ih fun e hMem => h e (List.mem_cons_of_mem _ hMem)
      rw [fragments, meanings]
      refine ((h e List.mem_cons_self).append hRest).mono ?_ fails_pair
      rintro low high values _ _ ⟨middle, _, others, hLow, hHigh, rfl, _, _,
        ⟨value, rfl, hWithin, hMet⟩, ⟨hOthers, hOthersMet⟩⟩
      refine ⟨fun other hOther => ?_, hMet.bind (hOthersMet.bind rfl)⟩
      rcases List.mem_cons.mp hOther with rfl | hRest
      · exact hWithin.mono (Nat.le_refl _) hHigh
      · exact (hOthers other hRest).mono hLow (Nat.le_refl _)

/-- A pair and the pairs after it. -/
theorem pairsMet_cons {keyExpr valueExpr : Expr} {rest : List (Expr × Expr)}
    {keyValue value : Value} {others : List Value} {entries : Entries}
    (hKey : Met keyExpr.meaning keyValue.bare) (hValue : Met valueExpr.meaning value.bare)
    (hRest : ∀ entries,
      PairsMet (pairMeanings rest (bareEntries entries)) (collectValues others entries)) :
    PairsMet (pairMeanings ((keyExpr, valueExpr) :: rest) (bareEntries entries))
      (collectValues (keyValue :: value :: others) entries) := by
  rw [pairMeanings, collectValues]
  cases hKeyMeaning : keyExpr.meaning with
  | error cause =>
      rw [hKeyMeaning] at hKey
      exact Or.inl hKey
  | ok key =>
      rw [hKeyMeaning] at hKey
      cases hKey
      simp only [bind, Except.bind]
      rw [Value.toKey?_bare]
      cases keyValue.toKey? with
      | none => exact Or.inr ⟨_, rfl⟩
      | some key =>
          cases hValueMeaning : valueExpr.meaning with
          | error cause =>
              rw [hValueMeaning] at hValue
              exact Or.inl hValue
          | ok meant =>
              rw [hValueMeaning] at hValue
              cases hValue
              have hMet := hRest (entries.insert key value)
              rw [Entries.bareEntries_insert] at hMet
              exact hMet

/-- Keys and values in turn compute what they mean, if each of them does. -/
theorem computes_pairFragments {pairs : List (Expr × Expr)}
    (hKeys : ∀ pair ∈ pairs,
      (pair.1.fragment label).Computes (Given pair.1.meaning) (Fails pair.1.meaning))
    (hValues : ∀ pair ∈ pairs,
      (pair.2.fragment label).Computes (Given pair.2.meaning) (Fails pair.2.meaning)) :
    (pairFragments label pairs).Computes (PairsGiven pairs)
      (∀ entries, Fails (pairMeanings pairs entries)) := by
  induction pairs with
  | nil =>
      refine computes_nothing.mono ?_ False.elim
      rintro low high values _ _ rfl
      exact ⟨by simp, fun entries => ⟨entries, rfl, rfl⟩⟩
  | cons pair rest ih =>
      obtain ⟨keyExpr, valueExpr⟩ := pair
      have hRest := ih (fun pair hMem => hKeys pair (List.mem_cons_of_mem _ hMem))
        fun pair hMem => hValues pair (List.mem_cons_of_mem _ hMem)
      have hKey := hKeys _ List.mem_cons_self
      have hValue := hValues _ List.mem_cons_self
      rw [pairFragments]
      refine (hKey.append (hValue.append hRest)).mono ?_ ?_
      · rintro low high values _ _ ⟨first, _, _, hLow, hFirst, rfl, _, _,
          ⟨keyValue, rfl, hKeyWithin, hKeyMet⟩, ⟨second, _, others, hSecond, hHigh, rfl, _, _,
          ⟨value, rfl, hValueWithin, hValueMet⟩, ⟨hOthers, hPairs⟩⟩⟩
        constructor
        · intro other hOther
          rcases List.mem_cons.mp hOther with rfl | hOther
          · exact hKeyWithin.mono (Nat.le_refl _) hFirst
          rcases List.mem_cons.mp hOther with rfl | hOther
          · exact hValueWithin.mono hLow hHigh
          · exact (hOthers other hOther).mono (by omega) (Nat.le_refl _)
        · exact fun entries => pairsMet_cons hKeyMet hValueMet hPairs
      · rintro hFails entries
        rw [pairMeanings]
        rcases hFails with hFails | hFails
        · exact hFails.bind _
        · refine fails_bind_of_next fun keyValue => ?_
          cases keyValue.toKey? with
          | none => exact fails_error _
          | some key =>
              rcases hFails with hFails | hFails
              · exact hFails.bind _
              · exact fails_bind_of_next fun value => hFails _

/-- As many values as fit on the stack can be counted by an operand. -/
theorem decode_count {op : Opcode} {make : Nat → Instruction} {count : Nat}
    (hDecode : ∀ code start, Instruction.decode? code op start = (code.wordAt? start).map make)
    (hWidths : op.operandWidths = [2]) (hResults : F.results = count) (code : Code) (offset : Nat)
    (hSmall : F.results ≤ stackSize) (h : HoldsAt code.toList offset (op.encode [count])) :
    Instruction.decode? code op (offset + 1) = some (make count) := by
  have hCount : count < 65536 := by
    unfold stackSize at hSmall
    omega
  exact Code.decode?_of_encode hDecode hWidths hCount h

/-- A plain expression computes what it means. -/
theorem computes_expression {e : Expr} (h : e.Plain) :
    (e.fragment label).Computes (Given e.meaning) (Fails e.meaning) := by
  induction h with
  | integer n =>
      refine (computes_constant _).mono ?_ False.elim
      rintro low high values _ _ ⟨entry, rfl⟩
      exact ⟨_, rfl, Value.dataWithin_integer n, rfl⟩
  | boolean b =>
      cases b with
      | true =>
          exact computes_simple (fun _ _ => rfl) rfl fun low m hOffers =>
            Execution.answered_boolean hOffers true
      | false =>
          exact computes_simple (fun _ _ => rfl) rfl fun low m hOffers =>
            Execution.answered_boolean hOffers false
  | string text =>
      refine (computes_constant _).mono ?_ False.elim
      rintro low high values _ _ ⟨entry, rfl⟩
      exact ⟨_, rfl, Value.dataWithin_string _ text, rfl⟩
  | unary op hOperand ih =>
      rw [Expr.fragment, Expr.meaning]
      exact computes_unary op ih
  | binary op hLeft hRight ihLeft ihRight =>
      rw [Expr.meaning]
      cases op with
      | less => exact computes_less ihLeft ihRight
      | _ => exact computes_binary (by simp) ihLeft ihRight
  | conditional hCondition hConsequence ihCondition ihConsequence =>
      rw [Expr.fragment, Expr.meaning]
      have hNull : (nothing.apply .pushNull []).Computes (Given (.ok .null))
          (Fails (.ok Value.null)) :=
        computes_simple (fun _ _ => rfl) rfl fun low m hOffers => Execution.answered_null hOffers
      exact computes_conditional ihCondition ihConsequence hNull (results_fragment hCondition)
        (results_fragment hConsequence) rfl
  | conditionalElse hCondition hConsequence hAlternative ihCondition ihConsequence ihAlternative =>
      rw [Expr.fragment, Expr.meaning]
      exact computes_conditional ihCondition ihConsequence ihAlternative
        (results_fragment hCondition) (results_fragment hConsequence)
        (results_fragment hAlternative)
  | @array elements hElements ih =>
      rw [Expr.fragment, Expr.meaning]
      have hCount : (fragments label elements).results = elements.length :=
        results_fragments hElements
      refine (computes_fragments ih).apply (decode_count (fun _ _ => rfl) rfl hCount) rfl
        (fun hFails => hFails.bind _) fun low m values hResults hLow hGiven hOffers => ?_
      obtain ⟨hWithin, hMet⟩ := hGiven
      rw [← hCount, ← hResults]
      exact (Execution.answered_array hOffers hLow hWithin).bind hMet
  | index hObject hKey ihObject ihKey =>
      rw [Expr.fragment, Expr.meaning]
      exact computes_index ihObject ihKey
  | @hash pairs hKeys hValues ihKeys ihValues =>
      rw [Expr.fragment, Expr.meaning]
      have hPairs : (pairFragments label pairs).results = 2 * pairs.length :=
        results_pairFragments hKeys hValues
      refine (computes_pairFragments ihKeys ihValues).apply
        (decode_count (fun _ _ => rfl) rfl hPairs) rfl (fun hFails => (hFails []).bind _)
        fun low m values hResults hLow hGiven hOffers => ?_
      obtain ⟨hWithin, hMet⟩ := hGiven
      exact Execution.answered_hash hOffers (hResults.trans hPairs) hLow hWithin (hMet [])

/-- At the start of its own stream a fragment is ready, if it is not too large. -/
theorem ready_load {e : Expr} (hCode : (e.bundle label).code.size ≤ 65535)
    (hPool : (e.bundle label).constants.length ≤ 65536)
    (hNeed : (e.fragment label).need ≤ stackSize) (globals : Slots) (host : Host) :
    (e.fragment label).Ready (Machine.load (e.bundle label) globals host) 0 where
  code := by
    show HoldsAt (Code.ofList _).toList 0 _
    rw [Code.toList_ofList]
    exact (HoldsAt.refl _).left
  pool := HoldsAt.refl _
  room := by
    show 0 + _ ≤ stackSize
    rw [Nat.zero_add]
    exact hNeed
  short := hCode
  few := hPool
  stack := rfl

/-- The stream of an expression statement ends with its value as the one popped last. -/
theorem ends_of_delivered {e : Expr} {settings : Settings} {globals : Slots} {host : Host}
    {m : Machine} {value : Value}
    (run : Machine.Reaches settings (Machine.load (e.bundle label) globals host) m)
    (h : (Machine.load (e.bundle label) globals host).Delivers m (e.fragment label).size [value]) :
    ∃ finish, Machine.Ends settings (Machine.load (e.bundle label) globals host) (.ok ()) finish ∧
      finish.lastPopped = value := by
  have hFunction : m.frame.function.code = (e.bundle label).code := by
    rw [h.frame]
    rfl
  have hCursor : m.frame.cursor = (e.fragment label).size := by
    rw [h.frame]
    exact Nat.zero_add _
  have hSp : m.sp = 1 := h.sp
  have hSize : m.stack.size = stackSize := h.stack
  have hNext : m.next? = some .pop := by
    have hPop : HoldsAt (Code.ofList ((e.fragment label).code 0 0 ++ Opcode.pop.encode [])).toList
        (0 + ((e.fragment label).code 0 0).length) (Opcode.pop.encode []) := by
      rw [Code.toList_ofList]
      exact (HoldsAt.refl _).right
    have hHere : HoldsAt m.frame.function.code.toList m.frame.cursor (Opcode.pop.encode []) := by
      rw [hFunction, hCursor]
      rw [(e.fragment label).length_code, Nat.zero_add] at hPop
      exact hPop
    rw [next?_of_holdsAt hHere]
    rfl
  have hOperand : 0 < (m.fetched settings .pop).sp := by
    rw [Machine.sp_fetched, hSp]
    exact Nat.one_pos
  have hExecute : Execution.execute .pop (m.fetched settings .pop) =
      (.ok (), { m.fetched settings .pop with sp := m.sp - 1 }) := by
    rw [Execution.execute, Execution.bind_apply, Execution.pop_of_pos hOperand]
    rfl
  have hLength : (e.bundle label).code.size = (e.fragment label).size + 1 := by
    rw [← Code.length_toList]
    show (Code.ofList _).toList.length = _
    rw [Code.toList_ofList, List.length_append, (e.fragment label).length_code]
    rfl
  have hRead : m.stack.read 0 = value := List.head_eq_of_cons_eq h.values
  refine ⟨_, .finished (run.trans (Machine.reaches_of_execute hNext hExecute)) ?_, ?_⟩
  · refine decide_eq_true ?_
    simp only [Machine.frame_fetched, hFunction, hLength, hCursor]
    exact Nat.le_refl _
  · have hRoom : 0 < stackSize := by decide
    simp [Machine.lastPopped, Slots.get?, hSp, hSize, hRoom, hRead]

end Fragment

/-- What the evaluation of a plain expression gives, if it gives anything: the value or the error
that was meant. -/
theorem meaning_of_evaluate {e : Expr} (h : e.Plain) {settings : Settings} {steps : Nat}
    {scope : ScopeId} {store after : Store} {value : Value}
    (hEvaluate : (Node.expression e).evaluate settings steps scope store = some (value, after)) :
    (value.isError = false ∧ e.meaning = .ok value.bare) ∨
      ∃ id cause, value = .error id cause.message ∧ e.meaning = .error cause := by
  unfold Node.evaluate at hEvaluate
  cases hRun : Evaluation.node settings steps (.expression e) scope store with
  | none => simp [hRun] at hEvaluate
  | some answer =>
      obtain ⟨outcome, final⟩ := answer
      obtain ⟨_, hOutcome⟩ :=
        Evaluation.follows_expression h settings steps scope store outcome final hRun
      rw [hRun] at hEvaluate
      cases outcome with
      | ok found =>
          cases hEvaluate
          obtain ⟨b, hMeaning, hWithin, rfl⟩ := hOutcome
          exact Or.inl ⟨hWithin.isError, hMeaning⟩
      | error failure =>
          cases hEvaluate
          obtain ⟨cause, hMeaning, hMessage⟩ := hOutcome
          exact Or.inr ⟨failure.id, cause, by rw [← hMessage]; rfl, hMeaning⟩

/-- The two engines agree on every plain expression whose translation is small enough to be encoded
and to be run. Its evaluation ends in every scope and store. If it gives a value, the machine runs
the translation to its end and drops a value with the same contents last. If it fails, the machine
stops with an error as well, unless the failure is a refusal to compare two values of which neither
is an integer; then the machine may go on, but it never asks for anything that is not there. -/
theorem engines_agree {e : Expr} (h : e.Plain) (label : Nat → Label)
    (hCode : (e.bundle label).code.size ≤ 65535)
    (hPool : (e.bundle label).constants.length ≤ 65536)
    (hNeed : (e.fragment label).need ≤ stackSize) (treeSettings machineSettings : Settings)
    (scope : ScopeId) (store : Store) (globals : Slots) (host : Host) :
    (∃ bound, ∀ steps, bound ≤ steps →
      ((Node.expression e).evaluate treeSettings steps scope store).isSome) ∧
    ∀ steps value after,
      (Node.expression e).evaluate treeSettings steps scope store = some (value, after) →
      (value.isError = false →
        ∃ machineSteps finish,
          (Machine.load (e.bundle label) globals host).run machineSettings machineSteps =
            some (.ok (), finish) ∧
          finish.lastPopped.same value = true) ∧
      (value.isError = true →
        ∃ id cause, value = .error id (EvaluationError.message cause) ∧
          ∃ machineSteps outcome finish,
            (Machine.load (e.bundle label) globals host).run machineSettings machineSteps =
              some (outcome, finish) ∧
            outcome ≠ .error .fault ∧
            (cause.refusesComparison = false → ∃ error, outcome = .error (.error error))) := by
  constructor
  · refine ⟨sizeOf e, fun steps hSteps => ?_⟩
    have hEnds : (Evaluation.node treeSettings steps (.expression e) scope store).isSome :=
      Evaluation.ends_expression h treeSettings hSteps scope store
    obtain ⟨⟨outcome, after⟩, hRun⟩ := Option.isSome_iff_exists.mp hEnds
    unfold Node.evaluate
    rw [hRun]
    cases outcome <;> rfl
  · intro steps value after hEvaluate
    have hMeaning := meaning_of_evaluate h hEvaluate
    rcases Fragment.computes_expression h machineSettings _ 0
        (Fragment.ready_load hCode hPool hNeed globals host) with
      ⟨_, m, run, hDelivers, _, ⟨found, rfl, hWithin, hMet⟩⟩ | ⟨hFails, error, finish, hEnds⟩
    · obtain ⟨finish, hEnds, hPopped⟩ := Fragment.ends_of_delivered run hDelivers
      obtain ⟨machineSteps, hRun⟩ := hEnds.run_eq
      rcases hMeaning with ⟨hValue, hMeant⟩ | ⟨id, cause, rfl, hMeant⟩
      · rw [hMeant] at hMet
        refine ⟨fun _ => ⟨machineSteps, finish, hRun, ?_⟩, fun hError => ?_⟩
        · rw [hPopped]
          exact Value.same_of_bare_eq hWithin hMet.symm
        · rw [hValue] at hError
          cases hError
      · rw [hMeant] at hMet
        refine ⟨fun hValue => Bool.noConfusion hValue, fun _ => ⟨id, cause, rfl, ?_⟩⟩
        refine ⟨machineSteps, _, finish, hRun, by simp, fun hRefuses => ?_⟩
        rw [hMet] at hRefuses
        cases hRefuses
    · obtain ⟨machineSteps, hRun⟩ := hEnds.run_eq
      rcases hMeaning with ⟨_, hMeant⟩ | ⟨id, cause, rfl, hMeant⟩
      · exact absurd hMeant (hFails _)
      · refine ⟨fun hValue => Bool.noConfusion hValue, fun _ => ⟨id, cause, rfl, ?_⟩⟩
        exact ⟨machineSteps, _, finish, hRun, by simp, fun _ => ⟨error, rfl⟩⟩

/-- A branch whose consequence looks up, under a key put together, an array in a hash. -/
def lookupBranch : Expr :=
  .conditional (.binary .less (.integer 1) (.integer 2))
    [.expression (.index
      (.hash
        [(.string "ab",
          .array [.unary .negate (.integer 5), .binary .add (.string "x") (.string "y")]),
         (.boolean true, .binary .equal (.array []) (.array []))])
      (.binary .add (.string "a") (.string "b")))]
    (some [.expression (.string "unused")])

theorem plain_lookupBranch : lookupBranch.Plain := by
  refine .conditionalElse (.binary _ (.integer _) (.integer _))
    (.index (.hash ?_ ?_) (.binary _ (.string _) (.string _))) (.string _)
  · intro pair hPair
    simp only [List.mem_cons, List.not_mem_nil, or_false] at hPair
    rcases hPair with rfl | rfl
    · exact .string _
    · exact .boolean _
  · intro pair hPair
    simp only [List.mem_cons, List.not_mem_nil, or_false] at hPair
    rcases hPair with rfl | rfl
    · refine .array fun e hMem => ?_
      simp only [List.mem_cons, List.not_mem_nil, or_false] at hMem
      rcases hMem with rfl | rfl
      · exact .unary _ (.integer _)
      · exact .binary _ (.string _) (.string _)
    · exact .binary _ (.array (by simp)) (.array (by simp))

/-- The branch gives an array in both engines, with the same contents. -/
theorem engines_agree_on_lookupBranch :
    lookupBranch.Plain ∧ (lookupBranch.bundle .object).code.size ≤ 65535 ∧
      (lookupBranch.bundle .object).constants.length ≤ 65536 ∧
      (lookupBranch.fragment .object).need ≤ stackSize ∧
      ∃ value after machineSteps finish,
        (Node.expression lookupBranch).evaluate {} 10 0 {} = some (value, after) ∧
        (Machine.load (lookupBranch.bundle .object) { size := 0 } {}).run {} machineSteps =
          some (.ok (), finish) ∧
        finish.lastPopped.same value = true := by
  have hCode : (lookupBranch.bundle .object).code.size ≤ 65535 := by decide +kernel
  have hPool : (lookupBranch.bundle .object).constants.length ≤ 65536 := by decide +kernel
  have hNeed : (lookupBranch.fragment .object).need ≤ stackSize := by decide +kernel
  have hEnds : ((Node.expression lookupBranch).evaluate {} 10 0 {}).map
      (fun (value, _) => value.isError) = some false := by decide +kernel
  obtain ⟨⟨value, after⟩, hEvaluate, hValue⟩ := Option.map_eq_some_iff.mp hEnds
  obtain ⟨machineSteps, finish, hRun, hSame⟩ :=
    ((engines_agree plain_lookupBranch .object hCode hPool hNeed {} {} 0 {} { size := 0 } {}).2 10
      value after hEvaluate).1 hValue
  exact ⟨plain_lookupBranch, hCode, hPool, hNeed, value, after, machineSteps, finish, hEvaluate,
    hRun, hSame⟩

/-- Two strings are refused by the evaluation of trees and told apart by the machine. -/
example :
    ((Node.expression (.binary .equal (.string "a") (.string "a"))).evaluate {} 4 0 {}).map
        (fun (value, _) => value.isError) = some true ∧
      ((Machine.load ((Expr.binary .equal (.string "a") (.string "a")).bundle .object)
        { size := 0 } {}).run {} 4).map
        (fun (outcome, m) => (outcome.toBool, m.lastPopped.isTruthy)) = some (true, false) := by
  decide +kernel

end Tandem
