import Tandem.Evaluation
import Tandem.Proofs.Translation.Data
/-!
The evaluation of plain expressions. It ends in every store, as soon as it is given as many steps
as the expression is large, and it comes to what the expression means: a value with the bare form
that was meant, made of labels given out on the way, or the error that was meant.
-/
namespace Tandem

def Store.nextLabel (store : Store) : Nat := store.host.labels.objects

/-- The value is data with labels of the range, and `meant` is its bare form. -/
def Value.Agrees (low high : Nat) (value meant : Value) : Prop :=
  value.DataWithin low high ∧ meant = value.bare

def ElementsAgree (low high : Nat) (values meant : List Value) : Prop :=
  (∀ value ∈ values, value.DataWithin low high) ∧ meant = bareElements values

/-- Agreement entry by entry, where no key occurs twice. -/
def EntriesAgree (low high : Nat) (entries meant : Entries) : Prop :=
  entries.hashKeys.Nodup ∧ (∀ entry ∈ entries, entry.2.DataWithin low high) ∧
    meant = bareEntries entries

namespace Evaluation

variable {α β γ δ : Type}

/-- If the evaluation comes to a result in the store, it is the result that was meant. What agrees
with what depends on the labels before and after. -/
def Follows (x : Evaluation α) (meant : Meaning β) (agrees : (low high : Nat) → α → β → Prop)
    (store : Store) : Prop :=
  ∀ outcome after, x store = some (outcome, after) →
    store.nextLabel ≤ after.nextLabel ∧
      match outcome with
      | .ok value => ∃ b, meant = .ok b ∧ agrees store.nextLabel after.nextLabel value b
      | .error failure => ∃ cause, meant = .error cause ∧ failure.message = cause.message

theorem follows_pure {agrees : Nat → Nat → α → β → Prop} {store : Store} {value : α} {b : β}
    (h : agrees store.nextLabel store.nextLabel value b) :
    Follows (pure value) (.ok b) agrees store := by
  intro outcome after hRun
  cases hRun
  exact ⟨Nat.le_refl _, b, rfl, h⟩

theorem follows_fail (cause : EvaluationError) (agrees : Nat → Nat → α → β → Prop)
    (store : Store) : Follows (fail cause) (.error cause) agrees store := by
  intro outcome after hRun
  rw [fail_apply] at hRun
  cases hRun
  exact ⟨Nat.le_succ _, cause, rfl, rfl⟩

/-- One evaluation after another: the second is looked at in the stores that the first can leave,
together with the labels given out by then. -/
theorem Follows.bind {x : Evaluation α} {meant : Meaning β} {first : Nat → Nat → α → β → Prop}
    {store : Store} (hFirst : Follows x meant first store) {next : α → Evaluation γ}
    {meantNext : β → Meaning δ} {agrees : Nat → Nat → γ → δ → Prop}
    (hNext : ∀ value b middle, store.nextLabel ≤ middle.nextLabel →
      first store.nextLabel middle.nextLabel value b →
      Follows (next value) (meantNext b) (fun _ => agrees store.nextLabel) middle) :
    Follows (x >>= next) (meant >>= meantNext) agrees store := by
  intro outcome after hRun
  rw [bind_apply] at hRun
  cases hx : x store with
  | none => simp [hx] at hRun
  | some answer =>
      obtain ⟨firstOutcome, middle⟩ := answer
      obtain ⟨hLabels, hOutcome⟩ := hFirst firstOutcome middle hx
      rw [hx] at hRun
      cases firstOutcome with
      | ok value =>
          obtain ⟨b, rfl, hAgrees⟩ := hOutcome
          obtain ⟨hMore, hRest⟩ := hNext value b middle hLabels hAgrees outcome after hRun
          exact ⟨Nat.le_trans hLabels hMore, hRest⟩
      | error failure =>
          cases hRun
          obtain ⟨cause, rfl, hMessage⟩ := hOutcome
          exact ⟨hLabels, cause, rfl, hMessage⟩

theorem trace_apply (settings : Settings) (node : Node) (store : Store) :
    ∃ after, trace settings node store = some (.ok (), after) ∧
      after.nextLabel = store.nextLabel := by
  unfold trace
  split
  · exact ⟨_, rfl, rfl⟩
  · exact ⟨store, rfl, rfl⟩

/-- A trace message does not matter. -/
theorem follows_trace {settings : Settings} {node : Node} {x : Evaluation α} {meant : Meaning β}
    {agrees : Nat → Nat → α → β → Prop} {store : Store}
    (h : ∀ traced, traced.nextLabel = store.nextLabel → Follows x meant agrees traced) :
    Follows (do trace settings node; x) meant agrees store := by
  intro outcome after hRun
  obtain ⟨traced, hTrace, hLabel⟩ := trace_apply settings node store
  rw [bind_apply, hTrace] at hRun
  have hFollows := h traced hLabel outcome after hRun
  rw [hLabel] at hFollows
  exact hFollows

/-- A label that is given out belongs to the labels from then on. -/
theorem follows_freshLabel {next : Label → Evaluation α} {meant : Meaning β}
    {agrees : Nat → Nat → α → β → Prop} {store : Store}
    (h : ∀ id after, id.Within store.nextLabel after.nextLabel →
      store.nextLabel ≤ after.nextLabel →
      Follows (next id) meant (fun _ => agrees store.nextLabel) after) :
    Follows (freshLabel >>= next) meant agrees store := by
  intro outcome after hRun
  have hFollows := h (.object store.nextLabel)
    { store with host := { store.host with labels := store.host.labels.takeObject.2 } }
    ⟨_, rfl, Nat.le_refl _, Nat.lt_succ_self _⟩ (Nat.le_succ _) outcome after hRun
  exact ⟨Nat.le_trans (Nat.le_succ _) hFollows.1, hFollows.2⟩

section

variable {low : Nat} {store : Store}

theorem follows_unary (op : UnaryOp) (operand : Value) :
    Follows (unary op operand) (op.meaning operand.bare) (fun _ => Value.Agrees low) store := by
  cases op with
  | not =>
      rw [UnaryOp.meaning, Value.isTruthy_bare]
      exact follows_pure ⟨Value.dataWithin_boolean _, rfl⟩
  | negate =>
      cases operand with
      | integer n => exact follows_pure ⟨Value.dataWithin_integer _, rfl⟩
      | _ => exact follows_fail _ _ _

theorem follows_integerBinary (a : Int64) (op : BinaryOp) (b : Int64) :
    Follows (integerBinary a op b) (op.integerMeaning a b) (fun _ => Value.Agrees low) store := by
  cases op with
  | divide =>
      simp only [integerBinary, BinaryOp.integerMeaning]
      split
      · exact follows_fail _ _ _
      · exact follows_pure ⟨Value.dataWithin_integer _, rfl⟩
  | add | subtract | multiply => exact follows_pure ⟨Value.dataWithin_integer _, rfl⟩
  | _ => exact follows_pure ⟨Value.dataWithin_boolean _, rfl⟩

theorem follows_stringBinary (idA : Label) (a : String) (op : BinaryOp) (idB : Label) (b : String) :
    Follows (stringBinary a op b) (op.meaning (.string idA a) (.string idB b))
      (fun _ => Value.Agrees low) store := by
  cases op with
  | add =>
      refine follows_freshLabel fun id after hId hLabels => ?_
      exact follows_pure ⟨Value.dataWithin_string _ _, rfl⟩
  | _ => exact follows_fail _ _ _

/-- Values that are neither two integers nor two strings can only be told apart. -/
theorem binary_of_other (op : BinaryOp) {left right : Value}
    (hInteger : ¬ (left.typeName = "INTEGER" ∧ right.typeName = "INTEGER"))
    (hString : ¬ (left.typeName = "STRING" ∧ right.typeName = "STRING")) :
    binary left op right =
      if left.typeName = right.typeName then identityBinary left op right
      else fail (.typeMismatch left.typeName op right.typeName) := by
  unfold binary
  split
  · exact absurd ⟨rfl, rfl⟩ hInteger
  · exact absurd ⟨rfl, rfl⟩ hString
  · rfl

theorem follows_binary (op : BinaryOp) {middle : Nat} {left right : Value}
    (hLeft : left.DataWithin low middle) (hRight : right.DataWithin middle store.nextLabel) :
    Follows (binary left op right) (op.meaning left.bare right.bare) (fun _ => Value.Agrees low)
      store := by
  by_cases hInteger : left.typeName = "INTEGER" ∧ right.typeName = "INTEGER"
  · cases left <;> simp [Value.typeName] at hInteger
    cases right <;> simp at hInteger
    exact follows_integerBinary _ op _
  by_cases hString : left.typeName = "STRING" ∧ right.typeName = "STRING"
  · cases left <;> simp [Value.typeName] at hString
    cases right <;> simp at hString
    exact follows_stringBinary _ _ op _ _
  rw [binary_of_other op hInteger hString, BinaryOp.meaning_of_other op
    (by simpa using hInteger) (by simpa using hString), Value.typeName_bare, Value.typeName_bare]
  split
  · rename_i hType
    have hAlike : left.identical right = left.bare.alike right.bare :=
      Value.identical_eq_alike hLeft hRight hType
        (fun h => hInteger ⟨h, hType ▸ h⟩) (fun h => hString ⟨h, hType ▸ h⟩)
    cases op with
    | equal =>
        rw [← hAlike]
        exact follows_pure ⟨Value.dataWithin_boolean _, rfl⟩
    | notEqual =>
        rw [← hAlike]
        exact follows_pure ⟨Value.dataWithin_boolean _, rfl⟩
    | _ => exact follows_fail _ _ _
  · exact follows_fail _ _ _

/-- An array has no element at a negative place. -/
theorem index_array (id : Label) (elements : List Value) (i : Int64) :
    index (.array id elements) (.integer i) =
      pure (if i < 0 then .null else elements[i.toNatClampNeg]?.getD .null) := by
  simp only [index]
  cases hPlace : i.toInt with
  | ofNat place =>
      have hSign : ¬ i < 0 := by
        rw [Int64.lt_iff_toInt_lt, hPlace]
        simp
      have hNat : i.toNatClampNeg = place := by
        simp [Int64.toNatClampNeg, hPlace]
      rw [if_neg hSign, hNat]
  | negSucc place =>
      have hSign : i < 0 := by
        rw [Int64.lt_iff_toInt_lt, hPlace]
        simp
      rw [if_pos hSign]

theorem follows_index {high : Nat} {object : Value} (hObject : object.DataWithin low high)
    (hHigh : high ≤ store.nextLabel) (key : Value) :
    Follows (index object key) (indexMeaning object.bare key.bare) (fun _ => Value.Agrees low)
      store := by
  have hMore : object.DataWithin low store.nextLabel := hObject.mono (Nat.le_refl _) hHigh
  cases object with
  | array id elements =>
      cases key with
      | integer i =>
          rw [index_array]
          simp only [Value.bare, indexMeaning]
          split
          · exact follows_pure ⟨Value.dataWithin_null, rfl⟩
          · rw [bareElements_eq_map, List.getElem?_map, ← Value.bare_getD]
            refine follows_pure ⟨Value.DataWithin.getD fun value hValue => ?_, rfl⟩
            exact hMore.inside value (List.mem_of_getElem? hValue)
      | _ => exact follows_fail _ _ _
  | hash id entries =>
      simp only [index, Value.bare, indexMeaning]
      rw [Value.hashKey?_bare]
      cases hKey : key.hashKey? with
      | some hashKey =>
          simp only
          rw [Entries.find?_bareEntries, ← Value.bare_getD]
          exact follows_pure ⟨hMore.find? hashKey, rfl⟩
      | none =>
          simp only
          rw [Value.typeName_bare]
          exact follows_fail _ _ _
  | _ =>
      simp only [index, Value.bare, indexMeaning]
      exact follows_fail _ _ _

end

section

variable {settings : Settings} {evaluate : Evaluator} {scope : ScopeId}

/-- Expressions come to what they mean if each of them does. -/
theorem follows_expressions {es : List Expr}
    (h : ∀ e ∈ es, ∀ store, Follows (evaluate e scope) e.meaning Value.Agrees store)
    (store : Store) :
    Follows (expressions evaluate scope es) (meanings es) ElementsAgree store := by
  induction es generalizing store with
  | nil => exact follows_pure ⟨by simp, rfl⟩
  | cons e rest ih =>
      rw [expressions, meanings]
      refine (h e List.mem_cons_self store).bind fun value b middle hLabels hValue => ?_
      have hRest := ih (fun e hMem => h e (List.mem_cons_of_mem _ hMem)) middle
      refine hRest.bind fun values bs after hMore hValues => follows_pure ⟨?_, ?_⟩
      · intro other hOther
        rcases List.mem_cons.mp hOther with rfl | hOther
        · exact hValue.1.mono (Nat.le_refl _) hMore
        · exact (hValues.1 other hOther).mono hLabels (Nat.le_refl _)
      · rw [hValue.2, hValues.2, bareElements]

/-- The pairs of a hash literal come to what they mean, on top of any entries that are there. -/
theorem follows_pairs {ps : List (Expr × Expr)} {low : Nat}
    (hKeys : ∀ pair ∈ ps, ∀ store,
      Follows (evaluate pair.1 scope) pair.1.meaning Value.Agrees store)
    (hValues : ∀ pair ∈ ps, ∀ store,
      Follows (evaluate pair.2 scope) pair.2.meaning Value.Agrees store)
    {entries : Entries} {store : Store} (hLow : low ≤ store.nextLabel)
    (hEntries : EntriesAgree low store.nextLabel entries (bareEntries entries)) :
    Follows (pairs evaluate scope ps entries) (pairMeanings ps (bareEntries entries))
      (fun _ => EntriesAgree low) store := by
  induction ps generalizing entries store with
  | nil => exact follows_pure hEntries
  | cons pair rest ih =>
      obtain ⟨keyExpr, valueExpr⟩ := pair
      rw [pairs, pairMeanings]
      refine (hKeys _ List.mem_cons_self store).bind fun keyValue b middle hLabels hKey => ?_
      rw [hKey.2, Value.toKey?_bare]
      cases hToKey : keyValue.toKey? with
      | none =>
          rw [Value.typeName_bare]
          exact follows_fail _ _ _
      | some key =>
          refine (hValues _ List.mem_cons_self middle).bind fun value b after hMore hValue => ?_
          rw [hValue.2, ← Entries.bareEntries_insert]
          refine ih (fun pair hMem => hKeys pair (List.mem_cons_of_mem _ hMem))
            (fun pair hMem => hValues pair (List.mem_cons_of_mem _ hMem)) (by omega)
            ⟨Entries.nodup_insert hEntries.1 key value, fun entry hEntry => ?_, rfl⟩
          rcases Entries.mem_insert hEntry with rfl | hOld
          · exact hValue.1.mono (by omega) (Nat.le_refl _)
          · exact (hEntries.2.1 entry hOld).mono (Nat.le_refl _) (by omega)

/-- A block of one expression comes to what the expression comes to. -/
theorem follows_block {e : Expr}
    (h : ∀ store, Follows (evaluate e scope) e.meaning Value.Agrees store) (low : Nat)
    {store : Store} (hLow : low ≤ store.nextLabel) :
    Follows (block settings evaluate [.expression e] scope) e.meaning (fun _ => Value.Agrees low)
      store := by
  refine follows_trace fun traced hTraced => ?_
  have hStatement : Follows (statement settings evaluate (.expression e) scope) e.meaning
      Value.Agrees traced := follows_trace fun again _ => h again
  rw [statements, ← bind_pure e.meaning]
  refine hStatement.bind fun value b after hLabels hValue => ?_
  have hWithin : value.DataWithin low after.nextLabel :=
    hValue.1.mono (by omega) (Nat.le_refl _)
  have hAgrees : Follows (statements settings evaluate scope [] value) (pure b)
      (fun _ => Value.Agrees low) after := follows_pure ⟨hWithin, hValue.2⟩
  cases value with
  | returning value => cases hWithin.here
  | _ => exact hAgrees

end

/-- A plain expression comes to what it means, with values made of new labels. -/
theorem follows_expression {e : Expr} (h : e.Plain) (settings : Settings) (steps : Nat)
    (scope : ScopeId) (store : Store) :
    Follows (expression settings steps e scope) e.meaning Value.Agrees store := by
  induction steps generalizing e store with
  | zero => exact fun outcome after hRun => nomatch hRun
  | succ steps ih =>
      refine follows_trace fun traced hTraced => ?_
      cases h with
      | integer n => exact follows_pure ⟨Value.dataWithin_integer n, rfl⟩
      | boolean b => exact follows_pure ⟨Value.dataWithin_boolean b, rfl⟩
      | string text =>
          refine follows_freshLabel fun id after hId hLabels => ?_
          exact follows_pure ⟨Value.dataWithin_string id text, rfl⟩
      | unary op hOperand =>
          rw [Expr.meaning]
          refine (ih hOperand traced).bind fun value b middle hLabels hValue => ?_
          rw [hValue.2]
          exact follows_unary op value
      | binary op hLeft hRight =>
          rw [Expr.meaning]
          refine (ih hLeft traced).bind fun left b middle hLabels hLeftValue => ?_
          refine (ih hRight middle).bind fun right b after hMore hRightValue => ?_
          rw [hLeftValue.2, hRightValue.2]
          exact follows_binary op hLeftValue.1 hRightValue.1
      | conditional hCondition hConsequence =>
          rw [Expr.meaning]
          refine (ih hCondition traced).bind fun value b middle hLabels hValue => ?_
          rw [hValue.2, Value.isTruthy_bare]
          split
          · exact follows_block (ih hConsequence) _ hLabels
          · exact follows_pure ⟨Value.dataWithin_null, rfl⟩
      | conditionalElse hCondition hConsequence hAlternative =>
          rw [Expr.meaning]
          refine (ih hCondition traced).bind fun value b middle hLabels hValue => ?_
          rw [hValue.2, Value.isTruthy_bare]
          split
          · exact follows_block (ih hConsequence) _ hLabels
          · exact follows_block (ih hAlternative) _ hLabels
      | array hElements =>
          rw [Expr.meaning]
          refine (follows_expressions (fun e hMem => ih (hElements e hMem)) traced).bind
            fun values bs middle hLabels hValues => ?_
          refine follows_freshLabel fun id after hId hMore => follows_pure ⟨?_, ?_⟩
          · refine Value.dataWithin_array ?_ fun value hValue =>
              (hValues.1 value hValue).mono (Nat.le_refl _) hMore
            exact hId.mono hLabels (Nat.le_refl _)
          · rw [hValues.2, Value.bare]
      | index hObject hKey =>
          rw [Expr.meaning]
          refine (ih hObject traced).bind fun object b middle hLabels hObjectValue => ?_
          refine (ih hKey middle).bind fun key b after hMore hKeyValue => ?_
          rw [hObjectValue.2, hKeyValue.2]
          exact follows_index hObjectValue.1 hMore key
      | hash hKeys hValues =>
          rw [Expr.meaning]
          have hNone : EntriesAgree traced.nextLabel traced.nextLabel [] (bareEntries []) :=
            ⟨List.nodup_nil, by simp, rfl⟩
          refine (follows_pairs (fun pair hMem => ih (hKeys pair hMem))
            (fun pair hMem => ih (hValues pair hMem)) (Nat.le_refl _) hNone).bind
            fun entries bs middle hLabels hEntries => ?_
          refine follows_freshLabel fun id after hId hMore => follows_pure ⟨?_, ?_⟩
          · refine Value.dataWithin_hash ?_ hEntries.1 fun entry hEntry =>
              (hEntries.2.1 entry hEntry).mono (Nat.le_refl _) hMore
            exact hId.mono hLabels (Nat.le_refl _)
          · rw [hEntries.2.2, Value.bare]

def Ends (x : Evaluation α) : Prop := ∀ store, (x store).isSome

theorem ends_pure (value : α) : Ends (pure value) := fun _ => rfl

theorem ends_fail (cause : EvaluationError) : Ends (fail cause : Evaluation α) := fun _ => rfl

theorem Ends.bind {x : Evaluation α} (hFirst : Ends x) {next : α → Evaluation β}
    (hNext : ∀ value, Ends (next value)) : Ends (x >>= next) := by
  intro store
  rw [bind_apply]
  obtain ⟨⟨outcome, middle⟩, hx⟩ := Option.isSome_iff_exists.mp (hFirst store)
  rw [hx]
  cases outcome with
  | ok value => exact hNext value middle
  | error failure => rfl

theorem ends_trace (settings : Settings) (node : Node) : Ends (trace settings node) := by
  intro store
  obtain ⟨after, hTrace, _⟩ := trace_apply settings node store
  rw [hTrace]
  rfl

theorem ends_freshLabel : Ends freshLabel := fun _ => rfl

theorem ends_unary (op : UnaryOp) (operand : Value) : Ends (unary op operand) := by
  unfold unary
  split
  · exact ends_pure _
  · exact ends_pure _
  · exact ends_fail _

theorem ends_binary (left : Value) (op : BinaryOp) (right : Value) :
    Ends (binary left op right) := by
  unfold binary
  split
  · cases op with
    | divide =>
        simp only [integerBinary]
        split
        · exact ends_fail _
        · exact ends_pure _
    | _ => exact ends_pure _
  · cases op with
    | add => exact ends_freshLabel.bind fun _ => ends_pure _
    | _ => exact ends_fail _
  · split
    · cases op with
      | equal => exact ends_pure _
      | notEqual => exact ends_pure _
      | _ => exact ends_fail _
    · exact ends_fail _

theorem ends_index (object key : Value) : Ends (index object key) := by
  unfold index
  split
  · split
    · exact ends_pure _
    · exact ends_pure _
  · split
    · exact ends_pure _
    · exact ends_fail _
  · exact ends_fail _

section

variable {settings : Settings} {evaluate : Evaluator} {scope : ScopeId}

theorem ends_expressions {es : List Expr} (h : ∀ e ∈ es, Ends (evaluate e scope)) :
    Ends (expressions evaluate scope es) := by
  induction es with
  | nil => exact ends_pure _
  | cons e rest ih =>
      have hRest := ih fun e hMem => h e (List.mem_cons_of_mem _ hMem)
      exact (h e List.mem_cons_self).bind fun value => hRest.bind fun values => ends_pure _

theorem ends_pairs {ps : List (Expr × Expr)} (hKeys : ∀ pair ∈ ps, Ends (evaluate pair.1 scope))
    (hValues : ∀ pair ∈ ps, Ends (evaluate pair.2 scope)) (entries : Entries) :
    Ends (pairs evaluate scope ps entries) := by
  induction ps generalizing entries with
  | nil => exact ends_pure _
  | cons pair rest ih =>
      rw [pairs]
      refine (hKeys _ List.mem_cons_self).bind fun keyValue => ?_
      cases keyValue.toKey? with
      | none => exact ends_fail _
      | some key =>
          refine (hValues _ List.mem_cons_self).bind fun value => ?_
          exact ih (fun pair hMem => hKeys pair (List.mem_cons_of_mem _ hMem))
            (fun pair hMem => hValues pair (List.mem_cons_of_mem _ hMem)) _

theorem ends_block {e : Expr} (h : Ends (evaluate e scope)) :
    Ends (block settings evaluate [.expression e] scope) := by
  refine (ends_trace _ _).bind fun _ => ?_
  refine ((ends_trace _ _).bind fun _ => h).bind fun value => ?_
  cases value <;> exact ends_pure _

end

/-- A plain expression needs no more steps than it is large. -/
theorem ends_expression {e : Expr} (h : e.Plain) (settings : Settings) {steps : Nat}
    (hSteps : sizeOf e ≤ steps) (scope : ScopeId) : Ends (expression settings steps e scope) := by
  induction steps generalizing e with
  | zero => cases h <;> simp at hSteps
  | succ steps ih =>
      refine (ends_trace _ _).bind fun _ => ?_
      cases h with
      | integer n => exact ends_pure _
      | boolean b => exact ends_pure _
      | string text => exact ends_freshLabel.bind fun _ => ends_pure _
      | unary op hOperand =>
          simp only [Expr.unary.sizeOf_spec] at hSteps
          exact (ih hOperand (by omega)).bind fun value => ends_unary op value
      | binary op hLeft hRight =>
          simp only [Expr.binary.sizeOf_spec] at hSteps
          refine (ih hLeft (by omega)).bind fun left => ?_
          exact (ih hRight (by omega)).bind fun right => ends_binary left op right
      | conditional hCondition hConsequence =>
          simp only [Expr.conditional.sizeOf_spec, List.cons.sizeOf_spec,
            Stmt.expression.sizeOf_spec] at hSteps
          refine (ih hCondition (by omega)).bind fun value => ?_
          split
          · exact ends_block (ih hConsequence (by omega))
          · exact ends_pure _
      | conditionalElse hCondition hConsequence hAlternative =>
          simp only [Expr.conditional.sizeOf_spec, List.cons.sizeOf_spec,
            Stmt.expression.sizeOf_spec, Option.some.sizeOf_spec] at hSteps
          refine (ih hCondition (by omega)).bind fun value => ?_
          split
          · exact ends_block (ih hConsequence (by omega))
          · exact ends_block (ih hAlternative (by omega))
      | array hElements =>
          simp only [Expr.array.sizeOf_spec] at hSteps
          refine (ends_expressions fun e hMem => ih (hElements e hMem) ?_).bind fun values =>
            ends_freshLabel.bind fun _ => ends_pure _
          have hSize := List.sizeOf_lt_of_mem hMem
          omega
      | index hObject hKey =>
          simp only [Expr.index.sizeOf_spec] at hSteps
          refine (ih hObject (by omega)).bind fun object => ?_
          exact (ih hKey (by omega)).bind fun key => ends_index object key
      | @hash pairs hKeys hValues =>
          simp only [Expr.hash.sizeOf_spec] at hSteps
          have hPair (pair : Expr × Expr) (hMem : pair ∈ pairs) :
              sizeOf pair.1 ≤ steps ∧ sizeOf pair.2 ≤ steps := by
            have hSize := List.sizeOf_lt_of_mem hMem
            obtain ⟨key, value⟩ := pair
            simp only [Prod.mk.sizeOf_spec] at hSize ⊢
            omega
          refine (ends_pairs (fun pair hMem => ih (hKeys pair hMem) (hPair pair hMem).1)
            (fun pair hMem => ih (hValues pair hMem) (hPair pair hMem).2) []).bind fun entries =>
            ends_freshLabel.bind fun _ => ends_pure _

end Evaluation

end Tandem
