import Tandem.Evaluation
import Tandem.Proofs.Translation.Execution
import Tandem.Proofs.Value.LastWrite
/-!
Hash literals in both engines. The evaluator goes through pairs of expressions, the machine through
slots in which keys and values alternate; both store the pairs that they find one after the other,
so they come to the same hash, or are stopped by the same key.
-/
namespace Tandem

namespace Entries

def asValues (pairs : List (Key × Value)) : List (Value × Value) :=
  pairs.map fun pair => (pair.1.toValue, pair.2)

end Entries

open Entries (asValues insertAll lastPair?)

/-- Pairs of values are pairs with keys that can be used, up to the first one with a key that
cannot. -/
theorem asValues_or_unusable (values : List (Value × Value)) :
    (∃ pairs, values = asValues pairs) ∨
      ∃ pairs key value rest, values = asValues pairs ++ (key, value) :: rest ∧
        key.toKey? = none := by
  induction values with
  | nil => exact Or.inl ⟨[], rfl⟩
  | cons pair values ih =>
      obtain ⟨keyValue, value⟩ := pair
      cases hKey : keyValue.toKey? with
      | none => exact Or.inr ⟨[], keyValue, value, values, rfl, hKey⟩
      | some key =>
          have hValue := Value.toValue_of_toKey? hKey
          rcases ih with ⟨pairs, rfl⟩ | ⟨pairs, bad, other, rest, rfl, hBad⟩
          · exact Or.inl ⟨(key, value) :: pairs, by simp [asValues, hValue]⟩
          · exact Or.inr ⟨(key, value) :: pairs, bad, other, rest, by simp [asValues, hValue], hBad⟩

/-- The keys and values as they lie on the stack, each key below its value. -/
def inTurn (values : List (Value × Value)) : List Value :=
  values.flatMap fun pair => [pair.1, pair.2]

theorem length_inTurn (values : List (Value × Value)) :
    (inTurn values).length = 2 * values.length := by
  induction values with
  | nil => rfl
  | cons pair rest ih =>
      simp only [inTurn, List.flatMap_cons, List.length_append, List.length_cons,
        List.length_nil] at ih ⊢
      omega

/-- Where keys can be used, values are collected by storing the pairs. -/
theorem collectValues_asValues (pairs : List (Key × Value)) (rest : List (Value × Value))
    (entries : Entries) :
    collectValues (inTurn (asValues pairs ++ rest)) entries =
      collectValues (inTurn rest) (insertAll pairs entries) := by
  induction pairs generalizing entries with
  | nil => rfl
  | cons pair pairs ih =>
      simp only [asValues, inTurn, List.map_cons, List.cons_append, List.flatMap_cons,
        List.nil_append, collectValues, Value.toKey?_toValue] at ih ⊢
      exact ih _

namespace Evaluation

/-- Evaluated one after the other, each key before its value, the expressions of a hash literal come
to the given keys and values. -/
inductive Yields (evaluate : Evaluator) (scope : ScopeId) :
    List (Expr × Expr) → List (Value × Value) → Store → Store → Prop where
  | nil (store : Store) : Yields evaluate scope [] [] store store
  | cons {keyExpr valueExpr : Expr} {literal : List (Expr × Expr)} {key value : Value}
      {values : List (Value × Value)} {store middle later after : Store}
      (hKey : evaluate keyExpr scope store = some (.ok key, middle))
      (hValue : evaluate valueExpr scope middle = some (.ok value, later))
      (hRest : Yields evaluate scope literal values later after) :
      Yields evaluate scope ((keyExpr, valueExpr) :: literal) ((key, value) :: values) store after

variable {evaluate : Evaluator} {scope : ScopeId} {literal rest : List (Expr × Expr)}
  {store middle after : Store}

/-- Where keys can be used, the pairs of a literal are stored one after the other. -/
theorem pairs_of_yields {ps : List (Key × Value)}
    (h : Yields evaluate scope literal (asValues ps) store middle) (entries : Entries) :
    pairs evaluate scope (literal ++ rest) entries store =
      pairs evaluate scope rest (insertAll ps entries) middle := by
  induction ps generalizing literal store entries with
  | nil =>
      cases h
      rfl
  | cons pair ps ih =>
      cases h with
      | cons hKey hValue hRest =>
          rw [List.cons_append, pairs, bind_apply, hKey]
          simp only [Value.toKey?_toValue]
          rw [bind_apply, hValue]
          exact ih hRest _

/-- A key that cannot be used ends the literal before its value is evaluated. -/
theorem pairs_of_unusable {keyExpr : Expr} {key : Value}
    (h : evaluate keyExpr scope store = some (.ok key, after)) (hKey : key.toKey? = none)
    (valueExpr : Expr) (rest : List (Expr × Expr)) (entries : Entries) :
    pairs evaluate scope ((keyExpr, valueExpr) :: rest) entries store =
      (fail (.unusableKey key.typeName) : Evaluation Entries) after := by
  rw [pairs, bind_apply, h]
  simp only [hKey]

/-- A hash literal is evaluated by going through its pairs. -/
theorem expression_hash {settings : Settings} {traced : Store}
    (hTrace : trace settings (.expression (.hash literal)) store = some (.ok (), traced))
    (steps : Nat) :
    expression settings (steps + 1) (.hash literal) scope store =
      (do
        let entries ← pairs (expression settings steps) scope literal []
        return .hash (← freshLabel) entries : Evaluation Value) traced := by
  rw [expression, expressionWith, bind_apply, hTrace]

theorem index_hash {entries : Entries} {key : Value} {hashKey : HashKey}
    (hKey : key.hashKey? = some hashKey) (id : Label) (store : Store) :
    index (.hash id entries) key store =
      some (.ok ((entries.find? hashKey).getD .null), store) := by
  simp [index, hKey]

/-- A hash literal whose expressions come to the pairs comes to the entries. -/
def MakesHash (settings : Settings) (ps : List (Key × Value)) (entries : Entries) : Prop :=
  ∀ steps scope literal store traced after,
    trace settings (.expression (.hash literal)) store = some (.ok (), traced) →
    Yields (expression settings steps) scope literal (asValues ps) traced after →
    ∃ id final, expression settings (steps + 1) (.hash literal) scope store =
      some (.ok (.hash id entries), final)

theorem makesHash_ofPairs (settings : Settings) (ps : List (Key × Value)) :
    MakesHash settings ps (Entries.ofPairs ps) := by
  intro steps scope literal store traced after hTrace hYields
  have hPairs : pairs (expression settings steps) scope (literal ++ []) [] traced = _ :=
    pairs_of_yields hYields []
  rw [List.append_nil] at hPairs
  rw [expression_hash hTrace, bind_apply, hPairs]
  exact ⟨_, _, rfl⟩

/-- A hash literal whose expressions come to the pairs and then to a key ends with that key as the
cause. What stands behind the key is not evaluated. -/
def RefusesKey (settings : Settings) (ps : List (Key × Value)) (key : Value) : Prop :=
  ∀ steps scope literal keyExpr valueExpr others store traced middle after,
    trace settings (.expression (.hash (literal ++ (keyExpr, valueExpr) :: others))) store =
      some (.ok (), traced) →
    Yields (expression settings steps) scope literal (asValues ps) traced middle →
    expression settings steps keyExpr scope middle = some (.ok key, after) →
    ∃ failure final, failure.message = "unusable as hash key: " ++ key.typeName ∧
      expression settings (steps + 1) (.hash (literal ++ (keyExpr, valueExpr) :: others)) scope
        store = some (.error failure, final)

theorem refusesKey_of_unusable {key : Value} (hKey : key.toKey? = none) (settings : Settings)
    (ps : List (Key × Value)) : RefusesKey settings ps key := by
  intro steps scope literal keyExpr valueExpr others store traced middle after hTrace hYields hEval
  rw [expression_hash hTrace, bind_apply, pairs_of_yields hYields, pairs_of_unusable hEval hKey]
  exact ⟨_, _, rfl, rfl⟩

end Evaluation

namespace Machine

variable {m : Machine}

theorem step_index_hash (settings : Settings) (hNext : m.next? = some .index) {id : Label}
    {entries : Entries} {key : Value} (hOffers : m.Offers [.hash id entries, key])
    {hashKey : HashKey} (hKey : key.hashKey? = some hashKey) :
    (m.fetched settings .index).Answered [.hash id entries, key]
      (fun _ value => value = (entries.find? hashKey).getD .null) False
      (Execution.step settings m) := by
  have hFetched := hOffers.fetched settings .index
  have hIndex : Execution.index (m.fetched settings .index) =
      Execution.push ((entries.find? hashKey).getD .null)
        { m.fetched settings .index with sp := m.sp - 2 } := by
    unfold Execution.index
    rw [Execution.popOperands_bind hFetched]
    simp [hKey]
  rw [Execution.step_of_next? hNext, Execution.execute, hIndex]
  exact Execution.answered_push hFetched (Nat.le_refl _) rfl

/-- A machine that makes a hash of the pairs on its stack makes the entries. -/
def MakesHash (settings : Settings) (ps : List (Key × Value)) (entries : Entries) : Prop :=
  ∀ m : Machine, m.next? = some (.hash (2 * ps.length)) → m.Offers (inTurn (asValues ps)) →
    (m.fetched settings (.hash (2 * ps.length))).Answered (inTurn (asValues ps))
      (fun _ value => ∃ id, value = .hash id entries) False (Execution.step settings m)

theorem makesHash_ofPairs (settings : Settings) (ps : List (Key × Value)) :
    MakesHash settings ps (Entries.ofPairs ps) := by
  intro m hNext hOffers
  have hFetched := hOffers.fetched settings (.hash (2 * ps.length))
  have hLength : (inTurn (asValues ps)).length = 2 * ps.length := by
    rw [length_inTurn, asValues, List.length_map]
  have hCollected : collectValues (inTurn (asValues ps)) [] = .ok (Entries.ofPairs ps) := by
    have hAll := collectValues_asValues ps [] []
    rwa [List.append_nil] at hAll
  rw [Execution.step_of_next? hNext, Execution.execute,
    Execution.hash_of_offers hFetched hLength, hCollected]
  exact Execution.answered_push hFetched (Nat.le_succ _) ⟨_, rfl⟩

/-- A machine that makes a hash of values among which the pairs are followed by a key stops with
that key as the cause, and its stack is as it was. -/
def RefusesKey (settings : Settings) (ps : List (Key × Value)) (key : Value) : Prop :=
  ∀ (m : Machine) (value : Value) (rest : List (Value × Value)),
    m.next? = some (.hash (2 * (ps.length + 1 + rest.length))) →
    m.Offers (inTurn (asValues ps ++ (key, value) :: rest)) →
    ∃ cause stopped, cause.message = "unusable as hash key: " ++ key.typeName ∧
      Execution.step settings m = (.error (.error cause), stopped) ∧
      stopped.sp = m.sp ∧ stopped.stack = m.stack

theorem refusesKey_of_unusable {key : Value} (hKey : key.toKey? = none) (settings : Settings)
    (ps : List (Key × Value)) : RefusesKey settings ps key := by
  intro m value rest hNext hOffers
  have hFetched := hOffers.fetched settings (.hash (2 * (ps.length + 1 + rest.length)))
  have hLength : (inTurn (asValues ps ++ (key, value) :: rest)).length =
      2 * (ps.length + 1 + rest.length) := by
    rw [length_inTurn, asValues, List.length_append, List.length_map, List.length_cons]
    omega
  have hCollected : collectValues (inTurn (asValues ps ++ (key, value) :: rest)) [] =
      .error (.unusableKey key.typeName) := by
    rw [collectValues_asValues]
    simp [inTurn, collectValues, hKey]
  have hStep : Execution.step settings m = (.error (.error (.unusableKey key.typeName)),
      m.fetched settings (.hash (2 * (ps.length + 1 + rest.length)))) := by
    rw [Execution.step_of_next? hNext, Execution.execute,
      Execution.hash_of_offers hFetched hLength, hCollected]
  exact ⟨_, _, rfl, hStep, rfl, rfl⟩

end Machine

/-- Hashes keep the last value written under each key, in the order in which the keys first came up,
and both engines make the same hash of the same keys and values. A value is found under what the key
that is shown with it converts to, and under nothing else. On either engine, what is found
under a key is the value of the last pair with that key, or null. The first key that cannot be used
ends the evaluation and the run with the same text, and the machine has taken nothing off the stack
by then. -/
theorem hashes_keep_last_writes (settings : Settings) :
    (∀ values : List (Value × Value), (∃ pairs, values = asValues pairs) ∨
      ∃ pairs key value rest, values = asValues pairs ++ (key, value) :: rest ∧
        key.toKey? = none) ∧
    (∀ pairs : List (Key × Value), ∃ entries : Entries,
      entries.LastWrites pairs ∧
      Evaluation.MakesHash settings pairs entries ∧ Machine.MakesHash settings pairs entries ∧
      (∀ entry ∈ entries, ∃ hashKey, entry.1.toValue.hashKey? = some hashKey ∧
        entries.find? hashKey = some entry.2) ∧
      (∀ hashKey value, entries.find? hashKey = some value →
        ∃ key, (key, value) ∈ entries ∧ key.toValue.hashKey? = some hashKey) ∧
      ∀ id key hashKey, key.hashKey? = some hashKey →
        (∀ store, Evaluation.index (.hash id entries) key store =
          some (.ok (((lastPair? hashKey pairs).map Prod.snd).getD .null), store)) ∧
        ∀ m : Machine, m.next? = some .index → m.Offers [.hash id entries, key] →
          (m.fetched settings .index).Answered [.hash id entries, key]
            (fun _ value => value = ((lastPair? hashKey pairs).map Prod.snd).getD .null) False
            (Execution.step settings m)) ∧
    (∀ key other : Value, key.typeName ≠ other.typeName →
      ∀ hashKey, key.hashKey? = some hashKey → other.hashKey? ≠ some hashKey) ∧
    ∀ (pairs : List (Key × Value)) (key : Value), key.toKey? = none →
      Evaluation.RefusesKey settings pairs key ∧ Machine.RefusesKey settings pairs key := by
  refine ⟨asValues_or_unusable, fun pairs => ?_,
    fun key other hType hashKey hKey hOther => hType ?_, fun pairs key hKey => ?_⟩
  · have hLast := Entries.lastWrites_ofPairs pairs
    refine ⟨_, hLast, Evaluation.makesHash_ofPairs settings pairs,
      Machine.makesHash_ofPairs settings pairs, fun entry hEntry => ?_,
      fun hashKey value hFind => ?_, ?_⟩
    · exact ⟨_, Value.hashKey?_toValue entry.1, Entries.find?_of_mem hLast.once hEntry⟩
    · obtain ⟨entry, hEntry, rfl, rfl⟩ := Entries.exists_entry_of_find? hFind
      exact ⟨entry.1, hEntry, Value.hashKey?_toValue entry.1⟩
    · intro id key hashKey hKey
      rw [← hLast.find?_eq hashKey]
      exact ⟨Evaluation.index_hash hKey id,
        fun m hNext hOffers => Machine.step_index_hash settings hNext hOffers hKey⟩
  · rw [Value.typeName_of_hashKey? hKey, Value.typeName_of_hashKey? hOther]
  · exact ⟨Evaluation.refusesKey_of_unusable hKey settings pairs,
      Machine.refusesKey_of_unusable hKey settings pairs⟩

/-- Three pairs of which the first and the last have the same key, with different identities. -/
def rewrittenPairs : List (Key × Value) :=
  [(.string (.object 0) "a", .integer 1), (.boolean true, .integer 2),
    (.string (.object 1) "a", .integer 3)]

def rewritingLiteral : List (Expr × Expr) :=
  [(.string "a", .integer 1), (.boolean true, .integer 2), (.string "a", .integer 3)]

/-- Both engines make one entry of the two pairs with the key `a`, in the first place and with the
last value. An array in the place of the second key is refused by both. -/
theorem rewritingLiteral_keeps_last_writes :
    (∃ entries : Entries, entries.hashKeys = [.string "a", .boolean true] ∧
      (∃ id final, Evaluation.expression {} 2 (.hash rewritingLiteral) 0 {} =
        some (.ok (.hash id entries), final)) ∧
      (∃ id host, (Execution.step {}
          (Machine.offering (inTurn (asValues rewrittenPairs)) .hash [6])) =
        (.ok (), { Machine.offering (inTurn (asValues rewrittenPairs)) .hash [6] with
          stack := (Slots.ofList stackSize (inTurn (asValues rewrittenPairs))).write 0
            (.hash id entries)
          sp := 1
          frame := { (Machine.offering [] .hash [6]).frame with cursor := 3 }
          host := host })) ∧
      ∀ id, Evaluation.index (.hash id entries) (.string (.object 7) "a") {} =
        some (.ok (.integer 3), {})) ∧
    Value.hashKey? (.string (.object 0) "1") ≠ some (.integer 1) ∧
    (∃ failure final, failure.message = "unusable as hash key: ARRAY" ∧
      Evaluation.expression {} 2 (.hash [(.string "a", .integer 1), (.array [], .integer 2)]) 0 {} =
        some (.error failure, final)) ∧
    ∃ cause stopped, cause.message = "unusable as hash key: ARRAY" ∧
      Execution.step {} (Machine.offering
        (inTurn (asValues [(.string (.object 0) "a", .integer 1)] ++
          [(.array (.object 1) [], .integer 2)])) .hash [4]) = (.error (.error cause), stopped) ∧
      stopped.sp = 4 := by
  obtain ⟨_, hMakes, hTypes, hRefuses⟩ := hashes_keep_last_writes {}
  obtain ⟨entries, hLast, hEvaluation, hMachine, _, _, hIndex⟩ := hMakes rewrittenPairs
  obtain ⟨hRefused, hStopped⟩ := hRefuses [(.string (.object 0) "a", .integer 1)]
    (.array (.object 1) []) rfl
  refine ⟨⟨entries, hLast.order.trans (by decide), ?_, ?_, fun id => ?_⟩, ?_, ?_, ?_⟩
  · exact hEvaluation 1 0 rewritingLiteral {} {} _ rfl
      (.cons rfl rfl (.cons rfl rfl (.cons rfl rfl (.nil _))))
  · rcases hMachine _ rfl (Machine.offers_offering _ .hash [6]) with
      ⟨_, host, hStep, _, id, rfl⟩ | ⟨hFalse, _⟩
    · exact ⟨id, host, hStep⟩
    · exact hFalse.elim
  · exact (hIndex id (.string (.object 7) "a") (.string "a") rfl).1 {}
  · exact hTypes (.integer 1) (.string (.object 0) "1") (by decide) _ rfl
  · exact hRefused 1 0 [(.string "a", .integer 1)] (.array []) (.integer 2) [] {} {} _ _ rfl
      (.cons rfl rfl (.nil _)) rfl
  · obtain ⟨cause, stopped, hMessage, hStep, hSp, _⟩ :=
      hStopped _ (.integer 2) [] rfl (Machine.offers_offering _ .hash [4])
    exact ⟨cause, stopped, hMessage, hStep, hSp⟩

end Tandem
