import Tandem.Proofs.Evaluation.SideBySide
import Tandem.Proofs.Scopes.History
/-!
How scopes grow in the course of evaluation. Scopes are opened inside open ones, and what is bound in
them are values whose functions were written in open scopes. No scope is ever closed, so what is said
of a value once can still be said of it after further evaluations. A property of scopes that outlasts
such changes holds at every point of an evaluation, not only at its end: the evaluation can be
stopped wherever an expression is to be evaluated and the property fails, and still comes out the
same.
-/
namespace Tandem

/-- Functions have to be written in open scopes, and that is all that is asked of values. -/
theorem dataLaw_capturesBelow (opened : Nat) :
    DataLaw false (· < opened) (Value.WrittenIn (· < opened)) where
  data := by
    rintro _ hData id parameters body scope rfl
    cases hData
  function := by
    intro id parameters body scope
    rw [Value.writtenIn_function]
    exact ⟨fun h => ⟨h, nofun⟩, And.left⟩
  returning := by
    rintro _ value id parameters body scope ⟨⟩

/-- A property of scopes that lasts when a scope is opened inside an open one, and when something is
bound in an open scope of which all functions were written in open scopes. It ensures that nothing
else is bound. -/
structure GrowthLaw (holds : Scopes → Prop) : Prop where
  openScope : ∀ {scopes outer}, holds scopes → outer < scopes.all.size →
    holds (scopes.openScope (some outer)).2
  bind : ∀ {scopes id value}, holds scopes → id < scopes.all.size →
    value.CapturesBelow scopes.all.size → ∀ name, holds (scopes.bind name value id)
  bound : ∀ {scopes name id value}, holds scopes → scopes.bound? name id = some value →
    value.CapturesBelow scopes.all.size

namespace Evaluation

variable {α β : Type} {holds : Scopes → Prop}

/-- What may be left of an evaluation: the property holds, no fewer scopes are open than were known
before, and the result is as it should be for as many scopes as are open by then. -/
inductive Grown (holds : Scopes → Prop) (known : Nat) (results : Nat → α → Prop) :
    Option (Except Failure α × Store) → Prop where
  | unfinished : Grown holds known results none
  | value {value : α} {after : Store} (hHolds : holds after.scopes)
      (hKnown : known ≤ after.scopes.all.size) (hResult : results after.scopes.all.size value) :
      Grown holds known results (some (.ok value, after))
  | failure {failure : Failure} {after : Store} (hHolds : holds after.scopes)
      (hKnown : known ≤ after.scopes.all.size) :
      Grown holds known results (some (.error failure, after))

/-- From scopes that have the property, and of which so many are open, both evaluations come out the
same, and the scopes have grown in keeping with the property. -/
def Grows (holds : Scopes → Prop) (known : Nat) (results : Nat → α → Prop)
    (x y : Evaluation α) : Prop :=
  ∀ store, holds store.scopes → known ≤ store.scopes.all.size →
    y store = x store ∧ Grown holds store.scopes.all.size results (x store)

/-- Scopes are never closed, so it does no harm to know of fewer. -/
theorem Grown.of_le {less known : Nat} {results : Nat → α → Prop}
    {answer : Option (Except Failure α × Store)} (h : Grown holds known results answer)
    (hLess : less ≤ known) : Grown holds less results answer := by
  cases h with
  | unfinished => exact Grown.unfinished
  | value hHolds hKnown hResult =>
      exact Grown.value hHolds (Nat.le_trans hLess hKnown) hResult
  | failure hHolds hKnown => exact Grown.failure hHolds (Nat.le_trans hLess hKnown)

section

variable {known : Nat} {results : Nat → α → Prop} {x y : Evaluation α}

theorem grows_pure {value : α} (hResult : ∀ opened, known ≤ opened → results opened value) :
    Grows holds known results (pure value) (pure value) :=
  fun _ hHolds hKnown => ⟨rfl, Grown.value hHolds (Nat.le_refl _) (hResult _ hKnown)⟩

/-- The second evaluation knows of all scopes that are open after the first. -/
theorem Grows.bind {final : Nat → β → Prop} {next other : α → Evaluation β}
    (hFirst : Grows holds known results x y)
    (hNext : ∀ opened value, known ≤ opened → results opened value →
      Grows holds opened final (next value) (other value)) :
    Grows holds known final (x >>= next) (y >>= other) := by
  intro store hHolds hKnown
  obtain ⟨hSame, hGrown⟩ := hFirst store hHolds hKnown
  rw [bind_apply, bind_apply, hSame]
  generalize x store = answer at hGrown
  cases hGrown with
  | unfinished => exact ⟨rfl, Grown.unfinished⟩
  | value hMiddle hMore hResult =>
      obtain ⟨hRest, hFinal⟩ :=
        hNext _ _ (Nat.le_trans hKnown hMore) hResult _ hMiddle (Nat.le_refl _)
      exact ⟨hRest, hFinal.of_le hMore⟩
  | failure hMiddle hMore => exact ⟨rfl, Grown.failure hMiddle hMore⟩

theorem Grows.mono {weaker : Nat → α → Prop} (h : Grows holds known results x y)
    (hWeaker : ∀ opened value, results opened value → weaker opened value) :
    Grows holds known weaker x y := by
  intro store hHolds hKnown
  obtain ⟨hSame, hGrown⟩ := h store hHolds hKnown
  refine ⟨hSame, ?_⟩
  generalize x store = answer at hGrown
  cases hGrown with
  | unfinished => exact Grown.unfinished
  | value hAfter hMore hResult => exact Grown.value hAfter hMore (hWeaker _ _ hResult)
  | failure hAfter hMore => exact Grown.failure hAfter hMore

/-- What is done with the host has nothing to do with scopes. -/
theorem grows_onHost {action : StateM Host α}
    (hResult : ∀ opened host, known ≤ opened → results opened (action.run host).1) :
    Grows holds known results (onHost action) (onHost action) :=
  fun store hHolds hKnown =>
    ⟨rfl, Grown.value hHolds (Nat.le_refl _) (hResult _ store.host hKnown)⟩

theorem grows_freshLabel : Grows holds known (fun _ _ => True) freshLabel freshLabel :=
  grows_onHost fun _ _ _ => trivial

theorem grows_fail (cause : EvaluationError) :
    Grows holds known results (fail cause) (fail cause) :=
  fun _ hHolds _ => ⟨rfl, Grown.failure hHolds (Nat.le_refl _)⟩

theorem grows_trace (settings : Settings) (node : Node) :
    Grows holds known (fun _ _ => True) (trace settings node) (trace settings node) := by
  unfold trace
  split
  · exact grows_onHost fun _ _ _ => trivial
  · exact grows_pure fun _ _ => trivial

/-- What comes out of a check is no error value. -/
theorem grows_check {results : Nat → Value → Prop} {value : Value}
    (hResult : value.isError = false → ∀ opened, known ≤ opened → results opened value) :
    Grows holds known results (check value) (check value) := by
  cases value with
  | error id message => exact fun _ hHolds _ => ⟨rfl, Grown.failure hHolds (Nat.le_refl _)⟩
  | _ => exact grows_pure (hResult rfl)

end

/-- An expression, in a number of steps. It is stuck as soon as one is to be evaluated in a scope
and among scopes that do not pass the test. -/
def tested (settings : Settings) (test : ScopeId → Scopes → Bool) : (steps : Nat) → Evaluator
  | 0 => fun _ _ => outOfSteps
  | steps + 1 => fun e scope store =>
    if test scope store.scopes then
      expressionWith settings (tested settings test steps) e scope store
    else none

theorem tested_of_passed {settings : Settings} {test : ScopeId → Scopes → Bool} {scope : ScopeId}
    {store : Store} (h : test scope store.scopes = true) (steps : Nat) (e : Expr) :
    tested settings test (steps + 1) e scope store =
      expressionWith settings (tested settings test steps) e scope store :=
  if_pos h

end Evaluation

namespace GrowthLaw

open Evaluation
open Value (CapturesBelow)

variable {holds : Scopes → Prop} (law : GrowthLaw holds)

include law

/-- What was stored in a scope was written in open scopes, as the property says of bound values. -/
theorem identifier (name : String) (scope : ScopeId) {known : Nat} :
    Grows holds known CapturesBelow (identifier name scope) (identifier name scope) := by
  intro store hHolds hKnown
  refine ⟨rfl, ?_⟩
  rw [identifier_apply]
  cases hFound : store.scopes.find? name scope with
  | some value =>
      have hSomewhere : ∃ home, True ∧ store.scopes.bound? name home = some value :=
        Scopes.exists_bound?_of_findWithin (fun _ _ => trivial) trivial hFound
      obtain ⟨home, -, hBound⟩ := hSomewhere
      exact Grown.value hHolds (Nat.le_refl _) (law.bound hHolds hBound)
  | none =>
      cases Builtin.ofName? name with
      | some b =>
          have hBuiltin : (Value.builtin b).CapturesBelow store.scopes.all.size :=
            (dataLaw_capturesBelow _).plain rfl rfl
          exact Grown.value hHolds (Nat.le_refl _) hBuiltin
      | none => exact (grows_fail _ store hHolds hKnown).2

theorem bindName (name : String) {value : Value} {scope known : Nat} (hScope : scope < known)
    (hValue : value.CapturesBelow known) :
    Grows holds known (fun _ _ => True)
      (modify fun store => { store with scopes := store.scopes.bind name value scope })
      (modify fun store => { store with scopes := store.scopes.bind name value scope }) := by
  intro store hHolds hKnown
  have hBound := law.bind hHolds (Nat.lt_of_lt_of_le hScope hKnown) (hValue.mono hKnown) name
  exact ⟨rfl, Grown.value hBound (Nat.le_of_eq (Scopes.size_bind _ _ _ _).symm) trivial⟩

theorem bindAll {scopes : Scopes} {scope : ScopeId} (hHolds : holds scopes)
    (hScope : scope < scopes.all.size) {bindings : List (String × Value)}
    (hBindings : ∀ binding ∈ bindings, binding.2.CapturesBelow scopes.all.size) :
    holds (scopes.bindAll bindings scope) ∧
      (scopes.bindAll bindings scope).all.size = scopes.all.size := by
  induction bindings generalizing scopes with
  | nil => exact ⟨hHolds, rfl⟩
  | cons binding rest ih =>
      have hHead := law.bind hHolds hScope (hBindings binding List.mem_cons_self) binding.1
      have hSize := Scopes.size_bind binding.1 binding.2 scope scopes
      have hRest := ih hHead (hSize ▸ hScope) fun other hOther =>
        hSize ▸ hBindings other (List.mem_cons_of_mem _ hOther)
      exact ⟨hRest.1, hRest.2.trans hSize⟩

/-- The scope of a call is one more open scope. -/
theorem openCall {outer known : Nat} (hOuter : outer < known) (parameters : List String)
    {arguments : List Value} (hArguments : ∀ value ∈ arguments, value.CapturesBelow known) :
    Grows holds known (fun opened scope => scope < opened)
      (openCall outer parameters arguments) (openCall outer parameters arguments) := by
  intro store hHolds hKnown
  have hOpened := law.openScope hHolds (Nat.lt_of_lt_of_le hOuter hKnown)
  have hSize := Scopes.size_openScope store.scopes (some outer)
  have hNew : store.scopes.all.size < (store.scopes.openScope (some outer)).2.all.size :=
    hSize ▸ Nat.lt_succ_self _
  have hBindings : ∀ binding ∈ parameters.zip arguments,
      binding.2.CapturesBelow (store.scopes.openScope (some outer)).2.all.size :=
    fun binding hBinding => (hArguments binding.2 (List.of_mem_zip hBinding).2).mono
      (Nat.le_trans hKnown (Nat.le_of_lt hNew))
  obtain ⟨hBound, hSame⟩ := law.bindAll hOpened hNew hBindings
  exact ⟨rfl, Grown.value hBound (hSame ▸ Nat.le_of_lt hNew) (hSame ▸ hNew)⟩

/-- Scopes grow in keeping with the property wherever evaluation takes place. -/
def pairing (settings : Settings) : Pairing settings settings where
  closures := true
  strict := false
  region known := (· < known)
  holds known := Value.WrittenIn (· < known)
  Compared _ known results x y := Grows holds known results x y
  data := dataLaw_capturesBelow
  region_mono hMore hScope := Nat.lt_of_lt_of_le hScope hMore
  holds_mono hMore h id parameters body scope hFunction :=
    Nat.lt_of_lt_of_le (h id parameters body scope hFunction) hMore
  pure := grows_pure
  bind := Grows.bind
  weaken := Grows.mono
  outOfSteps _ _ _ := ⟨rfl, Grown.unfinished⟩
  freshLabel := grows_freshLabel
  fail := grows_fail
  check := grows_check
  trace := grows_trace settings
  identifier name _ := law.identifier name _
  bindName name _ hOwn hValue := law.bindName name hOwn hValue
  enter hOuter parameters _ hArguments hNext :=
    (law.openCall hOuter parameters hArguments).bind hNext
  call b _ hArguments := grows_onHost fun opened host hKnown hError =>
    (dataLaw_capturesBelow opened).call b
      (fun value hValue => CapturesBelow.mono (hArguments value hValue) hKnown) host hError

variable (test : ScopeId → Scopes → Bool)
  (hTest : ∀ scope scopes, holds scopes → scope < scopes.all.size → test scope scopes = true)

include hTest

/-- What holds of all such scopes can be tested at every expression along the way. The number of
steps bounds the nesting of calls, so the induction is on it. -/
theorem agree_tested (settings : Settings) (steps : Nat) :
    (law.pairing settings).Agree (expression settings steps) (tested settings test steps) := by
  induction steps with
  | zero => exact fun _ _ _ _ _ _ _ _ => ⟨rfl, Grown.unfinished⟩
  | succ steps ih =>
      intro e scope known hPlaced hScope store hHolds hKnown
      have hPassed : test scope store.scopes = true :=
        hTest scope store.scopes hHolds (Nat.lt_of_lt_of_le hScope hKnown)
      rw [tested_of_passed hPassed]
      exact (law.pairing settings).expressionWith ih hPlaced hScope store hHolds hKnown

theorem node (settings : Settings) (steps : Nat) (n : Node) {scope known : Nat}
    (hScope : scope < known) :
    Grows holds known CapturesBelow (node settings steps n scope)
      (nodeWith settings (tested settings test steps) n scope) :=
  (law.pairing settings).nodeWith rfl (law.agree_tested test hTest settings steps) n hScope

end GrowthLaw

end Tandem
