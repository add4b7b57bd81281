import Tandem.Proofs.Evaluation.Pairing
import Tandem.Proofs.Evaluation.Reach
/-!
Two evaluations side by side. They start from stores that may bind different things, but agree on a
region of scopes that contains everything that can be got at. Evaluation never leaves the region,
so both come out the same, and whatever was admitted as data in the region is all that there is in
it afterwards.

A store is alike to itself, so this also tells what a single evaluation makes of its store. The two
sides may be run by different evaluators, as long as these come out the same.
-/
namespace Tandem

/-- A law from what it asks of values by themselves: functions have to be written in the region as
well. -/
theorem dataLaw_within {strict : Bool} {holds : Value → Prop} (region : ScopeId → Prop)
    (hData : ∀ value, value.isData = true → holds value)
    (hFunction : ∀ {id parameters body scope}, holds (.function id parameters body scope) ↔
      (strict = true → placedAll body = true))
    (hReturning : strict = false → ∀ value, holds (.returning value)) :
    DataLaw strict region (Value.Admitted holds region) where
  data := by
    intro value hValue
    refine ⟨hData value hValue, ?_⟩
    rintro id parameters body scope rfl
    cases hValue
  function := by
    intro id parameters body scope
    rw [Value.Admitted, Value.writtenIn_function, hFunction, and_comm]
  returning := by
    intro hStrict value
    refine ⟨hReturning hStrict value, ?_⟩
    rintro id parameters body scope ⟨⟩

/-- Two stores that cannot be told apart in a region of scopes, and in which the region holds
nothing but what is admitted. -/
structure Store.Alike (closures : Bool) (region : ScopeId → Prop) (holds : Value → Prop)
    (first second : Store) : Prop where
  host : first.host = second.host
  size : first.scopes.all.size = second.scopes.all.size
  agree : ∀ id, region id → first.scopes.AgreeAt id second.scopes
  contained : first.scopes.Contained closures region holds

/-- A store is alike to itself in the region that can be got at from the roots. -/
theorem Store.alike_self {closures : Bool} {roots : ScopeId → Prop} {holds : Value → Prop}
    {store : Store} (h : store.scopes.BindsOnly closures roots holds) :
    Store.Alike closures (Scopes.regionFrom closures roots store.scopes)
      (Value.Admitted holds (Scopes.regionFrom closures roots store.scopes)) store store :=
  ⟨rfl, rfl, fun id _ => Scopes.AgreeAt.refl id _, Scopes.contained_regionFrom h⟩

namespace Evaluation

variable {α β : Type}

/-- Two evaluations that come out the same: both without a result, or with the same value or the
same failure and stores that are alike again. -/
inductive Beside (alike : Store → Store → Prop) (holds : α → Prop) :
    Option (Except Failure α × Store) → Option (Except Failure α × Store) → Prop where
  | unfinished : Beside alike holds none none
  | value {value : α} {first second : Store} (hValue : holds value)
      (hAlike : alike first second) :
      Beside alike holds (some (.ok value, first)) (some (.ok value, second))
  | failure {failure : Failure} {first second : Store} (hAlike : alike first second) :
      Beside alike holds (some (.error failure, first)) (some (.error failure, second))

theorem Beside.outcome_eq {alike : Store → Store → Prop} {holds : α → Prop}
    {left right : Option (Except Failure α × Store)} (h : Beside alike holds left right) :
    left.map Prod.fst = right.map Prod.fst := by
  cases h <;> rfl

/-- From stores that are alike, the evaluations come out the same. -/
def SideBySide (alike : Store → Store → Prop) (holds : α → Prop) (x y : Evaluation α) : Prop :=
  ∀ first second, alike first second → Beside alike holds (x first) (y second)

section

variable {alike : Store → Store → Prop} {holds : α → Prop} {x y : Evaluation α}

theorem sideBySide_pure {value : α} (hValue : holds value) :
    SideBySide alike holds (pure value) (pure value) :=
  fun _ _ hAlike => Beside.value hValue hAlike

/-- Evaluations are compared part by part. -/
theorem SideBySide.bind {after : β → Prop} {next other : α → Evaluation β}
    (hFirst : SideBySide alike holds x y)
    (hNext : ∀ value, holds value → SideBySide alike after (next value) (other value)) :
    SideBySide alike after (x >>= next) (y >>= other) := by
  intro first second hAlike
  have hParts := hFirst first second hAlike
  rw [bind_apply, bind_apply]
  generalize x first = left, y second = right at hParts
  cases hParts with
  | unfinished => exact Beside.unfinished
  | value hValue hMiddle => exact hNext _ hValue _ _ hMiddle
  | failure hMiddle => exact Beside.failure hMiddle

theorem SideBySide.mono {weaker : α → Prop} (h : SideBySide alike holds x y)
    (hWeaker : ∀ value, holds value → weaker value) : SideBySide alike weaker x y := by
  intro first second hAlike
  have hBeside := h first second hAlike
  generalize x first = left, y second = right at hBeside ⊢
  cases hBeside with
  | unfinished => exact Beside.unfinished
  | value hValue hMiddle => exact Beside.value (hWeaker _ hValue) hMiddle
  | failure hMiddle => exact Beside.failure hMiddle

end

section

variable {closures : Bool} {region : ScopeId → Prop} {data : Value → Prop} {holds : α → Prop}

/-- Alike stores share their host, so whatever is done with it comes out the same. -/
theorem sideBySide_onHost {action : StateM Host α} (hAction : ∀ host, holds (action.run host).1) :
    SideBySide (Store.Alike closures region data) holds (onHost action) (onHost action) := by
  rintro ⟨scopes, host⟩ ⟨others, _⟩ ⟨rfl, hSize, hAgree, hContained⟩
  exact Beside.value (hAction host) ⟨rfl, hSize, hAgree, hContained⟩

theorem sideBySide_freshLabel :
    SideBySide (Store.Alike closures region data) (fun _ => True) freshLabel freshLabel :=
  sideBySide_onHost fun _ => trivial

theorem sideBySide_fail (cause : EvaluationError) :
    SideBySide (Store.Alike closures region data) holds (fail cause) (fail cause) := by
  rintro ⟨scopes, host⟩ ⟨others, _⟩ ⟨rfl, hSize, hAgree, hContained⟩
  exact Beside.failure ⟨rfl, hSize, hAgree, hContained⟩

/-- What comes out of a check is no error value. -/
theorem sideBySide_check {alike : Store → Store → Prop} {holds : Value → Prop} {value : Value}
    (hValue : value.isError = false → holds value) :
    SideBySide alike holds (check value) (check value) := by
  intro first second hAlike
  cases value with
  | error id message => exact Beside.failure hAlike
  | _ => exact Beside.value (hValue rfl) hAlike

theorem sideBySide_trace (settings : Settings) (node : Node) :
    SideBySide (Store.Alike closures region data) (fun _ => True) (trace settings node)
      (trace settings node) := by
  unfold trace
  split
  · exact sideBySide_onHost fun _ => trivial
  · exact sideBySide_pure trivial

/-- Names are bound to the same values in alike stores, and what they are bound to is admitted. -/
theorem sideBySide_identifier {strict : Bool} (law : DataLaw strict region data) (name : String)
    {scope : ScopeId} (hScope : region scope) :
    SideBySide (Store.Alike closures region data) (Value.Everywhere closures data)
      (identifier name scope) (identifier name scope) := by
  intro first second hAlike
  have hSame : first.scopes.find? name scope = second.scopes.find? name scope :=
    Scopes.findWithin_congr hAlike.agree hAlike.contained.parent name scope hScope
  rw [identifier_apply, identifier_apply, ← hSame]
  cases hFound : first.scopes.find? name scope with
  | some value =>
      obtain ⟨home, hHome, hBound⟩ :=
        Scopes.exists_bound?_of_findWithin hAlike.contained.parent hScope hFound
      exact Beside.value (hAlike.contained.bound hHome hBound) hAlike
  | none =>
      cases Builtin.ofName? name with
      | some b =>
          exact Beside.value (Value.everywhere_of_contents_eq_nil (law.data _ rfl) rfl) hAlike
      | none => exact sideBySide_fail _ first second hAlike

end

end Evaluation

namespace Store

variable {closures : Bool} {region : ScopeId → Prop} {holds : Value → Prop} {first second : Store}

theorem Alike.bind (h : Alike closures region holds first second) (name : String) {value : Value}
    (hValue : value.Everywhere closures holds) (own : ScopeId) :
    Alike closures region holds
      { first with scopes := first.scopes.bind name value own }
      { second with scopes := second.scopes.bind name value own } where
  host := h.host
  size := by rw [Scopes.size_bind, Scopes.size_bind, h.size]
  agree := fun id hId => (h.agree id hId).bind h.size name value own
  contained := h.contained.bind name hValue own

theorem Alike.bindAll (h : Alike closures region holds first second)
    {bindings : List (String × Value)}
    (hBindings : ∀ binding ∈ bindings, binding.2.Everywhere closures holds) (own : ScopeId) :
    Alike closures region holds
      { first with scopes := first.scopes.bindAll bindings own }
      { second with scopes := second.scopes.bindAll bindings own } := by
  induction bindings generalizing first second with
  | nil => exact h
  | cons binding rest ih =>
      have hHead := h.bind binding.1 (hBindings binding List.mem_cons_self) own
      exact ih hHead fun other hOther => hBindings other (List.mem_cons_of_mem _ hOther)

/-- A scope opened in both stores gets the same number and is part of the region. -/
theorem Alike.openScope (h : Alike closures region holds first second) {outer : ScopeId}
    (hOuter : region outer) :
    Alike closures region holds
      { first with scopes := (first.scopes.openScope (some outer)).2 }
      { second with scopes := (second.scopes.openScope (some outer)).2 } where
  host := h.host
  size := by rw [Scopes.size_openScope, Scopes.size_openScope, h.size]
  agree := fun id hId => (h.agree id hId).openScope h.size (some outer)
  contained := h.contained.openScope hOuter

end Store

namespace Evaluation

/-- The scope of a call gets the same number in alike stores and is part of the region. -/
theorem sideBySide_openCall {closures : Bool} {region : ScopeId → Prop} {holds : Value → Prop}
    {outer : ScopeId} (hOuter : region outer) (parameters : List String)
    {arguments : List Value} (hArguments : ∀ value ∈ arguments, value.Everywhere closures holds) :
    SideBySide (Store.Alike closures region holds) region (openCall outer parameters arguments)
      (openCall outer parameters arguments) := by
  intro first second hAlike
  have hBindings : ∀ binding ∈ parameters.zip arguments, binding.2.Everywhere closures holds :=
    fun binding hBinding => hArguments binding.2 (List.of_mem_zip hBinding).2
  have hOpened := (hAlike.openScope hOuter).bindAll hBindings first.scopes.all.size
  show Beside _ _ (some (.ok first.scopes.all.size, _)) (some (.ok second.scopes.all.size,
    { second with
      scopes := (second.scopes.openScope (some outer)).2.bindAll (parameters.zip arguments)
        second.scopes.all.size }))
  rw [← hAlike.size]
  exact Beside.value (hAlike.contained.unopened _ (Nat.le_refl _)) hOpened

end Evaluation

namespace DataLaw

open Evaluation

variable {strict : Bool} {region : ScopeId → Prop} {holds : Value → Prop}
  (law : DataLaw strict region holds)

/-- From stores that are alike in the region, evaluation comes out the same in its scopes. -/
def pairing (closures : Bool) (settings : Settings) : Pairing settings settings where
  closures := closures
  strict := strict
  region _ := region
  holds _ := holds
  Compared _ known results x y := SideBySide (Store.Alike closures region holds) (results known) x y
  data _ := law
  region_mono _ := id
  holds_mono _ := id
  pure h := sideBySide_pure (h _ (Nat.le_refl _))
  bind h hNext := h.bind fun value hValue => hNext _ value (Nat.le_refl _) hValue
  weaken h hWeaker := h.mono (hWeaker _)
  outOfSteps _ _ _ := Beside.unfinished
  freshLabel := sideBySide_freshLabel
  fail := sideBySide_fail
  check h := sideBySide_check fun hValue => h hValue _ (Nat.le_refl _)
  trace := sideBySide_trace settings
  identifier name hOwn := sideBySide_identifier law name hOwn
  bindName name _ _ hValue _ _ hAlike := Beside.value trivial (hAlike.bind name hValue _)
  enter hOuter parameters _ hArguments hNext :=
    (sideBySide_openCall hOuter parameters hArguments).bind fun scope hScope =>
      hNext _ scope (Nat.le_refl _) hScope
  call b _ hArguments := sideBySide_onHost fun host hError => law.call b hArguments host hError

variable {closures : Bool} {settings : Settings}

/-- The scope and the number of open scopes do not matter by themselves. -/
theorem sideBySide (own : ScopeId) {α : Type} {results : Nat → α → Prop} {x y : Evaluation α}
    (h : (law.pairing closures settings).Compared own 0 results x y) :
    SideBySide (Store.Alike closures region holds) (results 0) x y := h

theorem expression (steps : Nat) : (law.pairing closures settings).Agree
    (Evaluation.expression settings steps) (Evaluation.expression settings steps) :=
  (law.pairing closures settings).expression steps

/-- Programs take signals off, so that nothing is left but what is admitted. -/
theorem program {evaluate other : Evaluator}
    (hEvaluate : (law.pairing closures settings).Agree evaluate other) {body : List Stmt}
    (hPlaced : strict = true → placedAll body = true) {scope : ScopeId} (hScope : region scope) :
    SideBySide (Store.Alike closures region holds) (Value.Everywhere closures holds)
      (Evaluation.program settings evaluate body scope)
      (Evaluation.program settings other body scope) :=
  law.sideBySide scope ((law.pairing closures settings).program hEvaluate hPlaced hScope)

end DataLaw

/-- Under a law that admits signals nothing is asked of a tree. -/
theorem DataLaw.node {closures : Bool} {region : ScopeId → Prop} {holds : Value → Prop}
    (law : DataLaw false region holds) (settings : Settings) (steps : Nat) (n : Node)
    {scope : ScopeId} (hScope : region scope) :
    Evaluation.SideBySide (Store.Alike closures region holds) (Value.Everywhere closures holds)
      (Evaluation.node settings steps n scope) (Evaluation.node settings steps n scope) :=
  law.sideBySide scope
    ((law.pairing closures settings).nodeWith rfl (law.expression steps) n hScope)

/-- A call comes out the same in any scope. -/
theorem DataLaw.apply {closures strict : Bool} {region : ScopeId → Prop} {holds : Value → Prop}
    (law : DataLaw strict region holds) (settings : Settings) (steps : Nat) {callee : Value}
    {arguments : List Value}
    (hValues : ∀ value ∈ callee :: arguments, value.Everywhere closures holds) :
    Evaluation.SideBySide (Store.Alike closures region holds) (Value.Everywhere closures holds)
      (Evaluation.apply settings (Evaluation.expression settings steps) callee arguments)
      (Evaluation.apply settings (Evaluation.expression settings steps) callee arguments) :=
  have hCallee := (hValues callee List.mem_cons_self).yielded false
  law.sideBySide 0 ((law.pairing closures settings).apply (law.expression steps) 0 hCallee
    fun value hValue => hValues value (List.mem_cons_of_mem _ hValue))

end Tandem
