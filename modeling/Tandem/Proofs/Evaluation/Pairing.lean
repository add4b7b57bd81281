import Tandem.Evaluation
import Tandem.Proofs.Evaluation.Placement
import Tandem.Proofs.Value.Contents
/-!
The way through evaluation, for whatever there is to be said about it. Two evaluations of a tree may
have different settings and evaluators, but they come to the same parts in the same order. So a way
to compare evaluations that works for each thing that evaluation does by itself, and for one thing
after another, works for every tree, as long as it works for the expressions inside the tree and in
the functions that are called.

What is said may depend on the scope in which an evaluation takes place and on how many scopes are
open. No scope is ever closed, so what is known of scopes and values stays known.
-/
namespace Tandem

/-- What is admitted as data in a region of scopes: plain data throughout, and functions that were
written in the region. Signals are admitted as well unless the law is strict. Under a strict law
functions have to be well placed, which keeps signals from becoming data. -/
structure DataLaw (strict : Bool) (region : ScopeId → Prop) (holds : Value → Prop) : Prop where
  data : ∀ value, value.isData = true → holds value
  function : ∀ {id parameters body scope}, holds (.function id parameters body scope) ↔
    region scope ∧ (strict = true → placedAll body = true)
  returning : strict = false → ∀ value, holds (.returning value)

/-- Everything may be admitted everywhere. -/
theorem dataLaw_true : DataLaw false (fun _ => True) (fun _ => True) where
  data := fun _ _ => trivial
  function := by simp
  returning := fun _ _ => trivial

namespace Value

/-- The predicate holds of the value and of all values inside it, or else of what a signal carries
that the evaluated tree can raise. -/
def Yielded (closures : Bool) (holds : Value → Prop) (signals : Bool) (value : Value) : Prop :=
  value.Everywhere closures holds ∨
    signals = true ∧ ∃ carried, value = .returning carried ∧ carried.Everywhere closures holds

variable {closures : Bool} {holds : Value → Prop} {value : Value}

theorem Everywhere.yielded (h : value.Everywhere closures holds) (signals : Bool) :
    value.Yielded closures holds signals :=
  Or.inl h

theorem Yielded.mono {signals more : Bool} (h : value.Yielded closures holds signals)
    (hMore : signals = true → more = true) : value.Yielded closures holds more :=
  h.imp id fun ⟨hSignals, hCarried⟩ => ⟨hMore hSignals, hCarried⟩

/-- A value that is no signal is all that it was yielded as. -/
theorem Yielded.everywhere {signals : Bool} (h : value.Yielded closures holds signals)
    (hValue : ∀ carried, value ≠ .returning carried) : value.Everywhere closures holds := by
  rcases h with hEverywhere | ⟨_, carried, hCarried, _⟩
  · exact hEverywhere
  · exact absurd hCarried (hValue carried)

/-- What a signal carries was kept before. -/
theorem Yielded.carried {signals : Bool} {carried : Value}
    (h : (Value.returning carried).Yielded closures holds signals) :
    carried.Everywhere closures holds := by
  rcases h with hValue | ⟨_, _, ⟨⟩, hCarried⟩
  · exact hValue.inside carried List.mem_cons_self
  · exact hCarried

/-- Taking a signal off leaves what it carries. -/
theorem Yielded.unwrapReturn {signals : Bool} (h : value.Yielded closures holds signals) :
    value.unwrapReturn.Everywhere closures holds := by
  cases value with
  | returning carried => exact h.carried
  | _ => exact h.everywhere nofun

end Value

namespace DataLaw

variable {closures strict : Bool} {region : ScopeId → Prop} {holds : Value → Prop}
  (law : DataLaw strict region holds)

include law

theorem plain {value : Value} (hData : value.isData = true)
    (hContents : value.contents closures = []) : value.Everywhere closures holds :=
  Value.everywhere_of_contents_eq_nil (law.data value hData) hContents

theorem null : Value.null.Everywhere closures holds := law.plain rfl rfl

theorem array (id : Label) {elements : List Value}
    (h : ∀ element ∈ elements, element.Everywhere closures holds) :
    (Value.array id elements).Everywhere closures holds :=
  Value.everywhere_intro (law.data _ rfl) h

theorem hash (id : Label) {entries : Entries}
    (h : ∀ entry ∈ entries, entry.2.Everywhere closures holds) :
    (Value.hash id entries).Everywhere closures holds := by
  refine Value.everywhere_intro (law.data _ rfl) fun content hContent => ?_
  obtain ⟨entry, hEntry, rfl⟩ := List.mem_map.mp hContent
  exact h entry hEntry

theorem getD {value? : Option Value}
    (h : ∀ value, value? = some value → value.Everywhere closures holds) :
    (value?.getD .null).Everywhere closures holds := by
  cases value? with
  | none => exact law.null
  | some value => exact h value rfl

/-- Where no signal can be handed on, or signals are admitted, a value can be kept. -/
theorem kept {signals : Bool} {value : Value} (h : value.Yielded closures holds signals)
    (hSignals : strict = true → signals = false) : value.Everywhere closures holds := by
  rcases h with hValue | ⟨hRaised, carried, rfl, hCarried⟩
  · exact hValue
  · have hLenient : strict = false := by
      cases strict with
      | false => rfl
      | true => simp [hSignals rfl] at hRaised
    refine Value.everywhere_intro (law.returning hLenient carried) fun content hContent => ?_
    rw [List.mem_singleton.mp hContent]
    exact hCarried

/-- What is admitted of the arguments is admitted of the answer of a built-in function, unless that
is an error value. -/
theorem call (b : Builtin) {arguments : List Value}
    (h : ∀ argument ∈ arguments, argument.Everywhere closures holds) (host : Host)
    (hError : ((b.call arguments).run host).1.isError = false) :
    ((b.call arguments).run host).1.Everywhere closures holds := by
  have hAnswer := b.answers_call arguments host
  generalize ((b.call arguments).run host).1 = answer at hAnswer hError
  cases hAnswer with
  | error id message => cases hError
  | null => exact law.null
  | integer n => exact law.plain rfl rfl
  | element hArray hElement => exact (h _ hArray).inside _ hElement
  | array id hMade =>
      refine law.array id fun element hElement => ?_
      rcases hMade element hElement with hArgument | ⟨_, _, hArray, hInside⟩
      · exact h element hArgument
      · exact (h _ hArray).inside element hInside

end DataLaw

namespace Evaluation

open Value (Everywhere Yielded)

/-- A way to compare evaluations under one setting with evaluations under another, and its rules.
Two evaluations in the scope `own`, with at least `known` scopes open, compare with `results` if the
results hold of what they come to, told for as many scopes as are open by then. -/
structure Pairing (settings others : Settings) where
  closures : Bool
  strict : Bool
  /-- The scopes that evaluation keeps to. -/
  region (known : Nat) : ScopeId → Prop
  /-- What is admitted as data. -/
  holds (known : Nat) : Value → Prop
  Compared {α : Type} (own : ScopeId) (known : Nat) (results : Nat → α → Prop)
    (x y : Evaluation α) : Prop
  data (known : Nat) : DataLaw strict (region known) (holds known)
  region_mono {known more : Nat} {id : ScopeId} (hMore : known ≤ more) (h : region known id) :
    region more id
  holds_mono {known more : Nat} {value : Value} (hMore : known ≤ more) (h : holds known value) :
    holds more value
  pure {α : Type} {own : ScopeId} {known : Nat} {results : Nat → α → Prop} {value : α}
    (h : ∀ opened, known ≤ opened → results opened value) :
    Compared own known results (pure value) (pure value)
  bind {α β : Type} {own : ScopeId} {known : Nat} {results : Nat → α → Prop}
    {final : Nat → β → Prop} {x y : Evaluation α} {next other : α → Evaluation β}
    (h : Compared own known results x y)
    (hNext : ∀ opened value, known ≤ opened → results opened value →
      Compared own opened final (next value) (other value)) :
    Compared own known final (x >>= next) (y >>= other)
  weaken {α : Type} {own : ScopeId} {known : Nat} {results weaker : Nat → α → Prop}
    {x y : Evaluation α} (h : Compared own known results x y)
    (hWeaker : ∀ opened value, results opened value → weaker opened value) :
    Compared own known weaker x y
  outOfSteps {α : Type} {own : ScopeId} {known : Nat} {results : Nat → α → Prop} :
    Compared own known results outOfSteps outOfSteps
  freshLabel {own : ScopeId} {known : Nat} :
    Compared own known (fun _ _ => True) freshLabel freshLabel
  fail {α : Type} {own : ScopeId} {known : Nat} {results : Nat → α → Prop}
    (cause : EvaluationError) : Compared own known results (fail cause) (fail cause)
  /-- What comes out of a check is no error value. -/
  check {own : ScopeId} {known : Nat} {results : Nat → Value → Prop} {value : Value}
    (h : value.isError = false → ∀ opened, known ≤ opened → results opened value) :
    Compared own known results (check value) (check value)
  trace {own : ScopeId} {known : Nat} (node : Node) :
    Compared own known (fun _ _ => True) (trace settings node) (trace others node)
  identifier {own : ScopeId} {known : Nat} (name : String) (hOwn : region known own) :
    Compared own known (fun opened => Everywhere closures (holds opened)) (identifier name own)
      (identifier name own)
  bindName {own : ScopeId} {known : Nat} (name : String) {value : Value} (hOwn : region known own)
    (hValue : value.Everywhere closures (holds known)) :
    Compared own known (fun _ _ => True)
      (modify fun store => { store with scopes := store.scopes.bind name value own })
      (modify fun store => { store with scopes := store.scopes.bind name value own })
  /-- What is done in the scope of a call takes place in that scope. -/
  enter {α : Type} {own outer : ScopeId} {known : Nat} {results : Nat → α → Prop}
    {next other : ScopeId → Evaluation α} (hOuter : region known outer)
    (parameters : List String) {arguments : List Value}
    (hArguments : ∀ value ∈ arguments, value.Everywhere closures (holds known))
    (hNext : ∀ opened scope, known ≤ opened → region opened scope →
      Compared scope opened results (next scope) (other scope)) :
    Compared own known results (openCall outer parameters arguments >>= next)
      (openCall outer parameters arguments >>= other)
  call {own : ScopeId} {known : Nat} (b : Builtin) {arguments : List Value}
    (hArguments : ∀ value ∈ arguments, value.Everywhere closures (holds known)) :
    Compared own known
      (fun opened value => value.isError = false → value.Everywhere closures (holds opened))
      (onHost (b.call arguments)) (onHost (b.call arguments))

namespace Pairing

variable {settings others : Settings} (c : Pairing settings others)

def Keeps (known : Nat) (value : Value) : Prop := value.Everywhere c.closures (c.holds known)

/-- Everything in the value is admitted, or in what it carries if the evaluated tree can raise a
signal. -/
def Yields (signals : Bool) (known : Nat) (value : Value) : Prop :=
  value.Yielded c.closures (c.holds known) signals

/-- Two evaluators that compare on all expressions that may stand there, in the scopes that
evaluation keeps to. -/
def Agree (evaluate other : Evaluator) : Prop :=
  ∀ e scope known, (c.strict = true → e.placed = true) → c.region known scope →
    c.Compared scope known (c.Yields e.signals) (evaluate e scope) (other e scope)

section

variable {c : Pairing settings others} {own : ScopeId} {known more : Nat} {value : Value}

theorem Keeps.mono (h : c.Keeps known value) (hMore : known ≤ more) : c.Keeps more value :=
  Everywhere.mono h fun _ => c.holds_mono hMore

theorem Yields.mono {signals : Bool} (h : c.Yields signals known value) (hMore : known ≤ more) :
    c.Yields signals more value :=
  h.imp (Keeps.mono · hMore) fun ⟨hSignals, carried, hValue, hCarried⟩ =>
    ⟨hSignals, carried, hValue, Keeps.mono hCarried hMore⟩

end

section

variable {own : ScopeId} {known : Nat}

/-- Plain data can be made anywhere. -/
theorem plain {value : Value} (hData : value.isData = true)
    (hContents : value.contents c.closures = []) :
    c.Compared own known c.Keeps (Pure.pure value) (Pure.pure value) :=
  c.pure fun opened _ => (c.data opened).plain hData hContents

theorem unary (op : UnaryOp) (operand : Value) :
    c.Compared own known c.Keeps (unary op operand) (unary op operand) := by
  unfold Evaluation.unary
  split
  · exact c.plain rfl rfl
  · exact c.plain rfl rfl
  · exact c.fail _

theorem integerBinary (a : Int64) (op : BinaryOp) (b : Int64) :
    c.Compared own known c.Keeps (integerBinary a op b) (integerBinary a op b) := by
  unfold Evaluation.integerBinary
  split
  case h_4 =>
    split
    · exact c.fail _
    · exact c.plain rfl rfl
  all_goals exact c.plain rfl rfl

theorem binary (left : Value) (op : BinaryOp) (right : Value) :
    c.Compared own known c.Keeps (binary left op right) (binary left op right) := by
  unfold Evaluation.binary
  split
  · exact c.integerBinary _ _ _
  · unfold stringBinary
    split
    · exact c.bind c.freshLabel fun _ _ _ _ => c.plain rfl rfl
    · exact c.fail _
  · split
    · unfold identityBinary
      split
      · exact c.plain rfl rfl
      · exact c.plain rfl rfl
      · exact c.fail _
    · exact c.fail _

/-- What is found in an array or a hash was inside it before. -/
theorem index {object : Value} {signals : Bool} (hObject : c.Yields signals known object)
    (key : Value) : c.Compared own known c.Keeps (index object key) (index object key) := by
  unfold Evaluation.index
  split
  · split
    · refine c.pure fun opened hKnown => (c.data opened).getD fun value hValue => ?_
      have hArray := Everywhere.inside (Keeps.mono (Yielded.everywhere hObject nofun) hKnown)
      exact hArray value (List.mem_of_getElem? hValue)
    · exact c.plain rfl rfl
  · split
    · refine c.pure fun opened hKnown => (c.data opened).getD fun value hValue => ?_
      have hHash := Everywhere.inside (Keeps.mono (Yielded.everywhere hObject nofun) hKnown)
      obtain ⟨entry, hEntry, rfl⟩ := Entries.exists_mem_of_find? hValue
      exact hHash entry.2 (List.mem_map_of_mem hEntry)
    · exact c.fail _
  · exact c.fail _

/-- Calls and programs take off the signal that ends them. -/
theorem unwrapReturn {signals : Bool} {x y : Evaluation Value}
    (h : c.Compared own known (c.Yields signals) x y) :
    c.Compared own known c.Keeps (return (← x).unwrapReturn) (return (← y).unwrapReturn) :=
  c.bind h fun _ _ _ hValue => c.pure fun _ hMore => Yielded.unwrapReturn (hValue.mono hMore)

end

section

variable {evaluate other : Evaluator} (hEvaluate : c.Agree evaluate other) {scope : ScopeId}
  {known : Nat}

include hEvaluate

/-- An expression whose value is kept. -/
theorem keptExpression {e : Expr}
    (hKept : c.strict = true → e.placed = true ∧ e.signals = false)
    (hScope : c.region known scope) :
    c.Compared scope known c.Keeps (evaluate e scope) (other e scope) :=
  c.weaken (hEvaluate e scope known (fun h => (hKept h).1) hScope) fun opened _ hValue =>
    (c.data opened).kept hValue fun h => (hKept h).2

theorem statement {s : Stmt} (hPlaced : c.strict = true → s.placed = true)
    (hScope : c.region known scope) :
    c.Compared scope known (c.Yields s.signals) (statement settings evaluate s scope)
      (statement others other s scope) := by
  refine c.bind (c.trace _) fun opened _ hKnown _ => ?_
  replace hScope := c.region_mono hKnown hScope
  cases s with
  | binding name e =>
      have hKept : c.strict = true → e.placed = true ∧ e.signals = false := by
        simpa [Stmt.placed] using hPlaced
      refine c.bind (c.keptExpression hEvaluate hKept hScope) fun more value hMore hValue => ?_
      refine c.bind (c.bindName name (c.region_mono hMore hScope) hValue) fun _ _ _ _ => ?_
      exact c.pure fun most _ => (c.data most).null.yielded _
  | returning e =>
      have hKept : c.strict = true → e.placed = true ∧ e.signals = false := by
        simpa [Stmt.placed] using hPlaced
      refine c.bind (c.keptExpression hEvaluate hKept hScope) fun more value _ hValue => ?_
      exact c.pure fun most hMost => Or.inr ⟨rfl, value, rfl, hValue.mono hMost⟩
  | expression e => exact hEvaluate e scope opened hPlaced hScope

theorem statements {body : List Stmt} (hPlaced : c.strict = true → placedAll body = true)
    (hScope : c.region known scope) {last : Value} (hLast : c.Keeps known last) :
    c.Compared scope known (c.Yields (signalsAny body))
      (statements settings evaluate scope body last) (statements others other scope body last) := by
  induction body generalizing last known with
  | nil => exact c.pure fun _ hMore => (hLast.mono hMore).yielded _
  | cons s rest ih =>
      have hBoth : c.strict = true → s.placed = true ∧ placedAll rest = true := by
        simpa [placedAll] using hPlaced
      have hFirst : s.signals = true → signalsAny (s :: rest) = true := by
        simpa [signalsAny] using Or.inl
      have hRest : signalsAny rest = true → signalsAny (s :: rest) = true := by
        simpa [signalsAny] using Or.inr
      rw [Evaluation.statements, Evaluation.statements]
      refine c.bind (c.statement hEvaluate (fun h => (hBoth h).1) hScope)
        fun opened value hKnown hValue => ?_
      cases value with
      | returning carried => exact c.pure fun _ hMore => Yielded.mono (hValue.mono hMore) hFirst
      | _ =>
          exact c.weaken (ih (fun h => (hBoth h).2) (c.region_mono hKnown hScope)
            (Yielded.everywhere hValue nofun)) fun _ _ hResult => Yielded.mono hResult hRest

theorem programStatements {body : List Stmt}
    (hPlaced : c.strict = true → placedAll body = true) (hScope : c.region known scope)
    {last : Value} (hLast : c.Keeps known last) :
    c.Compared scope known c.Keeps (programStatements settings evaluate scope body last)
      (programStatements others other scope body last) := by
  induction body generalizing last known with
  | nil => exact c.pure fun _ hMore => hLast.mono hMore
  | cons s rest ih =>
      have hBoth : c.strict = true → s.placed = true ∧ placedAll rest = true := by
        simpa [placedAll] using hPlaced
      rw [Evaluation.programStatements, Evaluation.programStatements]
      refine c.bind (c.statement hEvaluate (fun h => (hBoth h).1) hScope)
        fun opened value hKnown hValue => ?_
      cases value with
      | returning carried => exact c.pure fun _ hMore => Keeps.mono hValue.carried hMore
      | _ =>
          exact ih (fun h => (hBoth h).2) (c.region_mono hKnown hScope)
            (Yielded.everywhere hValue nofun)

theorem block {body : List Stmt} (hPlaced : c.strict = true → placedAll body = true)
    (hScope : c.region known scope) :
    c.Compared scope known (c.Yields (signalsAny body)) (block settings evaluate body scope)
      (block others other body scope) :=
  c.bind (c.trace _) fun opened _ hKnown _ =>
    c.statements hEvaluate hPlaced (c.region_mono hKnown hScope) (c.data opened).null

theorem program {body : List Stmt} (hPlaced : c.strict = true → placedAll body = true)
    (hScope : c.region known scope) :
    c.Compared scope known c.Keeps (program settings evaluate body scope)
      (program others other body scope) :=
  c.bind (c.trace _) fun opened _ hKnown _ =>
    c.programStatements hEvaluate hPlaced (c.region_mono hKnown hScope) (c.data opened).null

theorem expressions {list : List Expr} (hPlaced : c.strict = true → keptAll list = true)
    (hScope : c.region known scope) :
    c.Compared scope known (fun opened values => ∀ value ∈ values, c.Keeps opened value)
      (expressions evaluate scope list) (expressions other scope list) := by
  induction list generalizing known with
  | nil => exact c.pure fun _ _ value hValue => absurd hValue List.not_mem_nil
  | cons e rest ih =>
      have hBoth : c.strict = true →
          (e.placed = true ∧ e.signals = false) ∧ keptAll rest = true := by
        simpa [keptAll] using hPlaced
      refine c.bind (c.keptExpression hEvaluate (fun h => (hBoth h).1) hScope)
        fun opened value hKnown hValue => ?_
      refine c.bind (ih (fun h => (hBoth h).2) (c.region_mono hKnown hScope))
        fun more values hMore hValues => ?_
      refine c.pure fun most hMost => List.forall_mem_cons.mpr ⟨?_, fun found hFound => ?_⟩
      · exact hValue.mono (Nat.le_trans hMore hMost)
      · exact (hValues found hFound).mono hMost

theorem pairs {list : List (Expr × Expr)} (hPlaced : c.strict = true → keptPairs list = true)
    (hScope : c.region known scope) {entries : Entries}
    (hEntries : ∀ entry ∈ entries, c.Keeps known entry.2) :
    c.Compared scope known (fun opened made => ∀ entry ∈ made, c.Keeps opened entry.2)
      (pairs evaluate scope list entries) (pairs other scope list entries) := by
  induction list generalizing entries known with
  | nil => exact c.pure fun _ hMore entry hEntry => (hEntries entry hEntry).mono hMore
  | cons pair rest ih =>
      obtain ⟨keyExpr, valueExpr⟩ := pair
      have hAll : c.strict = true → ((keyExpr.placed = true ∧ valueExpr.placed = true) ∧
          valueExpr.signals = false) ∧ keptPairs rest = true := by
        simpa [keptPairs] using hPlaced
      rw [Evaluation.pairs, Evaluation.pairs]
      refine c.bind (hEvaluate keyExpr scope known (fun h => (hAll h).1.1.1) hScope)
        fun opened keyValue hKnown _ => ?_
      have hOpened := c.region_mono hKnown hScope
      cases keyValue.toKey? with
      | none => exact c.fail _
      | some key =>
          refine c.bind (c.keptExpression hEvaluate (fun h => ⟨(hAll h).1.1.2, (hAll h).1.2⟩)
            hOpened) fun more value hMore hValue => ?_
          refine ih (fun h => (hAll h).2) (c.region_mono hMore hOpened) fun entry hEntry => ?_
          rcases Entries.mem_insert hEntry with rfl | hOld
          · exact hValue
          · exact (hEntries entry hOld).mono (Nat.le_trans hKnown hMore)

/-- A call of a function leaves the scope of the caller for one that is opened inside the scope in
which the function was written. -/
theorem apply (own : ScopeId) {callee : Value} {signals : Bool}
    (hCallee : c.Yields signals known callee) {arguments : List Value}
    (hArguments : ∀ value ∈ arguments, c.Keeps known value) :
    c.Compared own known c.Keeps (apply settings evaluate callee arguments)
      (apply others other callee arguments) := by
  cases callee with
  | function id parameters body outer =>
      have hFunction := (c.data known).function.mp (Yielded.everywhere hCallee nofun).here
      rw [Evaluation.apply, Evaluation.apply]
      split
      · exact c.fail _
      · exact c.enter hFunction.1 parameters hArguments fun opened inner _ hInner =>
          c.unwrapReturn (c.block hEvaluate hFunction.2 hInner)
  | builtin b =>
      exact c.bind (c.call b hArguments) fun _ value _ hValue =>
        c.check fun hError _ hMore => Keeps.mono (hValue hError) hMore
  | _ => exact c.fail _

/-- Expressions compare if the expressions inside them and in the functions they call do. -/
theorem expressionWith {e : Expr} (hPlaced : c.strict = true → e.placed = true)
    (hScope : c.region known scope) :
    c.Compared scope known (c.Yields e.signals) (expressionWith settings evaluate e scope)
      (expressionWith others other e scope) := by
  refine c.bind (c.trace _) fun opened _ hKnown _ => ?_
  replace hScope := c.region_mono hKnown hScope
  have hNoSignal {x y : Evaluation Value} (h : c.Compared scope opened c.Keeps x y) :
      c.Compared scope opened (c.Yields e.signals) x y :=
    c.weaken h fun _ _ hValue => Everywhere.yielded hValue e.signals
  cases e with
  | identifier name => exact hNoSignal (c.identifier name hScope)
  | integer n => exact hNoSignal (c.plain rfl rfl)
  | boolean b => exact hNoSignal (c.plain rfl rfl)
  | string text => exact hNoSignal (c.bind c.freshLabel fun _ _ _ _ => c.plain rfl rfl)
  | unary op operand =>
      have hOperand : c.strict = true → operand.placed = true := by
        simpa [Expr.placed] using hPlaced
      exact hNoSignal (c.bind (hEvaluate operand scope opened hOperand hScope)
        fun _ value _ _ => c.unary op value)
  | binary op left right =>
      have hBoth : c.strict = true → left.placed = true ∧ right.placed = true := by
        simpa [Expr.placed] using hPlaced
      refine hNoSignal (c.bind (hEvaluate left scope opened (fun h => (hBoth h).1) hScope)
        fun more leftValue hMore _ => ?_)
      exact c.bind (hEvaluate right scope more (fun h => (hBoth h).2) (c.region_mono hMore hScope))
        fun _ rightValue _ _ => c.binary leftValue op rightValue
  | conditional condition consequence alternative =>
      have hAll := fun h => Expr.placed_of_conditional (hPlaced h)
      refine c.bind (hEvaluate condition scope opened (fun h => (hAll h).1) hScope)
        fun more value hMore _ => ?_
      replace hScope := c.region_mono hMore hScope
      split
      · exact c.weaken (c.block hEvaluate (fun h => (hAll h).2.1) hScope)
          fun _ _ hResult => Yielded.mono hResult Expr.signals_of_consequence
      · cases alternative with
        | none => exact c.pure fun most _ => (c.data most).null.yielded _
        | some body =>
            exact c.weaken (c.block hEvaluate (fun h => (hAll h).2.2 body rfl) hScope)
              fun _ _ hResult => Yielded.mono hResult Expr.signals_of_alternative
  | function parameters body =>
      have hBody : c.strict = true → placedAll body = true := by simpa [Expr.placed] using hPlaced
      refine hNoSignal (c.bind c.freshLabel fun more id hMore _ => c.pure fun most hMost => ?_)
      have hWritten := c.region_mono (Nat.le_trans hMore hMost) hScope
      exact Value.everywhere_of_contents_eq_nil ((c.data most).function.mpr ⟨hWritten, hBody⟩) rfl
  | call callee arguments =>
      have hBoth : c.strict = true → callee.placed = true ∧ keptAll arguments = true := by
        simpa [Expr.placed] using hPlaced
      refine hNoSignal (c.bind (hEvaluate callee scope opened (fun h => (hBoth h).1) hScope)
        fun more calleeValue hMore hCallee => ?_)
      refine c.bind (c.expressions hEvaluate (fun h => (hBoth h).2) (c.region_mono hMore hScope))
        fun most values hMost hValues => ?_
      exact c.apply hEvaluate scope (hCallee.mono hMost) hValues
  | array elements =>
      have hElements : c.strict = true → keptAll elements = true := by
        simpa [Expr.placed] using hPlaced
      refine hNoSignal (c.bind (c.expressions hEvaluate hElements hScope)
        fun more values hMore hValues => ?_)
      refine c.bind c.freshLabel fun most id hMost _ => c.pure fun final hFinal => ?_
      exact (c.data final).array id fun value hValue =>
        (hValues value hValue).mono (Nat.le_trans hMost hFinal)
  | index object key =>
      have hBoth : c.strict = true → object.placed = true ∧ key.placed = true := by
        simpa [Expr.placed] using hPlaced
      refine hNoSignal (c.bind (hEvaluate object scope opened (fun h => (hBoth h).1) hScope)
        fun more objectValue hMore hObject => ?_)
      exact c.bind (hEvaluate key scope more (fun h => (hBoth h).2) (c.region_mono hMore hScope))
        fun _ keyValue hMost _ => c.index (hObject.mono hMost) keyValue
  | hash literal =>
      have hPairs : c.strict = true → keptPairs literal = true := by
        simpa [Expr.placed] using hPlaced
      have hNone : ∀ entry ∈ ([] : Entries), c.Keeps opened entry.2 :=
        fun entry hEntry => absurd hEntry List.not_mem_nil
      refine hNoSignal (c.bind (c.pairs hEvaluate hPairs hScope hNone)
        fun more entries hMore hEntries => ?_)
      refine c.bind c.freshLabel fun most id hMost _ => c.pure fun final hFinal => ?_
      exact (c.data final).hash id fun entry hEntry =>
        (hEntries entry hEntry).mono (Nat.le_trans hMost hFinal)

end

/-- The number of steps bounds the nesting of calls, so the pairing is carried through recursive
calls by induction on it. -/
theorem expression (steps : Nat) :
    c.Agree (expression settings steps) (expression others steps) := by
  induction steps with
  | zero => exact fun _ _ _ _ _ => c.outOfSteps
  | succ steps ih => exact fun _ _ _ hPlaced hScope => c.expressionWith ih hPlaced hScope

/-- Where signals may become data, nothing is asked of a node. -/
theorem nodeWith (hLenient : c.strict = false) {evaluate other : Evaluator}
    (hEvaluate : c.Agree evaluate other) (n : Node) {scope : ScopeId} {known : Nat}
    (hScope : c.region known scope) :
    c.Compared scope known c.Keeps (nodeWith settings evaluate n scope)
      (nodeWith others other n scope) := by
  have hPlaced (placed : Prop) : c.strict = true → placed := by simp [hLenient]
  have hKept {signals : Bool} (opened : Nat) (value : Value) (h : c.Yields signals opened value) :
      c.Keeps opened value := (c.data opened).kept h (hPlaced _)
  cases n with
  | program body => exact c.program hEvaluate (hPlaced _) hScope
  | block body => exact c.weaken (c.block hEvaluate (hPlaced _) hScope) hKept
  | statement s => exact c.weaken (c.statement hEvaluate (hPlaced _) hScope) hKept
  | expression e => exact c.weaken (hEvaluate e scope known (hPlaced _) hScope) hKept

end Pairing

end Evaluation

end Tandem
