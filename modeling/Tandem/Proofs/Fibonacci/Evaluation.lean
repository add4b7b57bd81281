import Tandem.Proofs.Evaluation.Sequence
import Tandem.Session
/-!
The Fibonacci function as a tree that calls itself. A call finds its argument in a scope of its own
and the function in the scope around that; it opens further scopes for the calls that it makes, but
changes none of those that are there. So the two calls inside a call do not get in each other's way,
and what a call gives follows by induction on the argument.
-/
namespace Tandem

/-- The Fibonacci numbers, where the numbers below two stand for themselves. -/
def fibonacci (n : Int) : Int := if n < 2 then n else fibonacci (n - 1) + fibonacci (n - 2)
termination_by n.toNat

theorem fibonacci_of_lt {n : Int} (h : n < 2) : fibonacci n = n := by
  rw [fibonacci, if_pos h]

theorem fibonacci_of_le {n : Int} (h : 2 ≤ n) :
    fibonacci n = fibonacci (n - 1) + fibonacci (n - 2) := by
  rw [fibonacci, if_neg (Int.not_lt.mpr h)]

def fibonacci64 (n : Int64) : Int64 := Int64.ofInt (fibonacci n.toInt)

theorem lt_two_iff {n : Int64} : n < 2 ↔ n.toInt < 2 := Int64.lt_iff_toInt_lt

theorem not_lt_two_iff {n : Int64} : ¬ n < 2 ↔ 2 ≤ n.toInt := by
  rw [lt_two_iff, Int.not_lt]

/-- An argument that is not below two can be made smaller without wrapping around. -/
theorem toInt_sub_of_not_lt {n k : Int64} (h : ¬ n < 2) (hPos : 0 ≤ k.toInt) (hLe : k.toInt ≤ 2) :
    (n - k).toInt = n.toInt - k.toInt := by
  have hLow : 2 ≤ n.toInt := not_lt_two_iff.mp h
  have hHigh : n.toInt < 2 ^ 63 := n.toInt_lt
  rw [Int64.toInt_sub]
  exact Int.bmod_eq_of_le (by omega) (by omega)

theorem fibonacci64_of_lt {n : Int64} (h : n < 2) : fibonacci64 n = n := by
  rw [fibonacci64, fibonacci_of_lt (lt_two_iff.mp h), Int64.ofInt_toInt]

/-- The recurrence holds for what is left after wrapping around, as addition wraps around too. -/
theorem fibonacci64_of_not_lt {n : Int64} (h : ¬ n < 2) :
    fibonacci64 n = fibonacci64 (n - 1) + fibonacci64 (n - 2) := by
  have hLow : 2 ≤ n.toInt := not_lt_two_iff.mp h
  have hOne : (n - 1).toInt = n.toInt - 1 := toInt_sub_of_not_lt h (by decide) (by decide)
  have hTwo : (n - 2).toInt = n.toInt - 2 := toInt_sub_of_not_lt h (by decide) (by decide)
  rw [fibonacci64, fibonacci64, fibonacci64, hOne, hTwo, fibonacci_of_le hLow, Int64.ofInt_add]

/-- The arguments of the two calls inside a call are smaller. -/
theorem toNat_sub_of_not_lt {n : Int64} (h : ¬ n < 2) :
    (n - 1).toInt.toNat + 1 = n.toInt.toNat ∧ (n - 2).toInt.toNat + 2 = n.toInt.toNat := by
  have hLow : 2 ≤ n.toInt := not_lt_two_iff.mp h
  have hOne : (n - 1).toInt = n.toInt - 1 := toInt_sub_of_not_lt h (by decide) (by decide)
  have hTwo : (n - 2).toInt = n.toInt - 2 := toInt_sub_of_not_lt h (by decide) (by decide)
  omega

/-! ## The program -/

/-- A call of the function with an argument that is smaller by `k`. -/
def fibonacciCall (k : Int64) : Expr :=
  .call (.identifier "fib") [.binary .subtract (.identifier "n") (.integer k)]

/-- The body of the function, which asks whether its argument is below two. -/
def fibonacciBody : List Stmt :=
  [.expression (.conditional (.binary .less (.identifier "n") (.integer 2))
    [.expression (.identifier "n")]
    (some [.expression (.binary .add (fibonacciCall 1) (fibonacciCall 2))]))]

def fibonacciProgram (n : Int64) : List Stmt :=
  [.binding "fib" (.function ["n"] fibonacciBody),
    .expression (.call (.identifier "fib") [.integer n])]

namespace Scopes

/-- All scopes that are there before are there after, as they were. -/
structure KeptIn (before after : Scopes) : Prop where
  size_le : before.all.size ≤ after.all.size
  agree : ∀ id < before.all.size, before.AgreeAt id after

variable {scopes others : Scopes} {name : String} {value : Value} {id outer scope : ScopeId}

theorem KeptIn.refl (scopes : Scopes) : scopes.KeptIn scopes :=
  ⟨Nat.le_refl _, fun id _ => AgreeAt.refl id scopes⟩

theorem KeptIn.trans {first second third : Scopes} (left : first.KeptIn second)
    (right : second.KeptIn third) : first.KeptIn third where
  size_le := Nat.le_trans left.size_le right.size_le
  agree := by
    intro id hId
    have hLeft := left.agree id hId
    have hRight := right.agree id (Nat.lt_of_lt_of_le hId left.size_le)
    exact ⟨hLeft.parent.trans hRight.parent,
      fun name => (hLeft.bound name).trans (hRight.bound name)⟩

theorem findWithin_of_bound? (h : scopes.bound? name id = some value) (depth : Nat) :
    findWithin name scopes depth id = some value := by
  cases depth with
  | zero => rw [findWithin_zero, h]
  | succ depth =>
      rw [findWithin_succ, h]
      rfl

/-- The scopes of a call with the argument `k`: one in which the argument is bound, inside one in
which the function is bound. -/
structure Calling (scopes : Scopes) (callee : Value) (outer scope : ScopeId) (k : Int64) :
    Prop where
  opened : scope < scopes.all.size
  inside : outer < scope
  argument : scopes.bound? "n" scope = some (.integer k)
  unbound : scopes.bound? "fib" scope = none
  parent : scopes.parent? scope = some outer
  function : scopes.bound? "fib" outer = some callee

variable {callee : Value} {k : Int64}

theorem Calling.kept (h : scopes.Calling callee outer scope k) (hKept : scopes.KeptIn others) :
    others.Calling callee outer scope k := by
  have hScope := hKept.agree scope h.opened
  have hOuter := hKept.agree outer (Nat.lt_trans h.inside h.opened)
  exact
    { opened := Nat.lt_of_lt_of_le h.opened hKept.size_le
      inside := h.inside
      argument := hScope.bound _ ▸ h.argument
      unbound := hScope.bound _ ▸ h.unbound
      parent := hScope.parent ▸ h.parent
      function := hOuter.bound _ ▸ h.function }

theorem Calling.find?_argument (h : scopes.Calling callee outer scope k) :
    scopes.find? "n" scope = some (.integer k) :=
  findWithin_of_bound? h.argument scope

theorem Calling.find?_function (h : scopes.Calling callee outer scope k) :
    scopes.find? "fib" scope = some callee := by
  obtain ⟨depth, rfl⟩ := Nat.exists_eq_succ_of_ne_zero (Nat.ne_of_gt (Nat.zero_lt_of_lt h.inside))
  rw [find?, findWithin_succ, h.unbound, h.parent, Option.none_or]
  exact findWithin_of_bound? h.function depth

/-- The scopes once a call has been opened and its argument bound. -/
def calling (outer : ScopeId) (k : Int64) (scopes : Scopes) : Scopes :=
  (scopes.openScope (some outer)).2.bind "n" (.integer k) scopes.all.size

theorem keptIn_calling (outer : ScopeId) (k : Int64) (scopes : Scopes) :
    scopes.KeptIn (scopes.calling outer k) where
  size_le := by simp [calling]
  agree := by
    intro id hId
    have hOld : id ≠ scopes.all.size := Nat.ne_of_lt hId
    constructor
    · rw [calling, parent?_bind, parent?_openScope, if_neg hOld]
    · intro name
      rw [calling, bound?_bind, if_neg fun h => hOld h.1, bound?_openScope]

theorem calling_calling (hOuter : outer < scopes.all.size)
    (hFunction : scopes.bound? "fib" outer = some callee) :
    (scopes.calling outer k).Calling callee outer scopes.all.size k where
  opened := by simp [calling]
  inside := hOuter
  argument := by simp [calling, bound?_bind]
  unbound := by
    rw [calling, bound?_bind, if_neg (by simp), bound?_openScope, bound?,
      Array.getElem?_eq_none (Nat.le_refl _)]
    rfl
  parent := by rw [calling, parent?_bind, parent?_openScope, if_pos rfl]
  function := by
    rw [← ((keptIn_calling outer k scopes).agree outer hOuter).bound]
    exact hFunction

end Scopes

/-! ## What evaluation gives -/

namespace Evaluation

variable {α β : Type} {settings : Settings} {evaluate : Evaluator} {scopes : Scopes}
  {scope : ScopeId}

/-- In every store that has kept the scopes, the evaluation gives the value, and it keeps all scopes
that it finds. -/
def Gives (x : Evaluation α) (scopes : Scopes) (value : α) : Prop :=
  ∀ store : Store, scopes.KeptIn store.scopes →
    ∃ after, x store = some (.ok value, after) ∧ store.scopes.KeptIn after.scopes

theorem gives_pure (value : α) : Gives (pure value) scopes value :=
  fun store _ => ⟨store, rfl, Scopes.KeptIn.refl _⟩

theorem Gives.bind {x : Evaluation α} {next : α → Evaluation β} {value : α} {result : β}
    (hFirst : Gives x scopes value) (hNext : Gives (next value) scopes result) :
    Gives (x >>= next) scopes result := by
  intro store hStore
  obtain ⟨middle, hMiddle, hKept⟩ := hFirst store hStore
  obtain ⟨after, hAfter, hKeptAfter⟩ := hNext middle (hStore.trans hKept)
  refine ⟨after, ?_, hKept.trans hKeptAfter⟩
  rw [bind_apply, hMiddle]
  exact hAfter

/-- A trace message touches nothing but the host. -/
theorem trace_apply_host (settings : Settings) (node : Node) (store : Store) :
    ∃ host, trace settings node store = some (.ok (), { store with host := host }) := by
  unfold trace
  split
  · exact ⟨_, rfl⟩
  · exact ⟨store.host, rfl⟩

theorem gives_trace (settings : Settings) (node : Node) :
    Gives (trace settings node) scopes () := by
  intro store _
  obtain ⟨host, hTrace⟩ := trace_apply_host settings node store
  exact ⟨_, hTrace, Scopes.KeptIn.refl _⟩

theorem gives_integer (n : Int64) :
    Gives (expressionWith settings evaluate (.integer n) scope) scopes (.integer n) :=
  (gives_trace settings _).bind (gives_pure _)

theorem gives_identifier {name : String} {value : Value}
    (h : ∀ others, scopes.KeptIn others → others.find? name scope = some value) :
    Gives (expressionWith settings evaluate (.identifier name) scope) scopes value := by
  have hIdentifier : Gives (identifier name scope) scopes value := by
    intro store hStore
    refine ⟨store, ?_, Scopes.KeptIn.refl _⟩
    rw [identifier_apply, h _ hStore]
  exact (gives_trace settings _).bind hIdentifier

theorem gives_binary {op : BinaryOp} {left right : Expr} {leftValue rightValue value : Value}
    (hLeft : Gives (evaluate left scope) scopes leftValue)
    (hRight : Gives (evaluate right scope) scopes rightValue)
    (hValue : binary leftValue op rightValue = pure value) :
    Gives (expressionWith settings evaluate (.binary op left right) scope) scopes value := by
  refine (gives_trace settings _).bind (hLeft.bind (hRight.bind ?_))
  rw [hValue]
  exact gives_pure value

theorem gives_statements (settings : Settings) {e : Expr} {n : Int64}
    (h : Gives (evaluate e scope) scopes (.integer n)) (last : Value) :
    Gives (statements settings evaluate scope [.expression e] last) scopes (.integer n) := by
  rw [statements_cons]
  exact ((gives_trace settings _).bind h).bind (gives_pure _)

theorem gives_block {e : Expr} {n : Int64} (h : Gives (evaluate e scope) scopes (.integer n)) :
    Gives (block settings evaluate [.expression e] scope) scopes (.integer n) :=
  (gives_trace settings _).bind (gives_statements settings h .null)

theorem gives_conditional {condition : Expr} {b : Bool} {consequence alternative : List Stmt}
    {value : Value} (hCondition : Gives (evaluate condition scope) scopes (.boolean b))
    (hBranch : Gives (block settings evaluate (if b then consequence else alternative) scope)
      scopes value) :
    Gives (expressionWith settings evaluate (.conditional condition consequence (some alternative))
      scope) scopes value := by
  refine (gives_trace settings _).bind (hCondition.bind ?_)
  cases b <;> exact hBranch

theorem gives_call {callee argument : Expr} {calleeValue argumentValue value : Value}
    (hCallee : Gives (evaluate callee scope) scopes calleeValue)
    (hArgument : Gives (evaluate argument scope) scopes argumentValue)
    (hApply : Gives (apply settings evaluate calleeValue [argumentValue]) scopes value) :
    Gives (expressionWith settings evaluate (.call callee [argument]) scope) scopes value := by
  have hArguments : Gives (expressions evaluate scope [argument]) scopes [argumentValue] :=
    hArgument.bind ((gives_pure []).bind (gives_pure _))
  exact (gives_trace settings _).bind (hCallee.bind (hArguments.bind hApply))

/-- The function, bound in the scope in which it was written, gives what its body gives in a scope
of its own. -/
theorem gives_apply {id : Label} {body : List Stmt} {outer : ScopeId} {k n : Int64}
    (hOuter : outer < scopes.all.size)
    (hFunction : scopes.bound? "fib" outer = some (.function id ["n"] body outer))
    (hBody : ∀ scopes scope,
      Scopes.Calling scopes (.function id ["n"] body outer) outer scope k →
      Gives (block settings evaluate body scope) scopes (.integer n)) :
    Gives (apply settings evaluate (.function id ["n"] body outer) [.integer k]) scopes
      (.integer n) := by
  intro store hStore
  have hOpen : outer < store.scopes.all.size := Nat.lt_of_lt_of_le hOuter hStore.size_le
  have hBound : store.scopes.bound? "fib" outer = some (.function id ["n"] body outer) := by
    rw [← (hStore.agree outer hOuter).bound, hFunction]
  obtain ⟨after, hAfter, hKept⟩ :=
    hBody _ _ (Scopes.calling_calling hOpen hBound)
      { store with scopes := store.scopes.calling outer k } (Scopes.KeptIn.refl _)
  refine ⟨after, ?_, (Scopes.keptIn_calling outer k store.scopes).trans hKept⟩
  show (openCall outer ["n"] [.integer k] >>= fun scope =>
    block settings evaluate body scope >>= fun value => pure value.unwrapReturn) store = _
  rw [bind_apply]
  show (block settings evaluate body store.scopes.all.size >>= fun value =>
    pure value.unwrapReturn) { store with scopes := store.scopes.calling outer k } = _
  rw [bind_apply, hAfter]
  rfl

/-- The body of the function, in enough steps, gives the Fibonacci number of the argument. The
induction is on the argument; both calls inside are evaluated in three steps less. -/
theorem gives_fibonacciBody (settings : Settings) {id : Label} {outer : ScopeId} (k : Int64)
    {steps : Nat} (hSteps : 3 * k.toInt.toNat + 5 ≤ steps) {scopes : Scopes} {scope : ScopeId}
    (hCalling : scopes.Calling (.function id ["n"] fibonacciBody outer) outer scope k) :
    Gives (block settings (expression settings steps) fibonacciBody scope) scopes
      (.integer (fibonacci64 k)) := by
  induction hArgument : k.toInt.toNat using Nat.strongRecOn generalizing k steps scopes scope with
  | ind argument ih =>
      obtain ⟨steps, rfl⟩ : ∃ more, steps = more + 5 := ⟨steps - 5, by omega⟩
      have hFindArgument : ∀ others, scopes.KeptIn others →
          others.find? "n" scope = some (.integer k) :=
        fun others hKept => (hCalling.kept hKept).find?_argument
      have hFindFunction : ∀ others, scopes.KeptIn others →
          others.find? "fib" scope = some (.function id ["n"] fibonacciBody outer) :=
        fun others hKept => (hCalling.kept hKept).find?_function
      have hCondition : Gives (expression settings (steps + 4)
          (.binary .less (.identifier "n") (.integer 2)) scope) scopes (.boolean (k < 2)) :=
        gives_binary (gives_identifier hFindArgument) (gives_integer 2) rfl
      refine gives_block (gives_conditional hCondition ?_)
      by_cases hLow : k < 2
      · rw [decide_eq_true hLow, if_pos rfl, fibonacci64_of_lt hLow]
        exact gives_block (gives_identifier hFindArgument)
      · rw [decide_eq_false hLow, if_neg Bool.false_ne_true, fibonacci64_of_not_lt hLow]
        obtain ⟨hOne, hTwo⟩ := toNat_sub_of_not_lt hLow
        have hCall : ∀ less : Int64, (k - less).toInt.toNat < k.toInt.toNat →
            Gives (expression settings (steps + 3) (fibonacciCall less) scope) scopes
              (.integer (fibonacci64 (k - less))) := by
          intro less hSmaller
          refine gives_call (gives_identifier hFindFunction)
            (gives_binary (gives_identifier hFindArgument) (gives_integer less) rfl) ?_
          refine gives_apply (Nat.lt_trans hCalling.inside hCalling.opened) hCalling.function ?_
          exact fun scopes scope hInner => ih _ (by omega) (k - less) (by omega) hInner rfl
        exact gives_block (gives_binary (hCall 1 (by omega)) (hCall 2 (by omega)) rfl)

theorem statement_function (settings : Settings) (steps : Nat) (name : String)
    (parameters : List String) (body : List Stmt) (scope : ScopeId) (store : Store) :
    ∃ id host,
      statement settings (expression settings (steps + 1))
          (.binding name (.function parameters body)) scope store =
        some (.ok .null,
          { scopes := store.scopes.bind name (.function id parameters body scope) scope
            host := host }) := by
  obtain ⟨traced, hTrace⟩ :=
    trace_apply_host settings (.statement (.binding name (.function parameters body))) store
  obtain ⟨host, hTraceFunction⟩ :=
    trace_apply_host settings (.expression (.function parameters body))
      { store with host := traced }
  refine ⟨host.freshLabel.1, host.freshLabel.2, ?_⟩
  rw [statement, bind_apply, hTrace]
  simp only [expression, expressionWith]
  rw [bind_apply, bind_apply, hTraceFunction]
  rfl

/-- The program finds its function in the scope in which it is run, and the rest is a call. -/
theorem program_fibonacciProgram (settings : Settings) (n : Int64) {steps : Nat}
    (hSteps : 3 * n.toInt.toNat + 6 ≤ steps) {scope : ScopeId} (store : Store)
    (hScope : scope < store.scopes.all.size) :
    ∃ after, program settings (expression settings steps) (fibonacciProgram n) scope store =
      some (.ok (.integer (fibonacci64 n)), after) := by
  obtain ⟨steps, rfl⟩ : ∃ more, steps = more + 1 := ⟨steps - 1, by omega⟩
  obtain ⟨traced, hTrace⟩ := trace_apply_host settings (.program (fibonacciProgram n)) store
  obtain ⟨id, host, hBinding⟩ :=
    statement_function settings steps "fib" ["n"] fibonacciBody scope { store with host := traced }
  let bound : Scopes :=
    store.scopes.bind "fib" (.function id ["n"] fibonacciBody scope) scope
  have hOpen : scope < bound.all.size := by
    rw [Scopes.size_bind]
    exact hScope
  have hBound : bound.bound? "fib" scope = some (.function id ["n"] fibonacciBody scope) := by
    rw [Scopes.bound?_bind, if_pos ⟨rfl, hScope, rfl⟩]
  have hFind : ∀ others, bound.KeptIn others →
      others.find? "fib" scope = some (.function id ["n"] fibonacciBody scope) := by
    intro others hKept
    refine Scopes.findWithin_of_bound? ?_ scope
    rw [← (hKept.agree scope hOpen).bound, hBound]
  have hCall : Gives
      (expression settings (steps + 1) (.call (.identifier "fib") [.integer n]) scope) bound
      (.integer (fibonacci64 n)) := by
    obtain ⟨steps, rfl⟩ : ∃ more, steps = more + 1 := ⟨steps - 1, by omega⟩
    refine gives_call (gives_identifier hFind) (gives_integer n) (gives_apply hOpen hBound ?_)
    exact fun scopes scope hCalling => gives_fibonacciBody settings n (by omega) hCalling
  obtain ⟨after, hAfter, _⟩ :=
    gives_statements settings hCall .null ⟨bound, host⟩ (Scopes.KeptIn.refl _)
  refine ⟨after, ?_⟩
  rw [program, bind_apply, hTrace]
  simp only
  rw [fibonacciProgram, programStatements_cons, bind_apply, hBinding]
  simp only [continueProgramWith]
  rw [programStatements_eq _ (by simp), bind_apply, hAfter]
  rfl

end Evaluation

/-- The program gives the Fibonacci number of its argument, whatever the store holds. -/
theorem runProgram_fibonacciProgram (settings : Settings) (n : Int64) (store : Store) {steps : Nat}
    (hSteps : 3 * n.toInt.toNat + 6 ≤ steps) :
    ∃ after, runProgram settings steps (fibonacciProgram n) store =
      some (.ok (.integer (fibonacci64 n)), after) := by
  have hScope : (store.scopes.openScope none).1 < (store.scopes.openScope none).2.all.size := by
    rw [Scopes.size_openScope]
    exact Nat.lt_succ_self _
  obtain ⟨after, hAfter⟩ :=
    Evaluation.program_fibonacciProgram settings n hSteps
      { store with scopes := (store.scopes.openScope none).2 } hScope
  refine ⟨after, ?_⟩
  simp only [runProgram, runProgramIn, Node.evaluate, Evaluation.node, Evaluation.nodeWith,
    hAfter]
  rfl

end Tandem
