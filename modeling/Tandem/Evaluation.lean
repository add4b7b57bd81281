import Tandem.Builtin.Call
import Tandem.Evaluation.Operators
/-!
Evaluation of trees. Statements run in order; a return signal ends the block it stands in and goes
on outward, as a value, until a call or the program takes it off. Expressions are evaluated from
left to right and the first failure ends everything.

Calls may nest without end, so evaluation is given a number of steps, of which each level of
nested expressions takes one. Running out of them is kept apart from every result.
-/
namespace Tandem.Evaluation

/-- How an expression is evaluated in a scope. -/
abbrev Evaluator := Expr → ScopeId → Evaluation Value

/-- The value that a name stands for: the one bound to it, or else the built-in function of that
name. -/
def identifier (name : String) (scope : ScopeId) : Evaluation Value := do
  match (← get).scopes.find? name scope with
  | some value => return value
  | none =>
    match Builtin.ofName? name with
    | some b => return .builtin b
    | none => fail (.unknownIdentifier name)

theorem identifier_apply (name : String) (scope : ScopeId) (store : Store) :
    identifier name scope store =
      match store.scopes.find? name scope with
      | some value => some (.ok value, store)
      | none =>
        match Builtin.ofName? name with
        | some b => some (.ok (.builtin b), store)
        | none => (fail (.unknownIdentifier name) : Evaluation Value) store := by
  unfold identifier
  rw [bind_apply]
  show (match store.scopes.find? name scope with
    | some value => pure value
    | none => _ : Evaluation Value) store = _
  cases store.scopes.find? name scope with
  | some value => rfl
  | none => cases Builtin.ofName? name <;> rfl

section

variable (settings : Settings) (evaluate : Evaluator)

/-- A statement. Only a return gives a return signal of its own making. -/
def statement (s : Stmt) (scope : ScopeId) : Evaluation Value := do
  trace settings (.statement s)
  match s with
  | .binding name e =>
    let value ← evaluate e scope
    modify fun store => { store with scopes := store.scopes.bind name value scope }
    return .null
  | .returning e => return .returning (← evaluate e scope)
  | .expression e => evaluate e scope

/-- The statements of a block in order, up to the first that gives a return signal, which is handed
on. The result is that of the last statement that was run, or `last` if there is none. -/
def statements (scope : ScopeId) : List Stmt → (last : Value) → Evaluation Value
  | [], last => return last
  | s :: rest, _ => do
    match ← statement settings evaluate s scope with
    | .returning value => return .returning value
    | value => statements scope rest value

/-- A block. It opens no scope of its own. -/
def block (body : List Stmt) (scope : ScopeId) : Evaluation Value := do
  trace settings (.block body)
  statements settings evaluate scope body .null

/-- The statements of a program in order, up to the first that gives a return signal. The program
ends with what the signal carries. -/
def programStatements (scope : ScopeId) : List Stmt → (last : Value) → Evaluation Value
  | [], last => return last
  | s :: rest, _ => do
    match ← statement settings evaluate s scope with
    | .returning value => return value
    | value => programStatements scope rest value

/-- A program, which ends with the value that it returns. -/
def program (body : List Stmt) (scope : ScopeId) : Evaluation Value := do
  trace settings (.program body)
  programStatements settings evaluate scope body .null

/-- Expressions from left to right. -/
def expressions (scope : ScopeId) : List Expr → Evaluation (List Value)
  | [] => return []
  | e :: rest => do
    let value ← evaluate e scope
    let values ← expressions scope rest
    return value :: values

/-- The pairs of a hash literal in order. A key is checked before its value is evaluated. -/
def pairs (scope : ScopeId) : List (Expr × Expr) → Entries → Evaluation Entries
  | [], entries => return entries
  | (keyExpr, valueExpr) :: rest, entries => do
    let keyValue ← evaluate keyExpr scope
    match keyValue.toKey? with
    | none => fail (.unusableKey keyValue.typeName)
    | some key =>
      let value ← evaluate valueExpr scope
      pairs scope rest (entries.insert key value)

/-- Opens the scope of a call, inside the scope in which the function was written. -/
def openCall (outer : ScopeId) (parameters : List String) (arguments : List Value) :
    Evaluation ScopeId := do
  let store ← get
  let (scope, scopes) := store.scopes.openScope (some outer)
  set { store with scopes := scopes.bindAll (parameters.zip arguments) scope }
  return scope

def apply (callee : Value) (arguments : List Value) : Evaluation Value :=
  match callee with
  | .function _ parameters body outer => do
    if parameters.length ≠ arguments.length then
      fail (.wrongArity parameters.length arguments.length)
    else
      let scope ← openCall outer parameters arguments
      return (← block settings evaluate body scope).unwrapReturn
  | .builtin b => do check (← onHost (b.call arguments))
  | callee => fail (.notCallable callee.typeName)

/-- An expression, given how the expressions inside it and in the functions it calls are
evaluated. -/
def expressionWith (e : Expr) (scope : ScopeId) : Evaluation Value := do
  trace settings (.expression e)
  match e with
  | .integer n => return .integer n
  | .boolean b => return .boolean b
  | .string text => return .string (← freshLabel) text
  | .identifier name => identifier name scope
  | .unary op operand => unary op (← evaluate operand scope)
  | .binary op left right =>
    let leftValue ← evaluate left scope
    let rightValue ← evaluate right scope
    binary leftValue op rightValue
  | .conditional condition consequence alternative =>
    let value ← evaluate condition scope
    if value.isTruthy then block settings evaluate consequence scope
    else
      match alternative with
      | some body => block settings evaluate body scope
      | none => return .null
  | .function parameters body => return .function (← freshLabel) parameters body scope
  | .call callee arguments =>
    let calleeValue ← evaluate callee scope
    let values ← expressions evaluate scope arguments
    apply settings evaluate calleeValue values
  | .array elements =>
    let values ← expressions evaluate scope elements
    return .array (← freshLabel) values
  | .index object key =>
    let objectValue ← evaluate object scope
    let keyValue ← evaluate key scope
    index objectValue keyValue
  | .hash literal =>
    let entries ← pairs evaluate scope literal []
    return .hash (← freshLabel) entries

/-- Any node, given how expressions are evaluated. A program takes off the return signal that ends
it; any other node hands it on. -/
def nodeWith (n : Node) (scope : ScopeId) : Evaluation Value :=
  match n with
  | .program body => program settings evaluate body scope
  | .block body => block settings evaluate body scope
  | .statement s => statement settings evaluate s scope
  | .expression e => evaluate e scope

end

/-- An expression, in a number of steps. -/
def expression (settings : Settings) : (steps : Nat) → Evaluator
  | 0 => fun _ _ => outOfSteps
  | steps + 1 => expressionWith settings (expression settings steps)

def node (settings : Settings) (steps : Nat) : Node → ScopeId → Evaluation Value :=
  nodeWith settings (expression settings steps)

end Tandem.Evaluation

namespace Tandem

/-- Evaluates a node over a store. A failure becomes the error value that it stands for. The result
is missing if the evaluation runs out of steps. -/
def Node.evaluate (settings : Settings) (steps : Nat) (n : Node) (scope : ScopeId)
    (store : Store) : Option (Value × Store) :=
  match Evaluation.node settings steps n scope store with
  | none => none
  | some (.ok value, store) => some (value, store)
  | some (.error failure, store) => some (failure.toValue, store)

end Tandem
