import Tandem.Host
import Tandem.Scopes
import Tandem.Text.Paint
import Tandem.Tree.Printer
/-!
The setting in which trees are evaluated: the store that evaluation works on, the ways in which it
fails and the trace that it leaves.
-/
namespace Tandem

/-- Why the evaluation of a tree fails. The names are those of value types. -/
inductive EvaluationError where
  | unknownIdentifier (name : String)
  | unknownUnary (op : UnaryOp) (operand : String)
  /-- The operands are of different types. -/
  | typeMismatch (left : String) (op : BinaryOp) (right : String)
  /-- The operands are of one type, but the operator does not work on it. -/
  | unknownBinary (left : String) (op : BinaryOp) (right : String)
  | divisionByZero
  | wrongArity (want got : Nat)
  | notCallable (typeName : String)
  | notIndexable (typeName : String)
  | unusableKey (typeName : String)
  deriving DecidableEq, Repr

def EvaluationError.message : EvaluationError → String
  | unknownIdentifier name => "identifier not found: " ++ name
  | unknownUnary op operand => "unknown operator: " ++ op.text ++ operand
  | typeMismatch left op right => "type mismatch: " ++ left ++ " " ++ op.text ++ " " ++ right
  | unknownBinary left op right => "unknown operator: " ++ left ++ " " ++ op.text ++ " " ++ right
  | divisionByZero => "division by zero"
  | wrongArity want got =>
    "wrong number of arguments: want=" ++ toString want ++ ", got=" ++ toString got
  | notCallable typeName => "not a function: " ++ typeName
  | notIndexable typeName => "index operator not supported: " ++ typeName
  | unusableKey typeName => "unusable as hash key: " ++ typeName

/-- What evaluation reads and changes. -/
structure Store where
  scopes : Scopes := {}
  host : Host := {}
  deriving Inhabited

/-- An error on its way to the host: what is left of an error value once it stops being data. -/
structure Failure where
  id : Label
  message : String
  deriving DecidableEq, Repr

def Failure.toValue (failure : Failure) : Value := .error failure.id failure.message

@[simp]
theorem Failure.isError_toValue (failure : Failure) : failure.toValue.isError = true := rfl

/-- An evaluation over a store. It may run out of steps, which is no result at all; otherwise it
gives a value or fails, and in both cases leaves a store behind. -/
abbrev Evaluation (α : Type) := ExceptT Failure (StateT Store Option) α

namespace Evaluation

/-- One evaluation after another: the second starts from the store of the first, and only if the
first gave a value. -/
theorem bind_apply {α β : Type} (first : Evaluation α) (next : α → Evaluation β)
    (store : Store) :
    (first >>= next) store =
      match first store with
      | none => none
      | some (.ok value, after) => next value after
      | some (.error failure, after) => some (.error failure, after) := by
  show Option.bind (first store) _ = _
  cases h : first store with
  | none => rfl
  | some answer =>
    obtain ⟨outcome, after⟩ := answer
    cases outcome <;> rfl

@[simp]
theorem pure_apply {α : Type} (value : α) (store : Store) :
    (pure value : Evaluation α) store = some (.ok value, store) := rfl

def tracePaint : Text.Paint := .green

def outOfSteps {α : Type} : Evaluation α := fun _ => none

def onHost {α : Type} (action : StateM Host α) : Evaluation α := do
  let store ← get
  let (result, host) := action.run store.host
  set { store with host := host }
  return result

def freshLabel : Evaluation Label := onHost Host.freshLabel

def fail {α : Type} (cause : EvaluationError) : Evaluation α := do
  throw ⟨← freshLabel, cause.message⟩

/-- A failure changes nothing but the labels that are left. -/
theorem fail_apply {α : Type} (cause : EvaluationError) (store : Store) :
    (fail cause : Evaluation α) store =
      some (.error ⟨store.host.labels.takeObject.1, cause.message⟩,
        { store with host := { store.host with labels := store.host.labels.takeObject.2 } }) := rfl

/-- Turns an error value into a failure. Any other value is left as it is. -/
def check : Value → Evaluation Value
  | .error id message => throw ⟨id, message⟩
  | value => return value

/-- Writes the trace message of a node that is about to be evaluated. -/
def trace (settings : Settings) (node : Node) : Evaluation Unit := do
  if settings.trace then
    onHost (modify (Host.trace ("EVAL " ++ node.kind ++ ": " ++ node.text)))

@[simp]
theorem trace_off (node : Node) (store : Store) :
    trace { trace := false } node store = some (.ok (), store) := rfl

end Evaluation

end Tandem
