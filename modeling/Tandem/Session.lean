import Tandem.Evaluation
import Tandem.Machine.Step
/-!
What a host asks for: a program run as a tree or a bundle of instructions run on the machine, once
or in a session. The scopes of one program and the globals of one bundle can be handed to the next.
Every run is given a number of steps and has no result if that is not enough.
-/
namespace Tandem

inductive RunError where
  | machine (cause : MachineError)
  /-- The run of a tree ended in an error value with this message. -/
  | evaluation (message : String)
  deriving DecidableEq, Repr

def RunError.message : RunError → String
  | machine cause => "Runtime error: " ++ cause.message
  | evaluation message => "Evaluation error: " ++ message

/-- The result of a program: its value, unless that is an error value. -/
def resultOfValue : Value → Except RunError Value
  | .error _ message => .error (.evaluation message)
  | value => .ok value

def runProgramIn (settings : Settings) (steps : Nat) (program : List Stmt) (scope : ScopeId)
    (store : Store) : Option (Except RunError Value × Store) :=
  ((Node.program program).evaluate settings steps scope store).map fun (value, store) =>
    (resultOfValue value, store)

def runProgram (settings : Settings) (steps : Nat) (program : List Stmt) (store : Store) :
    Option (Except RunError Value × Store) :=
  let (scope, scopes) := store.scopes.openScope none
  runProgramIn settings steps program scope { store with scopes := scopes }

namespace Bundle

/-- Runs a bundle over given globals. The results are the value popped last and the globals. -/
def runOver (settings : Settings) (steps : Nat) (bundle : Bundle) (globals : Slots)
    (host : Host) : Option (Except Stop (Value × Slots) × Host) :=
  ((Machine.load bundle globals host).run settings steps).map fun (outcome, m) =>
    (outcome.map fun _ => (m.lastPopped, m.globals), m.host)

/-- Runs a bundle over globals that all hold null. The result is the value popped last. -/
def run (settings : Settings) (steps : Nat) (bundle : Bundle) (host : Host) :
    Option (Except Stop Value × Host) :=
  (bundle.runOver settings steps { size := globalsSize } host).map fun (outcome, host) =>
    (outcome.map Prod.fst, host)

/-- Prints the listing of a bundle and a line under it, and then runs the bundle. A bundle that
cannot be listed is not run. -/
def runListed (settings : Settings) (steps : Nat) (bundle : Bundle) (host : Host) :
    Option (Except Stop Value × Host) :=
  match bundle.lines? with
  | none => some (.error .fault, host)
  | some lines =>
    bundle.run settings steps ((lines ++ ["---"]).foldl (fun host line => host.print line) host)

end Bundle

end Tandem
