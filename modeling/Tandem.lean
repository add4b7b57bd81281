import Tandem.Session
import Tandem.Text.Paint
import Tandem.Value.Detail
import Tandem.Proofs.Evaluation.Pairing
import Tandem.Proofs.Evaluation.Effects
import Tandem.Proofs.Evaluation.OwnScope
import Tandem.Proofs.Value.Contents
import Tandem.Proofs.Evaluation.Reach
import Tandem.Proofs.Evaluation.Placement
import Tandem.Proofs.Evaluation.SideBySide
import Tandem.Proofs.Evaluation.Scoping
import Tandem.Proofs.Scopes.History
import Tandem.Proofs.Evaluation.Growth
import Tandem.Proofs.Evaluation.Lookup
import Tandem.Proofs.Evaluation.Signals
import Tandem.Proofs.Evaluation.Failures
import Tandem.Proofs.Code.Operands
import Tandem.Proofs.Code.Walk
import Tandem.Proofs.Code.RoundTrip
import Tandem.Proofs.Code.Decoding
import Tandem.Proofs.Machine.Fetch
import Tandem.Proofs.Machine.Effect
import Tandem.Proofs.Machine.Recursion
import Tandem.Proofs.Machine.Verification
import Tandem.Proofs.Machine.Calls
import Tandem.Proofs.Machine.Bounds
import Tandem.Proofs.Machine.SideBySide
import Tandem.Proofs.Machine.Careful
import Tandem.Proofs.Machine.Clearing
import Tandem.Proofs.Machine.StaleSlots
import Tandem.Proofs.Tracing
import Tandem.Proofs.Translation.Fragment
import Tandem.Proofs.Translation.Data
import Tandem.Proofs.Translation.Evaluation
import Tandem.Proofs.Translation.Encoding
import Tandem.Proofs.Translation.Operations
import Tandem.Proofs.Translation.Execution
import Tandem.Proofs.Translation.Agreement
import Tandem.Proofs.Hashes
import Tandem.Proofs.Operators
import Tandem.Proofs.Evaluation.Host
import Tandem.Proofs.Evaluation.Output
import Tandem.Proofs.Evaluation.Sequence
import Tandem.Proofs.Machine.Relocation
import Tandem.Proofs.Machine.Concatenation
import Tandem.Proofs.Code.Reading
import Tandem.Proofs.Code.Emission
import Tandem.Proofs.Code.Patching
import Tandem.Proofs.Code.Misplacement
import Tandem.Proofs.Machine.Cursor
import Tandem.Proofs.Text.Separated
import Tandem.Proofs.Code.Listing
import Tandem.Proofs.Value.Equality
import Tandem.Proofs.Text.Quoted
import Tandem.Proofs.Tree.Names
import Tandem.Proofs.Code.Annotation
import Tandem.Proofs.Tree.Readback
import Tandem.Proofs.Machine.Room
import Tandem.Proofs.Fibonacci.Evaluation
import Tandem.Proofs.Fibonacci.Execution
