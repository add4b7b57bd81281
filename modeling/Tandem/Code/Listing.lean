import Tandem.Code.Scan
import Tandem.Value.Printer
/-!
Listings of instruction streams: one line for each instruction, with its offset, its name and its
operands. Where a constant pool is at hand, an instruction that names one of its entries is
followed by a short form of that entry in parentheses.
-/
namespace Tandem

open Text (ofLines padded quoted separated)

/-- What an engine of instructions is given to run: a top-level stream and the constant pool. -/
structure Bundle where
  code : Code := {}
  constants : List Value := []
  deriving Inhabited

/-- The short form of a pool entry. Of a string longer than twenty characters it holds the first
twenty as they are. -/
def Value.brief : Value → String
  | string _ text =>
    if text.length > 20 then "\"" ++ String.ofList (text.toList.take 20) ++ "...\"" else quoted text
  | compiled _ f => "<compiled fn/" ++ toString f.parameters ++ ">"
  | value => value.text

namespace Code

def Entry.plainLine (entry : Entry) : String :=
  padded 4 entry.offset ++ " " ++
    match entry.item with
    | .unknown byte => "Unknown opcode " ++ toString byte.toNat
    | .instruction op operands => separated " " (op.name :: operands.map fun n => toString n)

/-- The pool entry that an item names, if it names one that is there. -/
def Item.constant? (pool : List Value) : Item → Option Value
  | .instruction .constant (index :: _) => pool[index]?
  | .instruction .closure (index :: _) => pool[index]?
  | _ => none

/-- The line of an item, with the pool entry that it names. -/
def Entry.line (pool : List Value) (entry : Entry) : String :=
  match entry.item.constant? pool with
  | some value => entry.plainLine ++ " (" ++ value.brief ++ ")"
  | none => entry.plainLine

/-- The lines of a stream without a pool, unless the last instruction is cut short. -/
def plainLines? (code : Code) : Option (List String) :=
  code.scan?.map fun entries => entries.map Entry.plainLine

/-- The lines of a stream over a pool, unless the last instruction is cut short. -/
def lines? (pool : List Value) (code : Code) : Option (List String) :=
  code.scan?.map fun entries => entries.map (Entry.line pool)

def listing? (code : Code) : Option String := code.plainLines?.map ofLines

end Code

namespace Bundle

/-- The heading over a pool entry that is a compiled function. -/
def functionHeading (index : Nat) (function : CompiledFunction) : String :=
  "== constant " ++ toString index ++ " (params: " ++ toString function.parameters
    ++ ", locals: " ++ toString function.locals ++ ") =="

/-- The lines of the compiled functions among the pool entries from place `index` on. Each one
follows an empty line and a heading. -/
def functionLines? (pool : List Value) (index : Nat) : List Value → Option (List String)
  | [] => some []
  | .compiled _ f :: rest => do
    let body ← f.code.lines? pool
    let others ← functionLines? pool (index + 1) rest
    return "" :: functionHeading index f :: body ++ others
  | _ :: rest => functionLines? pool (index + 1) rest

/-- The lines of a whole bundle: the top-level stream, then every compiled function of the pool. -/
def lines? (bundle : Bundle) : Option (List String) := do
  let main ← bundle.code.lines? bundle.constants
  let functions ← functionLines? bundle.constants 0 bundle.constants
  return "== <main> ==" :: main ++ functions

def listing? (bundle : Bundle) : Option String := bundle.lines?.map ofLines

end Bundle

end Tandem
