/-!
What a run has to do with the world around it: the settings that it follows, the labels that it
gives out and the lines that it prints. Both engines work on the same record, so a host can hand it
from one run to the next.

Strings, arrays, hashes, functions and errors have an identity of their own: two of them may hold
the same contents and still be told apart. The identity is a label that is given out once, when the
value comes into being, and travels with every copy of it.
-/
namespace Tandem

namespace Text

/-- Whether `c` is white space in the sense of the character property of that name. The
information separators `U+001C` to `U+001F` and the joiners of zero width are not. -/
def isBlank (c : Char) : Bool :=
  let n := c.toNat
  (0x9 ≤ n && n ≤ 0xd) || n == 0x20 || n == 0x85 || n == 0xa0 || n == 0x1680
    || (0x2000 ≤ n && n ≤ 0x200a) || n == 0x2028 || n == 0x2029 || n == 0x202f
    || n == 0x205f || n == 0x3000

def trimmed (text : String) : String :=
  let fromStart := text.toList.dropWhile isBlank
  String.ofList (fromStart.reverse.dropWhile isBlank).reverse

end Text

structure Settings where
  /-- Whether a message is written for every node evaluated and every instruction executed. -/
  trace : Bool := false
  deriving DecidableEq, Repr, Inhabited

namespace Settings

/-- Whether a flag of the surroundings is switched on: it reads `1`, `true`, `yes` or `on`, in
upper or lower case, blanks at either end aside. Only ASCII letters have a case here. -/
def isOn (flag : String) : Bool :=
  ["1", "true", "yes", "on"].contains (Text.trimmed flag).toLower

def ofFlag (flag : Option String) : Settings := { trace := flag.any isOn }

end Settings

inductive Label where
  /-- A value made in the course of a run, or by the host. -/
  | object (n : Nat)
  /-- The closure around the top-level stream of a machine. These are counted on their own, so
  that loading one more stream leaves the labels of all other values as they are. -/
  | program (n : Nat)
  deriving DecidableEq, Repr, Inhabited

/-- What is left of the labels: every number from these on is still unused. -/
structure Supply where
  objects : Nat := 0
  programs : Nat := 0
  deriving DecidableEq, Repr, Inhabited

namespace Supply

/-- A label for a new value, and the supply without it. -/
def takeObject (supply : Supply) : Label × Supply :=
  (.object supply.objects, { supply with objects := supply.objects + 1 })

/-- A label for a newly loaded top-level stream, and the supply without it. -/
def takeProgram (supply : Supply) : Label × Supply :=
  (.program supply.programs, { supply with programs := supply.programs + 1 })

end Supply

structure Host where
  labels : Supply := {}
  /-- The lines printed by the program, in order. -/
  printed : Array String := #[]
  /-- The trace messages, in order. -/
  traced : Array String := #[]
  deriving Inhabited

namespace Host

def print (line : String) (host : Host) : Host :=
  { host with printed := host.printed.push line }

def trace (message : String) (host : Host) : Host :=
  { host with traced := host.traced.push message }

def freshLabel : StateM Host Label := fun host =>
  let (label, labels) := host.labels.takeObject
  (label, { host with labels := labels })

/-- The label of a newly loaded top-level stream. -/
def freshProgram : StateM Host Label := fun host =>
  let (label, labels) := host.labels.takeProgram
  (label, { host with labels := labels })

end Host

end Tandem
