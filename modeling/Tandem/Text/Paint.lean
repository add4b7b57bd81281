/-!
Texts as they are laid out: parts with a separator between each two, lines that each end in a line
feed, numbers filled up with zeros, and colour on a terminal. A painted text starts by switching its
colour on and ends by switching all colours off.
-/
namespace Tandem.Text

/-- The parts in order, with `separator` between each two of them. -/
def separated (separator : String) : List String → String
  | [] => ""
  | [part] => part
  | part :: next :: rest => part ++ separator ++ separated separator (next :: rest)

/-- The lines in order, each one followed by a line feed. -/
def ofLines : List String → String
  | [] => ""
  | line :: rest => line ++ "\n" ++ ofLines rest

/-- A number in decimal, filled up with leading zeros to at least `width` digits. -/
def padded (width n : Nat) : String :=
  let digits := Nat.toDigits 10 n
  String.ofList (List.replicate (width - digits.length) '0' ++ digits)

/-- The colours that trace messages are painted in. -/
inductive Paint where
  | green
  | cyan
  deriving DecidableEq, Repr

namespace Paint

def reset : String := "\x1b[0m"

def start : Paint → String
  | green => "\x1b[32m"
  | cyan => "\x1b[36m"

/-- Paints a whole text. A reset inside the text would end the colour early, so the colour is
switched on again after each one. -/
def apply (paint : Paint) (text : String) : String :=
  paint.start ++ text.replace reset (reset ++ paint.start) ++ reset

end Paint

end Tandem.Text
