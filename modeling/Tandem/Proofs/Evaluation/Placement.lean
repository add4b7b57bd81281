import Tandem.Tree
/-!
Where returns stand. A return ends the statements it stands among, and a conditional hands the
signal on as its value. In most places that value goes on outward, but there are five in which a
value is kept: the right side of a binding, the value of another return, an argument, an element of
an array and the value of a hash entry. A tree is well placed if nothing that can hand on a signal
stands in such a place.
-/
namespace Tandem

mutual

/-- Whether evaluation of the expression can hand on a signal that was raised inside it. A call
takes signals off, and all other forms make values of their own. -/
def Expr.signals : Expr → Bool
  | .conditional _ consequence none => signalsAny consequence
  | .conditional _ consequence (some alternative) =>
    signalsAny consequence || signalsAny alternative
  | _ => false

/-- Whether the statement can raise a signal or hand one on. -/
def Stmt.signals : Stmt → Bool
  | .binding _ _ => false
  | .returning _ => true
  | .expression value => value.signals

def signalsAny : List Stmt → Bool
  | [] => false
  | s :: rest => s.signals || signalsAny rest

end

mutual

/-- Whether no signal can be raised in a place in which it would be kept, the bodies of functions
included. -/
def Expr.placed : Expr → Bool
  | .unary _ operand => operand.placed
  | .binary _ left right => left.placed && right.placed
  | .conditional condition consequence none => condition.placed && placedAll consequence
  | .conditional condition consequence (some alternative) =>
    condition.placed && placedAll consequence && placedAll alternative
  | .function _ body => placedAll body
  | .call callee arguments => callee.placed && keptAll arguments
  | .array elements => keptAll elements
  | .index object index => object.placed && index.placed
  | .hash pairs => keptPairs pairs
  | _ => true

def Stmt.placed : Stmt → Bool
  | .binding _ value => value.placed && !value.signals
  | .returning value => value.placed && !value.signals
  | .expression value => value.placed

def placedAll : List Stmt → Bool
  | [] => true
  | s :: rest => s.placed && placedAll rest

/-- The same for expressions whose values are kept. -/
def keptAll : List Expr → Bool
  | [] => true
  | e :: rest => e.placed && !e.signals && keptAll rest

/-- The same for the pairs of a hash literal, of which the values are kept. A signal can be no
key. -/
def keptPairs : List (Expr × Expr) → Bool
  | [] => true
  | (key, value) :: rest => key.placed && value.placed && !value.signals && keptPairs rest

end

namespace Expr

variable {condition : Expr} {consequence : List Stmt} {alternative : Option (List Stmt)}

theorem placed_of_conditional
    (h : (conditional condition consequence alternative).placed = true) :
    condition.placed = true ∧ placedAll consequence = true ∧
      ∀ body, alternative = some body → placedAll body = true := by
  cases alternative with
  | none => simpa [placed] using h
  | some body => simpa [placed, and_assoc] using h

theorem signals_of_consequence (h : signalsAny consequence = true) :
    (conditional condition consequence alternative).signals = true := by
  cases alternative <;> simp [signals, h]

theorem signals_of_alternative {body : List Stmt} (h : signalsAny body = true) :
    (conditional condition consequence (some body)).signals = true := by
  simp [signals, h]

end Expr

end Tandem
