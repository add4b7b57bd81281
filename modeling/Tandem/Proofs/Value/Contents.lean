import Tandem.Proofs.Value.Parts
/-!
Looking into values. A program tree gets at the elements of arrays, at the values of hashes and at
the value that a return signal carries. What a compiled closure has captured is open to the machine
only, so every notion here can be read in two ways: with the captured values of closures, or
without them.
-/
namespace Tandem

namespace Value

/-- The values that a value holds directly. The captured values of a compiled closure count only if
`closures` says so. -/
def contents (closures : Bool) : Value → List Value
  | closure _ _ free => if closures then free else []
  | value => value.parts

/-- The one value is the other one or lies inside it, at any depth. -/
inductive Within (closures : Bool) (part : Value) : Value → Prop where
  | here : Within closures part part
  | inside {whole content : Value} (hContent : content ∈ whole.contents closures)
      (hPart : Within closures part content) : Within closures part whole

/-- The predicate holds of the value and of all values inside it. -/
def Everywhere (closures : Bool) (holds : Value → Prop) (value : Value) : Prop :=
  ∀ part, part.Within closures value → holds part

/-- A function inside the value was written in the scope, which it keeps. -/
def Captures (closures : Bool) (value : Value) (scope : Nat) : Prop :=
  ∃ id parameters body, (Value.function id parameters body scope).Within closures value

variable {closures : Bool} {holds : Value → Prop} {value : Value}

theorem Everywhere.here (h : value.Everywhere closures holds) : holds value := h value Within.here

theorem Everywhere.inside (h : value.Everywhere closures holds) :
    ∀ content ∈ value.contents closures, content.Everywhere closures holds :=
  fun _ hContent part hPart => h part (Within.inside hContent hPart)

theorem everywhere_intro (hHere : holds value)
    (hInside : ∀ content ∈ value.contents closures, content.Everywhere closures holds) :
    value.Everywhere closures holds := by
  intro part hPart
  cases hPart with
  | here => exact hHere
  | inside hContent hPart => exact hInside _ hContent part hPart

/-- Of a value that holds nothing else, it is enough to know the value. -/
theorem everywhere_of_contents_eq_nil (hHere : holds value)
    (hContents : value.contents closures = []) : value.Everywhere closures holds := by
  refine everywhere_intro hHere fun content hContent => ?_
  rw [hContents] at hContent
  cases hContent

theorem Everywhere.mono {weaker : Value → Prop} (h : value.Everywhere closures holds)
    (hWeaker : ∀ part, holds part → weaker part) : value.Everywhere closures weaker :=
  fun part hPart => hWeaker part (h part hPart)

/-- Values that are put together freely: plain data, arrays and hashes of whatever there is, and
the built-in functions. -/
def isData : Value → Bool
  | null | integer _ | boolean _ | string _ _ | array _ _ | hash _ _ | builtin _ => true
  | _ => false

end Value

end Tandem
