import Tandem.Value
/-!
The two ways in which values are compared. Identity is what programs see: contents decide for
integers, booleans, null and built-in functions, labels for everything else. Equality of contents
is what the host sees: it looks into strings, arrays, hashes, errors and compiled functions, and
falls back to identity for functions and closures.
-/
namespace Tandem

namespace Value

/-- Whether two values are one and the same to a program. -/
def identical : Value → Value → Bool
  | integer a, integer b => a == b
  | boolean a, boolean b => a == b
  | null, null => true
  | string a _, string b _ => a == b
  | array a _, array b _ => a == b
  | hash a _, hash b _ => a == b
  | function a _ _ _, function b _ _ _ => a == b
  | builtin a, builtin b => a == b
  | error a _, error b _ => a == b
  | returning a, returning b => identical a b
  | compiled a _, compiled b _ => a == b
  | closure a _ _, closure b _ _ => a == b
  | _, _ => false

mutual

/-- Whether two values have the same contents. Hashes have if they are equally long and every
entry of the one is found in the other, in whatever order. -/
def same : Value → Value → Bool
  | string _ a, string _ b => a == b
  | array _ xs, array _ ys => sameElements xs ys
  | hash _ xs, hash _ ys => xs.length == ys.length && entriesWithin xs ys
  | error _ a, error _ b => a == b
  | returning a, returning b => same a b
  | compiled _ f, compiled _ g => f == g
  | a, b => identical a b

/-- Whether two lists of values have the same contents, place by place. -/
def sameElements : List Value → List Value → Bool
  | [], [] => true
  | x :: xs, y :: ys => same x y && sameElements xs ys
  | _, _ => false

/-- Whether every one of the entries is found among the others with the same contents. -/
def entriesWithin : List (Key × Value) → Entries → Bool
  | [], _ => true
  | (key, value) :: rest, others =>
    (match Entries.find? key.hashKey others with
      | some other => same value other
      | none => false) && entriesWithin rest others

end

instance : BEq Value := ⟨same⟩

end Value

end Tandem
