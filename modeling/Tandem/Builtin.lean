/-!
The names and the order of the built-in functions. Bytecode refers to them by their place in this
order, programs by their name.
-/
namespace Tandem

/-- The built-in functions, in the order in which bytecode counts them. -/
inductive Builtin where
  /-- The length of a string in bytes, or of an array in elements. -/
  | len
  /-- Print each argument on a line of its own. -/
  | puts
  | first
  | last
  /-- An array without its first element. -/
  | rest
  /-- An array with one more element at its end. -/
  | push
  deriving DecidableEq, Repr, Inhabited

namespace Builtin

def all : List Builtin := [len, puts, first, last, rest, push]

def name : Builtin → String
  | len => "len"
  | puts => "puts"
  | first => "first"
  | last => "last"
  | rest => "rest"
  | push => "push"

def ofName? (name : String) : Option Builtin := all.find? fun b => b.name == name

def ofIndex? (index : Nat) : Option Builtin := all[index]?

end Builtin

end Tandem
