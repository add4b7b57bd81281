import Tandem.Builtin
import Tandem.Code
import Tandem.Host
import Tandem.Tree
/-!
The values that programs compute with. Integers, booleans, null and the built-in functions are
given by what they are; every other value carries a label, its identity. Hashes keep their entries
in the order in which their keys first came up.
-/
namespace Tandem

/-- A function body in instructions. The locals are the stack slots that a call reserves, those
of the parameters included. Their number has no bound here; added to a slot number, it is assumed
not to overflow a machine word. -/
structure CompiledFunction where
  code : Code
  locals : Nat
  parameters : Nat
  deriving DecidableEq, Repr, Inhabited

/-- What keys are told apart by: the kind of the key and its contents. -/
inductive HashKey where
  | integer (n : Int64)
  | boolean (b : Bool)
  | string (text : String)
  deriving DecidableEq

/-- A value that can stand as the key of a hash entry. -/
inductive Key where
  | integer (n : Int64)
  | boolean (b : Bool)
  | string (id : Label) (text : String)
  deriving DecidableEq

/-- Keys with the same contents count as one, whatever their identities. -/
def Key.hashKey : Key → HashKey
  | integer n => .integer n
  | boolean b => .boolean b
  | string _ text => .string text

inductive Value where
  | null
  | integer (n : Int64)
  | boolean (b : Bool)
  | string (id : Label) (text : String)
  | array (id : Label) (elements : List Value)
  | hash (id : Label) (entries : List (Key × Value))
  /-- A function of a program tree, with the scope in which it was written. -/
  | function (id : Label) (parameters : List String) (body : List Stmt) (scope : Nat)
  | builtin (b : Builtin)
  | error (id : Label) (message : String)
  /-- The signal that a statement has left its function or program with a value. -/
  | returning (value : Value)
  | compiled (id : Label) (function : CompiledFunction)
  /-- A compiled function with the free values that it captured. -/
  | closure (id : Label) (function : CompiledFunction) (free : List Value)

instance : Inhabited Value := ⟨.null⟩

def Key.toValue : Key → Value
  | integer n => .integer n
  | boolean b => .boolean b
  | string id text => .string id text

namespace Value

/-- The name of a value's type, as messages show it. -/
def typeName : Value → String
  | integer _ => "INTEGER"
  | boolean _ => "BOOLEAN"
  | string _ _ => "STRING"
  | null => "NULL"
  | array _ _ => "ARRAY"
  | hash _ _ => "HASH"
  | function _ _ _ _ => "FUNCTION"
  | builtin _ => "BUILTIN"
  | error _ _ => "ERROR"
  | returning _ => "RETURN_VALUE"
  | compiled _ _ => "COMPILED_FUNCTION"
  | closure _ _ _ => "CLOSURE"

/-- Null and false do not hold as a condition. Every other value does, zero and the empty string
included. -/
def isTruthy : Value → Bool
  | null => false
  | boolean b => b
  | _ => true

def isError : Value → Bool
  | error _ _ => true
  | _ => false

/-- The value that a return signal carries. Any other value is left as it is. -/
def unwrapReturn : Value → Value
  | returning value => value
  | value => value

def toKey? : Value → Option Key
  | integer n => some (.integer n)
  | boolean b => some (.boolean b)
  | string id text => some (.string id text)
  | _ => none

@[simp]
theorem toKey?_toValue (key : Key) : key.toValue.toKey? = some key := by
  cases key <;> rfl

theorem toValue_of_toKey? {value : Value} {key : Key} (h : value.toKey? = some key) :
    key.toValue = value := by
  cases value <;> simp [toKey?] at h <;> subst h <;> rfl

def hashKey? (value : Value) : Option HashKey := value.toKey?.map Key.hashKey

@[simp]
theorem hashKey?_toValue (key : Key) : key.toValue.hashKey? = some key.hashKey := by
  rw [hashKey?, toKey?_toValue, Option.map_some]

end Value

/-- Keys and values, in the order in which the keys first came up. -/
abbrev Entries := List (Key × Value)

namespace Entries

def find? (key : HashKey) : Entries → Option Value
  | [] => none
  | (k, value) :: rest => if k.hashKey = key then some value else find? key rest

/-- Stores a value under a key. A key that is there keeps its place and takes on the new form of
the key and the new value; any other goes to the end. -/
def insert (key : Key) (value : Value) : Entries → Entries
  | [] => [(key, value)]
  | (k, v) :: rest =>
    if k.hashKey = key.hashKey then (key, value) :: rest else (k, v) :: insert key value rest

/-- The entries after storing the given pairs one after the other. -/
def ofPairs (pairs : List (Key × Value)) : Entries :=
  pairs.foldl (fun entries (key, value) => insert key value entries) []

end Entries

end Tandem
