import Tandem.Value
/-!
Scopes. Every scope holds the names bound in it and may lie inside another scope, which was there
before it. Names are looked up from the inside out and bound in the innermost scope only. Scopes
are shared: a function value keeps the scope in which it was written, and sees what is bound there
later.
-/
namespace Tandem

/-- A scope is known by its number. -/
abbrev ScopeId := Nat

/-- One scope: its own bindings, each name once, and the scope around it. -/
structure Scope where
  bindings : List (String × Value) := []
  parent : Option ScopeId := none
  deriving Inhabited

namespace Scope

/-- The value bound to a name in this very scope. -/
def find? (name : String) (scope : Scope) : Option Value := scope.bindings.lookup name

/-- Binds a name, in place of what it was bound to before. -/
def bind (name : String) (value : Value) (scope : Scope) : Scope :=
  { scope with
    bindings := (name, value) :: scope.bindings.filter fun binding => binding.1 != name }

@[simp]
theorem find?_bind_self (name : String) (value : Value) (scope : Scope) :
    (scope.bind name value).find? name = some value := by
  simp [bind, find?]

theorem find?_bind_of_ne {name other : String} (h : other ≠ name) (value : Value)
    (scope : Scope) : (scope.bind name value).find? other = scope.find? other := by
  have hHead : (other == name) = false := beq_eq_false_iff_ne.mpr h
  obtain ⟨bindings, parent⟩ := scope
  simp only [bind, find?, List.lookup_cons, hHead]
  induction bindings with
  | nil => rfl
  | cons binding rest ih =>
    obtain ⟨key, bound⟩ := binding
    by_cases hKey : key = name
    · subst hKey
      simpa [List.lookup_cons, hHead] using ih
    · by_cases hOther : other = key
      · subst hOther
        simp [hKey]
      · have hNext : (other == key) = false := beq_eq_false_iff_ne.mpr hOther
        simpa [List.lookup_cons, hKey, hNext] using ih

end Scope

/-- All scopes of a run, by number. -/
structure Scopes where
  all : Array Scope := #[]
  deriving Inhabited

namespace Scopes

/-- Opens a scope, which takes the next number. -/
def openScope (parent : Option ScopeId) (scopes : Scopes) : ScopeId × Scopes :=
  (scopes.all.size, { all := scopes.all.push { parent := parent } })

/-- Looks a name up in a scope and in at most `depth` scopes around it. -/
def findWithin (name : String) (scopes : Scopes) : (depth : Nat) → ScopeId → Option Value
  | depth, id =>
    match scopes.all[id]? with
    | none => none
    | some scope =>
      match scope.find? name, depth, scope.parent with
      | some value, _, _ => some value
      | none, depth + 1, some parent => findWithin name scopes depth parent
      | none, _, _ => none

/-- Looks a name up from the inside out. A scope lies inside earlier ones only, so there are at
most as many around it as its number says. -/
def find? (name : String) (id : ScopeId) (scopes : Scopes) : Option Value :=
  findWithin name scopes id id

def bind (name : String) (value : Value) (id : ScopeId) (scopes : Scopes) : Scopes :=
  { all := scopes.all.modify id (Scope.bind name value) }

/-- Binds names one after the other, so that of a name that is repeated the last value stays. -/
def bindAll (bindings : List (String × Value)) (id : ScopeId) (scopes : Scopes) : Scopes :=
  bindings.foldl (fun scopes (name, value) => scopes.bind name value id) scopes

end Scopes

end Tandem
