import Tandem.Proofs.Evaluation.Growth
/-!
Names are looked up outward. What a name stands for in a scope can be read off the history of all
scopes: it is what the name was bound to last, in the first scope on the way outward in which it was
ever bound, and the built-in function of that name only if there is no such scope. Evaluation adds
to the history what can be added to it anyway, so this holds at every point of an evaluation as
well.
-/
namespace Tandem

namespace Scopes

/-- The history, or one that goes on from it, can come about and leads to the scopes. -/
def ReachedFrom (history : List ScopeChange) (scopes : Scopes) : Prop :=
  ∃ later, Possible (later ++ history) ∧ scopes = ofHistory (later ++ history)

/-- What evaluation does to scopes can be added to their history. -/
theorem growthLaw_reachedFrom (history : List ScopeChange) : GrowthLaw (ReachedFrom history) where
  openScope := by
    rintro _ outer ⟨later, hPossible, rfl⟩ hOuter
    refine ⟨.opened (some outer) :: later, ⟨?_, hPossible⟩, rfl⟩
    rintro _ ⟨⟩
    exact hOuter
  bind := by
    rintro _ id value ⟨later, hPossible, rfl⟩ hOpen hValue name
    exact ⟨.bound name value id :: later, ⟨⟨hOpen, hValue⟩, hPossible⟩, rfl⟩
  bound := by
    rintro _ name id value ⟨later, hPossible, rfl⟩ hBound
    exact hPossible.capturesBelow hBound

end Scopes

namespace Evaluation

open Scopes

/-- What it comes to after a history to look names up in a scope. The chain lists the scope and those
around it, from the inside out. -/
structure LooksUpAlong (history : List ScopeChange) (id : ScopeId) (chain : List ScopeId) :
    Prop where
  /-- The scope has this chain and no other one, whatever happens later. -/
  chain_iff : ∀ later other, (ofHistory (later ++ history)).Chain id other ↔ other = chain
  /-- With no limit to its depth, the look-up ends as well, and with the same result. -/
  ends : ∀ name result,
    LooksUp name (ofHistory history) id result ↔ result = (ofHistory history).find? name id
  found : ∀ name value, (ofHistory history).find? name id = some value ↔
    ∃ home, Nearest history name chain home ∧ LastBound history name home value
  missing : ∀ name, (ofHistory history).find? name id = none ↔
    ∀ scope ∈ chain, NeverBound history name scope
  /-- A name that is bound once more stands for its new value if no nearer scope binds it. -/
  rebound : ∀ name value home, home < (ofHistory history).all.size →
    Nearest history name chain home →
    ((ofHistory history).bind name value home).find? name id = some value
  /-- Otherwise no look-up changes. -/
  unaffected : ∀ name other value home, home < (ofHistory history).all.size →
    ((ofHistory history).bind name value home).find? other id ≠
      (ofHistory history).find? other id →
    other = name ∧ Nearest history name chain home
  /-- An identifier gives what its name is bound to. -/
  identifier_of_bound : ∀ name home value store, store.scopes = ofHistory history →
    Nearest history name chain home → LastBound history name home value →
    identifier name id store = some (.ok value, store)
  /-- A name that is bound nowhere on the chain is that of a built-in function, or unknown. -/
  identifier_of_neverBound : ∀ name store, store.scopes = ofHistory history →
    (∀ scope ∈ chain, NeverBound history name scope) →
    identifier name id store =
      match Builtin.ofName? name with
      | some b => some (.ok (.builtin b), store)
      | none => (fail (.unknownIdentifier name) : Evaluation Value) store

section

variable {history : List ScopeChange} {id : ScopeId} {chain : List ScopeId}

theorem find?_eq_some_iff (h : Possible history) (hChain : (ofHistory history).Chain id chain)
    {name : String} {value : Value} :
    (ofHistory history).find? name id = some value ↔
      ∃ home, Nearest history name chain home ∧ LastBound history name home value := by
  rw [h.find?_eq hChain, List.findSome?_eq_some_iff]
  constructor
  · rintro ⟨nearer, home, further, hSplit, hValue, hNone⟩
    exact ⟨home, ⟨nearer, further, hSplit, fun scope hMem => neverBound_iff.mpr (hNone scope hMem)⟩,
      lastBound_iff.mpr hValue⟩
  · rintro ⟨home, ⟨nearer, further, hSplit, hNever⟩, hLast⟩
    exact ⟨nearer, home, further, hSplit, lastBound_iff.mp hLast,
      fun scope hScope => neverBound_iff.mp (hNever scope hScope)⟩

theorem find?_eq_none_iff (h : Possible history) (hChain : (ofHistory history).Chain id chain)
    {name : String} :
    (ofHistory history).find? name id = none ↔ ∀ scope ∈ chain, NeverBound history name scope := by
  rw [h.find?_eq hChain, List.findSome?_eq_none_iff]
  exact forall₂_congr fun scope _ => neverBound_iff.symm

theorem looksUpAlong_of_chain (h : Possible history) (hChain : (ofHistory history).Chain id chain) :
    LooksUpAlong history id chain where
  chain_iff := by
    intro later other
    constructor
    · exact (hChain.later later).eq
    · rintro rfl
      exact hChain.later later
  ends := by
    intro name result
    have hFound : LooksUp name (ofHistory history) id ((ofHistory history).find? name id) := by
      rw [hChain.find?_eq h.outer_lt name]
      exact hChain.looksUp name
    constructor
    · exact hFound.eq
    · rintro rfl
      exact hFound
  found := fun name value => find?_eq_some_iff h hChain
  missing := fun name => find?_eq_none_iff h hChain
  rebound := by
    intro name value home hHome hNearest
    rw [h.find?_bind hChain hHome]
    refine hNearest.findSome?_eq (if_pos ⟨rfl, rfl⟩) fun scope hOther hNever => ?_
    rw [if_neg fun hHere => hOther hHere.1]
    exact neverBound_iff.mp hNever
  unaffected := by
    intro name other value home hHome hChanged
    rw [h.find?_bind hChain hHome, h.find?_eq hChain] at hChanged
    by_cases hName : other = name
    · subst hName
      refine ⟨rfl, Classical.byContradiction fun hNearest => hChanged ?_⟩
      exact findSome?_eq_of_not_nearest hNearest fun scope hOther =>
        if_neg fun hHere => hOther hHere.1
    · exact absurd (congrArg (chain.findSome? ·)
        (funext fun scope => if_neg fun hHere => hName hHere.2)) hChanged
  identifier_of_bound := by
    intro name home value store hScopes hNearest hLast
    have hAnswer := identifier_apply name id store
    rw [hScopes, (find?_eq_some_iff h hChain).mpr ⟨home, hNearest, hLast⟩] at hAnswer
    exact hAnswer
  identifier_of_neverBound := by
    intro name store hScopes hNever
    have hAnswer := identifier_apply name id store
    rw [hScopes, (find?_eq_none_iff h hChain).mpr hNever] at hAnswer
    exact hAnswer

end

/-- How the evaluation of a node goes on with the history of the scopes. -/
structure AddsToHistory (history : List ScopeChange) (settings : Settings) (steps : Nat) (n : Node)
    (scope : ScopeId) (store : Store) : Prop where
  /-- All that it does to scopes, whether it fails or not, is one more part of a possible history.
  Its value can be bound in any scope that is open then. -/
  ends : ∀ outcome after, node settings steps n scope store = some (outcome, after) →
    ReachedFrom history after.scopes ∧
      ∀ value, outcome = .ok value → value.CapturesBelow after.scopes.all.size
  /-- The scopes have a possible history already when any expression is evaluated on the way:
  whatever passes for all of these can be tested there. -/
  along : ∀ test : ScopeId → Scopes → Bool,
    (∀ id scopes, ReachedFrom history scopes → id < scopes.all.size → test id scopes = true) →
    nodeWith settings (tested settings test steps) n scope store = node settings steps n scope store

/-- A function that reads `x` in the outermost scope. -/
def readsX : Value := .function (.object 0) [] [.expression (.identifier "x")] 0

/-- The outermost scope binds `x`, then `f`, and then `x` once more. Of the two scopes inside it the
first binds `x` as well. -/
def rebindings : List ScopeChange :=
  [.bound "x" (.integer 3) 1, .opened (some 0), .opened (some 0), .bound "x" (.integer 2) 0,
    .bound "f" readsX 0, .bound "x" (.integer 1) 0, .opened none]

theorem possible_rebindings : Possible rebindings := by
  have hInteger (n : Int64) (opened : Nat) : (Value.integer n).CapturesBelow opened :=
    (dataLaw_capturesBelow opened).plain rfl rfl
  have hFunction : readsX.CapturesBelow 1 :=
    Value.everywhere_of_contents_eq_nil (Value.writtenIn_function.mpr Nat.zero_lt_one) rfl
  have hInside : ∀ id, some 0 = some id → id < 1 := by
    rintro _ ⟨⟩
    exact Nat.zero_lt_one
  have hOutermost : ∀ id, (none : Option ScopeId) = some id → id < 0 := nofun
  exact ⟨⟨by decide, hInteger 3 _⟩, fun id hId => Nat.lt_succ_of_lt (hInside id hId), hInside,
    ⟨by decide, hInteger 2 _⟩, ⟨by decide, hFunction⟩, ⟨by decide, hInteger 1 _⟩, hOutermost, trivial⟩

/-- `let y = f()` -/
def bindsAnswer : Node := .statement (.binding "y" (.call (.identifier "f") []))

end Evaluation

end Tandem
