import Tandem.Proofs.Evaluation.SideBySide
/-!
Lexical scoping. What evaluation does depends on nothing that is bound in scopes that cannot be got
at from its own: two stores that differ in such scopes only lead to the same result, the same
output and the same new scopes. For a call it does not even matter from which scope it is made:
all that counts is what the function and the arguments have kept.
-/
namespace Tandem

/-- Two stores with the same scopes and the same host that agree on everything that can be got at
from the roots. Other scopes may bind whatever they like. -/
structure Store.AgreeFrom (closures : Bool) (roots : ScopeId → Prop) (first second : Store) :
    Prop where
  host : first.host = second.host
  size : first.scopes.all.size = second.scopes.all.size
  agree : ∀ id, Scopes.Reachable closures roots first.scopes id →
    first.scopes.AgreeAt id second.scopes

namespace Evaluation

/-- Two evaluations come out the same if neither has a result, or if both give the same value or
fail in the same way, leave the same host behind and have opened the same scopes. The stores still
agree on what can be got at, from a value that was given as well as from the roots. -/
inductive SameResult (closures : Bool) (roots : ScopeId → Prop) (opened : Nat) :
    Option (Except Failure Value × Store) → Option (Except Failure Value × Store) → Prop where
  | unfinished : SameResult closures roots opened none none
  | value {value : Value} {first second : Store}
      (hOpened : ∀ id, opened ≤ id → first.scopes.AgreeAt id second.scopes)
      (hAgree : first.AgreeFrom closures (fun id => roots id ∨ value.Captures closures id) second) :
      SameResult closures roots opened (some (.ok value, first)) (some (.ok value, second))
  | failure {failure : Failure} {first second : Store}
      (hOpened : ∀ id, opened ≤ id → first.scopes.AgreeAt id second.scopes)
      (hAgree : first.AgreeFrom closures roots second) :
      SameResult closures roots opened (some (.error failure, first))
        (some (.error failure, second))

end Evaluation

/-- Functions have to be written in the region, and that is all that is asked of values. -/
theorem dataLaw_writtenIn (region : ScopeId → Prop) :
    DataLaw false region (Value.Admitted (fun _ => True) region) :=
  dataLaw_within region (fun _ _ => trivial) (by simp) fun _ _ => trivial

section

variable {closures : Bool} {roots : ScopeId → Prop} {first second : Store}

/-- Stores that agree from the roots on are alike in the region that can be got at. -/
theorem Store.AgreeFrom.alike (h : first.AgreeFrom closures roots second) :
    Store.Alike closures (Scopes.regionFrom closures roots first.scopes)
      (Value.Admitted (fun _ => True) (Scopes.regionFrom closures roots first.scopes))
      first second where
  host := h.host
  size := h.size
  agree := by
    intro id hId
    rcases hId with hReachable | hUnopened
    · exact h.agree id hReachable
    · exact Scopes.AgreeAt.of_unopened hUnopened (h.size ▸ hUnopened)
  contained := Scopes.contained_regionFrom fun _ _ _ _ _ _ _ => trivial

namespace Evaluation

/-- What has been compared in the region from the start holds of all that can be got at in the
end. -/
theorem sameResult_of_beside {scopes : Scopes}
    {left right : Option (Except Failure Value × Store)}
    (h : Beside
      (Store.Alike closures (Scopes.regionFrom closures roots scopes)
        (Value.Admitted (fun _ => True) (Scopes.regionFrom closures roots scopes)))
      (Value.Everywhere closures
        (Value.Admitted (fun _ => True) (Scopes.regionFrom closures roots scopes)))
      left right) :
    SameResult closures roots scopes.all.size left right := by
  have hRoots : ∀ id, roots id → Scopes.regionFrom closures roots scopes id :=
    fun _ => Scopes.regionFrom_of_root
  cases h with
  | unfinished => exact SameResult.unfinished
  | value hValue hAlike =>
      refine SameResult.value (fun id hId => hAlike.agree id (Or.inr hId))
        ⟨hAlike.host, hAlike.size, fun id hReachable => hAlike.agree id ?_⟩
      refine hAlike.contained.of_reachable ?_ hReachable
      rintro root (hRoot | hCaptures)
      · exact hRoots root hRoot
      · exact hValue.region_of_captures hCaptures
  | failure hAlike =>
      exact SameResult.failure (fun id hId => hAlike.agree id (Or.inr hId))
        ⟨hAlike.host, hAlike.size, fun id hReachable =>
          hAlike.agree id (hAlike.contained.of_reachable hRoots hReachable)⟩

end Evaluation

end

namespace Evaluation

/-- Evaluation in a scope comes out the same in any two stores that agree on what can be got at
from that scope, and the stores agree on it afterwards. A call comes out the same in any two stores
that agree on what can be got at from the function and its arguments, so nothing that only the
caller or a scope further inside binds can make a difference. -/
theorem evaluation_depends_on_reachable_scopes (closures : Bool) (settings : Settings)
    (steps : Nat) :
    (∀ n scope first second, Store.AgreeFrom closures (· = scope) first second →
      SameResult closures (· = scope) first.scopes.all.size
        (node settings steps n scope first) (node settings steps n scope second)) ∧
    ∀ callee arguments first second,
      Store.AgreeFrom closures (fun id => ∃ value ∈ callee :: arguments, value.Captures closures id)
        first second →
      SameResult closures (fun id => ∃ value ∈ callee :: arguments, value.Captures closures id)
        first.scopes.all.size
        (apply settings (expression settings steps) callee arguments first)
        (apply settings (expression settings steps) callee arguments second) := by
  constructor
  · intro n scope first second hAgree
    have hScope : Scopes.regionFrom closures (· = scope) first.scopes scope :=
      Scopes.regionFrom_of_root rfl
    have hNode := (dataLaw_writtenIn _).node settings steps n hScope first second hAgree.alike
    exact sameResult_of_beside hNode
  · intro callee arguments first second hAgree
    have hValues : ∀ value ∈ callee :: arguments, value.Everywhere closures
        (Value.Admitted (fun _ => True) (Scopes.regionFrom closures
          (fun id => ∃ value ∈ callee :: arguments, value.Captures closures id) first.scopes)) := by
      intro value hValue
      have hTrivial : value.Everywhere closures fun _ => True := fun _ _ => trivial
      exact hTrivial.admitted fun id hCaptures =>
        Scopes.regionFrom_of_root ⟨value, hValue, hCaptures⟩
    have hApply := (dataLaw_writtenIn _).apply settings steps hValues first second hAgree.alike
    exact sameResult_of_beside hApply

/-- A function that reads `x` in the outermost scope. -/
def readOuter : Value := .function (.object 0) [] [.expression (.identifier "x")] 0

/-- The outermost scope binds `x` and `f`, and a scope inside it binds `x` to something else. -/
def shadowing (inner : Value) : Store :=
  { scopes :=
      { all := #[{ bindings := [("x", .integer 1), ("f", readOuter)] },
          { bindings := [("x", inner)], parent := some 0 }] }
    host := { labels := { objects := 2 } } }

/-- Scope 1 can be got at from no other scope. -/
theorem shadowing_agree (first second : Value) {roots : ScopeId → Prop}
    (hRoots : ∀ id, roots id → id ≠ 1) :
    Store.AgreeFrom true roots (shadowing first) (shadowing second) := by
  have hContained : (shadowing first).scopes.Contained true (· ≠ 1)
      (Value.Admitted (fun _ => True) (· ≠ 1)) := by
    refine Scopes.contained_outer rfl ?_
    simp only [List.forall_mem_cons]
    exact ⟨Value.everywhere_admitted_of_contents_eq_nil trivial (by rintro _ _ _ _ ⟨⟩) rfl,
      Value.everywhere_of_contents_eq_nil
        ⟨trivial, Value.writtenIn_function.mpr Nat.zero_ne_one⟩ rfl, by simp⟩
  refine ⟨rfl, rfl, fun id hReachable => ?_⟩
  have hNe : id ≠ 1 := hContained.of_reachable hRoots hReachable
  rcases id with _ | _ | id
  · exact ⟨rfl, fun _ => rfl⟩
  · exact absurd rfl hNe
  · exact Scopes.AgreeAt.of_unopened (Nat.le_add_left 2 id) (Nat.le_add_left 2 id)

/-- Whether the inner scope binds `x` to an integer or to a string, `f()` comes out the same. This
holds of the expression in the outermost scope and of the call from anywhere. -/
theorem call_ignores_shadowing :
    SameResult true (· = 0) 2
        (node {} 3 (.expression (.call (.identifier "f") [])) 0 (shadowing (.integer 2)))
        (node {} 3 (.expression (.call (.identifier "f") [])) 0
          (shadowing (.string (.object 1) "two"))) ∧
      SameResult true (fun id => ∃ value ∈ [readOuter], value.Captures true id) 2
        (apply {} (expression {} 3) readOuter [] (shadowing (.integer 2)))
        (apply {} (expression {} 3) readOuter [] (shadowing (.string (.object 1) "two"))) := by
  constructor
  · exact (evaluation_depends_on_reachable_scopes true {} 3).1 _ 0 (shadowing (.integer 2))
      (shadowing (.string (.object 1) "two"))
      (shadowing_agree _ _ fun id hId => by rw [hId]; exact Nat.zero_ne_one)
  · refine (evaluation_depends_on_reachable_scopes true {} 3).2 readOuter []
      (shadowing (.integer 2)) (shadowing (.string (.object 1) "two")) (shadowing_agree _ _ ?_)
    rintro id ⟨value, hValue, _, _, _, hCaptures⟩
    rw [List.mem_singleton.mp hValue] at hCaptures
    cases hCaptures with
    | here => exact Nat.zero_ne_one
    | inside hContent _ => cases hContent

end Evaluation

end Tandem
