import Tandem.Builtin.Call
/-!
What values are made of. The parts of a value are the values that it holds directly; a predicate
that holds throughout a value holds of the value, of its parts, of their parts and so on. The
built-in functions put together values from their arguments and make nothing else but data.
-/
namespace Tandem

namespace Value

/-- The values that a value holds directly. The scope of a function is not among them. -/
def parts : Value → List Value
  | array _ elements => elements
  | hash _ entries => entries.map Prod.snd
  | returning value => [value]
  | closure _ _ free => free
  | _ => []

/-- Values are nested to a finite depth. -/
theorem sizeOf_lt_of_mem_parts {value part : Value} (h : part ∈ value.parts) :
    sizeOf part < sizeOf value := by
  cases value with
  | array id elements =>
      have hSize : sizeOf part < sizeOf elements := List.sizeOf_lt_of_mem h
      simp only [array.sizeOf_spec]
      omega
  | hash id entries =>
      obtain ⟨⟨key, value⟩, hEntry, rfl⟩ := List.mem_map.mp h
      have hSize := List.sizeOf_lt_of_mem hEntry
      simp only [hash.sizeOf_spec, Prod.mk.sizeOf_spec] at hSize ⊢
      omega
  | returning value =>
      rw [List.mem_singleton.mp h]
      simp only [returning.sizeOf_spec]
      omega
  | closure id function free =>
      have hSize : sizeOf part < sizeOf free := List.sizeOf_lt_of_mem h
      simp only [closure.sizeOf_spec]
      omega
  | _ => cases h

/-- The predicate holds of the value and of all values inside it, at any depth. -/
inductive Throughout (holds : Value → Prop) : Value → Prop where
  | intro {value : Value} (here : holds value)
      (inside : ∀ part ∈ value.parts, Throughout holds part) : Throughout holds value

theorem Throughout.here {holds : Value → Prop} {value : Value} (h : value.Throughout holds) :
    holds value := by
  cases h with
  | intro here inside => exact here

theorem Throughout.inside {holds : Value → Prop} {value : Value} (h : value.Throughout holds) :
    ∀ part ∈ value.parts, part.Throughout holds := by
  cases h with
  | intro here inside => exact inside

theorem Throughout.mono {holds weaker : Value → Prop}
    (hWeaker : ∀ value, holds value → weaker value) {value : Value}
    (h : value.Throughout holds) : value.Throughout weaker := by
  induction h with
  | @intro value here inside ih => exact Throughout.intro (hWeaker value here) ih

/-- Every value is made of parts, those of parts, and so on, to an end. -/
theorem throughout_true (value : Value) : value.Throughout fun _ => True :=
  Throughout.intro trivial fun part hPart => by
    have := sizeOf_lt_of_mem_parts hPart
    exact throughout_true part
termination_by sizeOf value

/-- Whether a value can be run by the machine or made into something that can. -/
def isCode : Value → Bool
  | compiled _ _ => true
  | closure _ _ _ => true
  | _ => false

/-- The predicate says nothing about values that are not code. -/
def AdmitsData (holds : Value → Prop) : Prop := ∀ value, value.isCode = false → holds value

variable {holds : Value → Prop}

theorem AdmitsData.throughout (hData : AdmitsData holds) {value : Value}
    (hCode : value.isCode = false) (hParts : value.parts = []) : value.Throughout holds := by
  refine Throughout.intro (hData value hCode) ?_
  rw [hParts]
  exact fun part hPart => absurd hPart List.not_mem_nil

theorem AdmitsData.null (hData : AdmitsData holds) : Value.null.Throughout holds :=
  hData.throughout rfl rfl

theorem AdmitsData.array (hData : AdmitsData holds) (id : Label) {elements : List Value}
    (h : ∀ element ∈ elements, element.Throughout holds) :
    (Value.array id elements).Throughout holds :=
  Throughout.intro (hData _ rfl) h

theorem AdmitsData.hash (hData : AdmitsData holds) (id : Label) {entries : Entries}
    (h : ∀ entry ∈ entries, entry.2.Throughout holds) :
    (Value.hash id entries).Throughout holds := by
  refine Throughout.intro (hData _ rfl) fun part hPart => ?_
  obtain ⟨entry, hEntry, rfl⟩ := List.mem_map.mp hPart
  exact h entry hEntry

theorem throughout_getD (hNull : Value.null.Throughout holds) {value? : Option Value}
    (h : ∀ value, value? = some value → value.Throughout holds) :
    (value?.getD .null).Throughout holds := by
  cases value? with
  | none => exact hNull
  | some value => exact h value rfl

end Value

namespace Entries

theorem exists_entry_of_find? {key : HashKey} {entries : Entries} {value : Value}
    (h : find? key entries = some value) :
    ∃ entry ∈ entries, entry.1.hashKey = key ∧ entry.2 = value := by
  induction entries with
  | nil => cases h
  | cons entry rest ih =>
      rw [find?] at h
      split at h
      · rename_i hKey
        cases h
        exact ⟨entry, List.mem_cons_self, hKey, rfl⟩
      · obtain ⟨other, hOther, hEntry⟩ := ih h
        exact ⟨other, List.mem_cons_of_mem _ hOther, hEntry⟩

theorem exists_mem_of_find? {key : HashKey} {entries : Entries} {value : Value}
    (h : find? key entries = some value) : ∃ entry ∈ entries, entry.2 = value := by
  obtain ⟨entry, hEntry, _, hValue⟩ := exists_entry_of_find? h
  exact ⟨entry, hEntry, hValue⟩

/-- Storing a value puts nothing else into a hash. -/
theorem mem_insert {key : Key} {value : Value} {entries : Entries} {entry : Key × Value}
    (h : entry ∈ insert key value entries) : entry = (key, value) ∨ entry ∈ entries := by
  induction entries with
  | nil => simpa [insert] using h
  | cons first rest ih =>
      rw [insert] at h
      split at h
      · rcases List.mem_cons.mp h with hNew | hRest
        · exact Or.inl hNew
        · exact Or.inr (List.mem_cons_of_mem _ hRest)
      · rcases List.mem_cons.mp h with hFirst | hRest
        · exact Or.inr (hFirst ▸ List.mem_cons_self)
        · exact (ih hRest).imp id (List.mem_cons_of_mem _)

end Entries

namespace Builtin

open Value

/-- What can come out of a built-in function: an error value, null or an integer, an element of an
array that it was given, or an array of such elements and of arguments. -/
inductive Answers (arguments : List Value) : Value → Prop where
  | error (id : Label) (message : String) : Answers arguments (.error id message)
  | null : Answers arguments .null
  | integer (n : Int64) : Answers arguments (.integer n)
  | element {id : Label} {elements : List Value} {value : Value}
      (hArray : Value.array id elements ∈ arguments) (hElement : value ∈ elements) :
      Answers arguments value
  | array (id : Label) {made : List Value}
      (hMade : ∀ element ∈ made, element ∈ arguments ∨
        ∃ id elements, Value.array id elements ∈ arguments ∧ element ∈ elements) :
      Answers arguments (.array id made)

theorem answers_getD {arguments : List Value} {value? : Option Value}
    (h : ∀ value, value? = some value → Answers arguments value) :
    Answers arguments (value?.getD .null) := by
  cases value? with
  | none => exact Answers.null
  | some value => exact h value rfl

/-- A built-in function hands out what it was given, what it finds inside of that, or something new
that holds nothing else. -/
theorem answers_call (b : Builtin) (arguments : List Value) (host : Host) :
    Answers arguments ((b.call arguments).run host).1 := by
  unfold call
  split
  · exact Answers.integer _
  · exact Answers.integer _
  · exact Answers.error _ _
  · exact Answers.null
  · exact answers_getD fun value hHead =>
      Answers.element List.mem_cons_self (List.mem_of_mem_head? hHead)
  · exact answers_getD fun value hLast =>
      Answers.element List.mem_cons_self (List.mem_of_getLast? hLast)
  · exact Answers.null
  · exact Answers.array _ fun element hMem =>
      Or.inr ⟨_, _, List.mem_cons_self, List.mem_cons_of_mem _ hMem⟩
  · refine Answers.array _ fun element hMem => ?_
    rcases List.mem_append.mp hMem with hOld | hNew
    · exact Or.inr ⟨_, _, List.mem_cons_self, hOld⟩
    · rw [List.mem_singleton.mp hNew]
      exact Or.inl (List.mem_cons_of_mem _ List.mem_cons_self)
  all_goals exact Answers.error _ _

variable {holds : Value → Prop}

/-- What holds throughout the arguments and of all data holds throughout the answer. -/
theorem throughout_call (hData : AdmitsData holds) (b : Builtin) {arguments : List Value}
    (h : ∀ argument ∈ arguments, argument.Throughout holds) (host : Host) :
    ((b.call arguments).run host).1.Throughout holds := by
  have hAnswer := b.answers_call arguments host
  generalize ((b.call arguments).run host).1 = answer at hAnswer
  cases hAnswer with
  | error id message => exact hData.throughout rfl rfl
  | null => exact hData.null
  | integer n => exact hData.throughout rfl rfl
  | element hArray hElement => exact (h _ hArray).inside _ hElement
  | array id hMade =>
      refine hData.array id fun element hElement => ?_
      rcases hMade element hElement with hArgument | ⟨_, _, hArray, hInside⟩
      · exact h element hArgument
      · exact (h _ hArray).inside element hInside

end Builtin

end Tandem
