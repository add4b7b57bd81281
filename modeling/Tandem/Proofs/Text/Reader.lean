import Tandem.Proofs.Text.Separated
/-!
Readers. A reader takes what it looks for off the front of a text and leaves the rest, or fails. A
reader for parts also reads lists of them, if no part goes on past the separator that follows it.
-/
namespace Tandem.Text

/-- A reader takes something off the front of a text and leaves the rest, or fails. -/
abbrev Reader (α : Type) := StateT (List Char) Option α

namespace Reader

variable {α β : Type}

/-- The reader takes `result` off the front of `input` and leaves `rest`. -/
def Reads (reader : Reader α) (input : List Char) (result : α) (rest : List Char) : Prop :=
  reader.run input = some (result, rest)

/-- A reader is a function, so it takes no more than one result off a text. -/
theorem Reads.unique {reader : Reader α} {input rest rest' : List Char} {result result' : α}
    (h : Reads reader input result rest) (h' : Reads reader input result' rest') :
    result = result' :=
  congrArg Prod.fst (Option.some.inj (h.symm.trans h'))

theorem reads_pure (result : α) (rest : List Char) : Reads (pure result) rest result rest := rfl

/-- Readers compose along the text that the first of them leaves. -/
theorem Reads.bind {first : Reader α} {next : α → Reader β} {input middle rest : List Char}
    {result : α} {result' : β} (hFirst : Reads first input result middle)
    (hNext : Reads (next result) middle result' rest) :
    Reads (first >>= next) input result' rest := by
  rw [Reads, StateT.run_bind, show first.run input = _ from hFirst]
  exact hNext

/-- Take off exactly what is expected. -/
def skip (expected : String) : Reader Unit := fun input =>
  if expected.toList <+: input then some ((), input.drop expected.toList.length) else none

theorem reads_skip (expected : String) (rest : List Char) :
    Reads (skip expected) (expected.toList ++ rest) () rest := by
  have hPrefix : expected.toList <+: expected.toList ++ rest := List.prefix_append _ _
  simp [Reads, skip, StateT.run, hPrefix]

/-- Take off `sign` and go on as `present` says, if `sign` stands in front; otherwise go on as
`absent` says. -/
def onSign (sign : String) (present absent : Reader α) : Reader α := fun input =>
  if sign.toList <+: input then present (input.drop sign.toList.length) else absent input

theorem reads_onSign_present (sign : String) {present absent : Reader α} {input rest : List Char}
    {result : α} (h : Reads present input result rest) :
    Reads (onSign sign present absent) (sign.toList ++ input) result rest := by
  have hPrefix : sign.toList <+: sign.toList ++ input := List.prefix_append _ _
  simpa [Reads, onSign, StateT.run, hPrefix] using h

/-- The sign must not stand in front even as part of what is to be read. -/
theorem reads_onSign_absent {sign : String} {present absent : Reader α} {input rest : List Char}
    {result : α} (hSign : ¬ sign.toList <+: input) (h : Reads absent input result rest) :
    Reads (onSign sign present absent) input result rest := by
  simpa [Reads, onSign, StateT.run, hSign] using h

/-- The text does not begin with a character of the kind. -/
def StopsAt (isPart : Char → Bool) (input : List Char) : Prop :=
  ∀ c ∈ input.head?, isPart c = false

/-- Take off all characters of a kind up to the first of another kind. -/
def span (isPart : Char → Bool) : Reader (List Char) := fun input =>
  some (input.takeWhile isPart, input.dropWhile isPart)

theorem StopsAt.takeWhile_eq_nil {isPart : Char → Bool} {input : List Char}
    (h : StopsAt isPart input) : input.takeWhile isPart = [] := by
  cases input with
  | nil => rfl
  | cons c rest => rw [List.takeWhile_cons, h c rfl, if_neg Bool.false_ne_true]

theorem StopsAt.dropWhile_eq {isPart : Char → Bool} {input : List Char}
    (h : StopsAt isPart input) : input.dropWhile isPart = input := by
  cases input with
  | nil => rfl
  | cons c rest => rw [List.dropWhile_cons, h c rfl, if_neg Bool.false_ne_true]

theorem stopsAt_cons {isPart : Char → Bool} {c : Char} {rest : List Char} (h : isPart c = false) :
    StopsAt isPart (c :: rest) := by
  intro first hFirst
  rw [← Option.some.inj hFirst]
  exact h

/-- What follows a text can make its first word longer only if it begins with a part of one. -/
theorem takeWhile_append_of_stopsAt {isPart : Char → Bool} (chars : List Char) {rest : List Char}
    (h : StopsAt isPart rest) : (chars ++ rest).takeWhile isPart = chars.takeWhile isPart := by
  induction chars with
  | nil => exact h.takeWhile_eq_nil
  | cons c chars ih => rw [List.cons_append, List.takeWhile_cons, List.takeWhile_cons, ih]

/-- A word is read back if what follows it cannot belong to it. -/
theorem reads_span {isPart : Char → Bool} {word rest : List Char}
    (hWord : ∀ c ∈ word, isPart c = true) (hStop : StopsAt isPart rest) :
    Reads (span isPart) (word ++ rest) word rest := by
  rw [Reads, StateT.run, span, List.takeWhile_append_of_pos hWord,
    List.dropWhile_append_of_pos hWord, hStop.takeWhile_eq_nil, hStop.dropWhile_eq,
    List.append_nil]

/-- Parts up to the first one that no separator follows, if there are at most `fuel` of them. -/
def parts (separator : String) (part : Reader α) : (fuel : Nat) → Reader (List α)
  | 0 => failure
  | fuel + 1 => do
    let first ← part
    onSign separator (do return first :: (← parts separator part fuel)) (return [first])

/-- A list is read back if each part is, both before a separator and at the end. The fuel only has
to reach for the number of parts. -/
theorem reads_parts {separator : String} {part : Reader α} {text : α → String}
    {items : List α} {rest : List Char} {fuel : Nat} (hItems : items ≠ [])
    (hPart : ∀ item ∈ items, ∀ after, after = rest ∨ separator.toList <+: after →
      Reads part ((text item).toList ++ after) item after)
    (hRest : ¬ separator.toList <+: rest) (hFuel : items.length ≤ fuel) :
    Reads (parts separator part fuel) ((separated separator (items.map text)).toList ++ rest)
      items rest := by
  induction items generalizing fuel with
  | nil => exact absurd rfl hItems
  | cons item items ih =>
      obtain ⟨hHere, hMore⟩ := List.forall_mem_cons.mp hPart
      cases fuel with
      | zero => exact absurd hFuel (Nat.not_succ_le_zero _)
      | succ fuel =>
          cases items with
          | nil =>
              refine (hHere rest (Or.inl rfl)).bind ?_
              exact reads_onSign_absent hRest (reads_pure _ _)
          | cons next items =>
              have hNext := ih (List.cons_ne_nil _ _) hMore (Nat.le_of_succ_le_succ hFuel)
              rw [List.map_cons, List.map_cons, separated, String.toList_append,
                String.toList_append, List.append_assoc, List.append_assoc]
              refine (hHere _ (Or.inr (List.prefix_append _ _))).bind ?_
              exact reads_onSign_present _ (hNext.bind (reads_pure _ _))

/-- Parts up to the sign that closes them, or another sign that stands for no parts. -/
def enclosed (empty close separator : String) (part : Reader α) (fuel : Nat) :
    Reader (List α) :=
  onSign empty (return []) do
    let items ← parts separator part fuel
    skip close
    return items

theorem reads_enclosed_nil (empty close separator : String) (part : Reader α) (fuel : Nat)
    (rest : List Char) :
    Reads (enclosed empty close separator part fuel) (empty.toList ++ rest) [] rest :=
  reads_onSign_present _ (reads_pure _ _)

theorem exists_separated_cons (separator part : String) (others : List String) :
    ∃ more, (separated separator (part :: others)).toList = part.toList ++ more := by
  cases others with
  | nil => exact ⟨[], (List.append_nil _).symm⟩
  | cons next others => exact ⟨_, by rw [separated, String.append_assoc, String.toList_append]⟩

/-- The first part must not be taken for the sign that stands for no parts, nor the closing sign for
a separator. -/
theorem reads_enclosed_cons {empty close separator : String} {part : Reader α} {text : α → String}
    {items : List α} {fuel : Nat} (hItems : items ≠ [])
    (hPart : ∀ item ∈ items, ∀ after, close.toList <+: after ∨ separator.toList <+: after →
      Reads part ((text item).toList ++ after) item after)
    (hOpen : ∀ item ∈ items, ∀ after, ¬ empty.toList <+: (text item).toList ++ after)
    (hClose : ∀ after, ¬ separator.toList <+: close.toList ++ after)
    (hFuel : items.length ≤ fuel) (rest : List Char) :
    Reads (enclosed empty close separator part fuel)
      ((separated separator (items.map text)).toList ++ (close.toList ++ rest)) items rest := by
  have hParts : Reads (parts separator part fuel)
      ((separated separator (items.map text)).toList ++ (close.toList ++ rest)) items
      (close.toList ++ rest) := by
    refine reads_parts hItems (fun item hItem after hAfter => ?_) (hClose rest) hFuel
    rcases hAfter with rfl | hSeparator
    · exact hPart item hItem _ (Or.inl (List.prefix_append _ _))
    · exact hPart item hItem after (Or.inr hSeparator)
  refine reads_onSign_absent ?_ (hParts.bind ((reads_skip close rest).bind (reads_pure _ _)))
  obtain ⟨item, others, rfl⟩ := List.exists_cons_of_ne_nil hItems
  obtain ⟨more, hMore⟩ := exists_separated_cons separator (text item) (others.map text)
  rw [List.map_cons, hMore, List.append_assoc]
  exact hOpen item List.mem_cons_self _

/-- If the closing sign alone stands for no parts, all lists are read alike. -/
theorem reads_enclosed {close separator : String} {part : Reader α} {text : α → String}
    {items : List α} {fuel : Nat}
    (hPart : ∀ item ∈ items, ∀ after, close.toList <+: after ∨ separator.toList <+: after →
      Reads part ((text item).toList ++ after) item after)
    (hOpen : ∀ item ∈ items, ∀ after, ¬ close.toList <+: (text item).toList ++ after)
    (hClose : ∀ after, ¬ separator.toList <+: close.toList ++ after)
    (hFuel : items.length ≤ fuel) (rest : List Char) :
    Reads (enclosed close close separator part fuel)
      ((separated separator (items.map text)).toList ++ (close.toList ++ rest)) items rest := by
  cases items with
  | nil => exact reads_enclosed_nil close close separator part fuel rest
  | cons item items =>
      exact reads_enclosed_cons (List.cons_ne_nil _ _) hPart hOpen hClose hFuel rest

end Reader

end Tandem.Text
