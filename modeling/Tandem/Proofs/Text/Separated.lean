import Tandem.Text.Paint
/-!
Reading texts back that were put together from parts. Parts that are free of the separator are found
again by splitting at it, so no two lists of such parts make the same text. The same goes for lines
without line feeds inside, and a number is found again behind the zeros that fill it up.
-/
namespace Tandem.Text

/-- The lines of a text, each of which ends in a line feed. What stands after the last line feed is
left out. -/
def linesOf (text : String) : List String :=
  (text.toList.splitOn '\n').dropLast.map String.ofList

def IsWord (text : String) : Prop := text.toList.all Char.isAlphanum = true

/-- No separator or line feed occurs in a word. -/
theorem IsWord.not_mem {text : String} (h : IsWord text) {c : Char}
    (hOther : c.isAlphanum = false) : c ∉ text.toList := by
  intro hMem
  rw [List.all_eq_true.mp h c hMem] at hOther
  cases hOther

theorem toList_separated (separator : String) (parts : List String) :
    (separated separator parts).toList =
      separator.toList.intercalate (parts.map String.toList) := by
  induction parts with
  | nil => rfl
  | cons part rest ih =>
      cases rest with
      | nil => exact List.intercalate_singleton.symm
      | cons next rest =>
          rw [separated, String.toList_append, String.toList_append, ih]
          exact List.intercalate_cons_cons.symm

def AnyLineFeed (texts : List String) : Prop := ∃ text ∈ texts, '\n' ∈ text.toList

@[simp]
theorem not_anyLineFeed_nil : ¬ AnyLineFeed [] := by
  rintro ⟨_, hText, _⟩
  exact List.not_mem_nil hText

@[simp]
theorem anyLineFeed_cons (text : String) (rest : List String) :
    AnyLineFeed (text :: rest) ↔ '\n' ∈ text.toList ∨ AnyLineFeed rest := by
  simp only [AnyLineFeed, List.mem_cons, exists_eq_or_imp]

@[simp]
theorem anyLineFeed_append (texts others : List String) :
    AnyLineFeed (texts ++ others) ↔ AnyLineFeed texts ∨ AnyLineFeed others := by
  simp only [AnyLineFeed, List.mem_append, or_and_right, exists_or]

/-- The separator brings no line feed in. -/
theorem lineFeed_mem_separated_iff {separator : String} (hSeparator : '\n' ∉ separator.toList)
    (parts : List String) : '\n' ∈ (separated separator parts).toList ↔ AnyLineFeed parts := by
  induction parts with
  | nil => simp [separated]
  | cons part rest ih =>
      rw [anyLineFeed_cons]
      cases rest with
      | nil => simp [separated]
      | cons next rest =>
          rw [separated, String.toList_append, String.toList_append, List.mem_append,
            List.mem_append, ih, or_iff_left hSeparator]

theorem splitOn_separated {separator : String} {c : Char} (hSeparator : separator.toList = [c])
    {parts : List String} (hNonempty : parts ≠ []) (hParts : ∀ part ∈ parts, c ∉ part.toList) :
    (separated separator parts).toList.splitOn c = parts.map String.toList := by
  rw [toList_separated, hSeparator]
  refine List.splitOn_intercalate c ?_ (mt List.map_eq_nil_iff.mp hNonempty)
  exact List.forall_mem_map.mpr hParts

/-- Only one list of parts that are free of the separator makes a given text. -/
theorem eq_of_separated_eq {separator : String} {c : Char} (hSeparator : separator.toList = [c])
    {parts others : List String} (hParts : parts ≠ []) (hOthers : others ≠ [])
    (hPartsFree : ∀ part ∈ parts, c ∉ part.toList) (hOthersFree : ∀ part ∈ others, c ∉ part.toList)
    (h : separated separator parts = separated separator others) : parts = others := by
  have hSplit := splitOn_separated hSeparator hParts hPartsFree
  rw [h, splitOn_separated hSeparator hOthers hOthersFree] at hSplit
  exact (List.map_inj_right fun _ _ => String.toList_injective).mp hSplit.symm

/-- Lines are parts with line feeds between them, if an empty part is added at the end. -/
theorem toList_ofLines (lines : List String) :
    (ofLines lines).toList = List.intercalate ['\n'] (lines.map String.toList ++ [[]]) := by
  induction lines with
  | nil => exact List.intercalate_singleton.symm
  | cons line rest ih =>
      have hMore : rest.map String.toList ++ [[]] ≠ [] := by simp
      rw [ofLines, String.toList_append, String.toList_append, ih, List.map_cons, List.cons_append,
        List.intercalate_cons_of_ne_nil hMore]
      rfl

/-- Lines without line feeds inside are found again. -/
theorem linesOf_ofLines {lines : List String} (h : ¬ AnyLineFeed lines) :
    linesOf (ofLines lines) = lines := by
  have hFree : ∀ chars ∈ lines.map String.toList ++ [[]], '\n' ∉ chars := by
    intro chars hChars
    rcases List.mem_append.mp hChars with hLine | hEmpty
    · obtain ⟨line, hIn, rfl⟩ := List.mem_map.mp hLine
      exact fun hFeed => h ⟨line, hIn, hFeed⟩
    · rw [List.mem_singleton.mp hEmpty]
      exact List.not_mem_nil
  have hSome : lines.map String.toList ++ [[]] ≠ [] := by simp
  rw [linesOf, toList_ofLines, List.splitOn_intercalate '\n' hFree hSome, List.dropLast_concat,
    List.map_map]
  exact (List.map_congr_left fun _ _ => String.ofList_toList).trans (List.map_id lines)

/-- As many lines as line feeds are found. -/
theorem length_linesOf (text : String) : (linesOf text).length = text.toList.count '\n' := by
  have hSplit (chars : List Char) : (chars.splitOn '\n').length = chars.count '\n' + 1 := by
    induction chars with
    | nil => rfl
    | cons c rest ih =>
        rw [List.splitOn_cons_eq_if_modifyHead, List.count_cons]
        split <;> simp [*]
  rw [linesOf, List.length_map, List.length_dropLast, hSplit, Nat.add_sub_cancel]

theorem count_ofLines (lines : List String) :
    (ofLines lines).toList.count '\n' =
      lines.length + (lines.flatMap String.toList).count '\n' := by
  induction lines with
  | nil => rfl
  | cons line rest ih =>
      have hFeed : "\n".toList.count '\n' = 1 := rfl
      rw [ofLines, String.toList_append, String.toList_append, List.count_append,
        List.count_append, ih, hFeed, List.length_cons, List.flatMap_cons, List.count_append]
      omega

/-- As many lines are found as were put together exactly if none of them has a line feed inside. -/
theorem length_linesOf_ofLines_iff (lines : List String) :
    (linesOf (ofLines lines)).length = lines.length ↔ ¬ AnyLineFeed lines := by
  rw [length_linesOf, count_ofLines, Nat.add_eq_left, List.count_eq_zero]
  simp [AnyLineFeed]

theorem toList_padded (width n : Nat) :
    (padded width n).toList =
      List.replicate (width - (Nat.toDigits 10 n).length) '0' ++ Nat.toDigits 10 n :=
  String.toList_ofList

theorem isWord_padded (width n : Nat) : IsWord (padded width n) := by
  refine List.all_eq_true.mpr fun c hDigit => ?_
  rw [toList_padded] at hDigit
  rcases List.mem_append.mp hDigit with hZero | hNumeral
  · rw [List.eq_of_mem_replicate hZero]
    rfl
  · have hIs : c.isDigit = true := Nat.isDigit_of_mem_toDigits (by decide) (by decide) hNumeral
    simp [Char.isAlphanum, hIs]

theorem ofDigitChars_zeros (count : Nat) :
    Nat.ofDigitChars 10 (List.replicate count '0') 0 = 0 := by
  induction count with
  | zero => rfl
  | succ count ih => exact ih

/-- The zeros before a number do not count. -/
theorem ofDigitChars_padded (width n : Nat) :
    Nat.ofDigitChars 10 (padded width n).toList 0 = n := by
  rw [toList_padded, Nat.ofDigitChars_append, ofDigitChars_zeros, Nat.ofDigitChars_ten_toDigits]

theorem padded_injective {width m n : Nat} (h : padded width m = padded width n) : m = n := by
  rw [← ofDigitChars_padded width m, h, ofDigitChars_padded]

/-- A number on its own has no zeros before it. -/
theorem toString_eq_padded (n : Nat) : toString n = padded 0 n := by
  rw [Nat.toString_eq_ofList_toDigits, padded, Nat.zero_sub]
  rfl

theorem isWord_toString (n : Nat) : IsWord (toString n) :=
  toString_eq_padded n ▸ isWord_padded 0 n

theorem toString_injective {m n : Nat} (h : toString m = toString n) : m = n := by
  rw [toString_eq_padded, toString_eq_padded] at h
  exact padded_injective h

end Tandem.Text
