import Tandem.Text.Quoted
/-!
Quoted text is one line, and it can be read back. What stands for a character is either the
character itself or begins with a backslash, so each one is read without looking further than to its
end, and the quotation mark that closes the text is the first one that stands for itself.
-/
namespace Tandem.Text

theorem exists_digit_of_mem_toDigits {n : Nat} {c : Char} (h : c ∈ Nat.toDigits 16 n) :
    ∃ digit < 16, c = Nat.digitChar digit := by
  induction n using Nat.strongRecOn with
  | ind n ih =>
      rw [Nat.toDigits_eq_if (by decide)] at h
      split at h
      next hSmall => exact ⟨n, hSmall, List.mem_singleton.mp h⟩
      next hLarge =>
          rcases List.mem_append.mp h with hBefore | hLast
          · exact ih (n / 16) (by omega) hBefore
          · exact ⟨n % 16, Nat.mod_lt n (by decide), List.mem_singleton.mp hLast⟩

theorem not_mem_toDigits {c : Char} (h : ∀ digit < 16, c ≠ Nat.digitChar digit) (n : Nat) :
    c ∉ Nat.toDigits 16 n := by
  intro hMem
  obtain ⟨digit, hDigit, hIs⟩ := exists_digit_of_mem_toDigits hMem
  exact h digit hDigit hIs

/-! ## One line -/

/-- The line feed itself has an escape, and no other escape is written with one. -/
theorem lineFeed_not_mem_escape (c : Char) : '\n' ∉ escape c := by
  fun_cases escape c
  case case7 _ _ _ _ hOther _ _ => exact fun h => hOther (List.mem_singleton.mp h).symm
  case case8 =>
      have hDigits := not_mem_toDigits (c := '\n') (by decide) c.toNat
      simp [codePointEscape, hDigits]
  all_goals decide

/-- Quoted text is one line, whatever it quotes. -/
theorem lineFeed_not_mem_quoted (text : String) : '\n' ∉ (quoted text).toList := by
  rw [quoted, String.toList_ofList]
  simp only [List.cons_append, List.mem_cons, List.mem_append, List.mem_flatMap, List.not_mem_nil,
    or_false, not_or, not_exists, not_and]
  exact ⟨by decide, fun c _ => lineFeed_not_mem_escape c, by decide⟩

/-! ## Reading back -/

def hexDigitValue (c : Char) : Nat :=
  if c.isDigit then c.toNat - '0'.toNat else c.toNat - 'a'.toNat + 10

/-- The number that hexadecimal digits stand for, the most significant one first. -/
def hexValue (digits : List Char) : Nat :=
  digits.foldl (fun n c => 16 * n + hexDigitValue c) 0

theorem hexDigitValue_digitChar : ∀ digit < 16, hexDigitValue (Nat.digitChar digit) = digit := by
  decide

theorem hexValue_toDigits (n : Nat) : hexValue (Nat.toDigits 16 n) = n := by
  induction n using Nat.strongRecOn with
  | ind n ih =>
      rw [Nat.toDigits_eq_if (by decide)]
      split
      next hSmall => exact (Nat.zero_add _).trans (hexDigitValue_digitChar n hSmall)
      next hLarge =>
          have hBefore : hexValue (Nat.toDigits 16 (n / 16)) = n / 16 := ih (n / 16) (by omega)
          have hLast := hexDigitValue_digitChar (n % 16) (Nat.mod_lt n (by decide))
          rw [hexValue] at hBefore
          rw [hexValue, List.foldl_append, hBefore, List.foldl_cons, List.foldl_nil, hLast]
          exact Nat.div_add_mod n 16

/-- The character that quoted text begins with, and what follows it. -/
def readEscape : List Char → Option (Char × List Char)
  | [] => none
  | '\\' :: 't' :: rest => some ('\t', rest)
  | '\\' :: 'r' :: rest => some ('\r', rest)
  | '\\' :: 'n' :: rest => some ('\n', rest)
  | '\\' :: '0' :: rest => some ('\x00', rest)
  | '\\' :: 'u' :: '\x7b' :: rest =>
    some (Char.ofNat (hexValue (rest.takeWhile (· != '\x7d'))),
      (rest.dropWhile (· != '\x7d')).drop 1)
  | '\\' :: c :: rest => some (c, rest)
  | c :: rest => some (c, rest)

theorem readEscape_of_ne {c : Char} (h : c ≠ '\\') (rest : List Char) :
    readEscape (c :: rest) = some (c, rest) := by
  unfold readEscape
  split <;> simp_all

theorem readEscape_codePointEscape (c : Char) (rest : List Char) :
    readEscape (codePointEscape c ++ rest) = some (c, rest) := by
  have hDigits : ∀ d ∈ Nat.toDigits 16 c.toNat, (d != '\x7d') = true := by
    intro d hd
    have hBrace := not_mem_toDigits (c := '\x7d') (by decide) c.toNat
    exact bne_iff_ne.mpr fun hIs => hBrace (hIs ▸ hd)
  have hEnd : ('\x7d' != '\x7d') = false := rfl
  simp only [codePointEscape, List.cons_append, List.append_assoc, List.nil_append, readEscape]
  rw [List.takeWhile_append_of_pos hDigits, List.dropWhile_append_of_pos hDigits,
    List.takeWhile_cons, List.dropWhile_cons, hEnd]
  simp [hexValue_toDigits, Char.ofNat_toNat]

/-- Escaping can be undone whatever follows, since no escape is the beginning of another one. -/
theorem readEscape_escape (c : Char) (rest : List Char) :
    readEscape (escape c ++ rest) = some (c, rest) := by
  fun_cases escape c
  case case7 _ hOther _ _ _ _ _ => exact readEscape_of_ne hOther rest
  case case8 => exact readEscape_codePointEscape c rest
  all_goals subst_vars; rfl

/-- What stands for a character does not begin with the mark that closes quoted text. -/
theorem exists_escape_eq_cons (c : Char) :
    ∃ first rest, escape c = first :: rest ∧ first ≠ '"' := by
  fun_cases escape c
  case case7 hOther _ _ _ _ _ _ => exact ⟨c, [], rfl, hOther⟩
  case case8 => exact ⟨'\\', _, rfl, by decide⟩
  all_goals exact ⟨'\\', _, rfl, by decide⟩

theorem length_le_length_escaped (chars : List Char) :
    chars.length ≤ (chars.flatMap escape).length := by
  induction chars with
  | nil => exact Nat.le_refl 0
  | cons c chars ih =>
      obtain ⟨first, more, hEscape, _⟩ := exists_escape_eq_cons c
      rw [List.flatMap_cons, List.length_append, hEscape, List.length_cons, List.length_cons]
      omega

/-- The characters up to the closing quotation mark, and what follows it, for texts of fewer
characters than `fuel`. -/
def readQuoted : (fuel : Nat) → List Char → Option (List Char × List Char)
  | 0, _ => none
  | _ + 1, '"' :: rest => some ([], rest)
  | fuel + 1, chars => do
    let (c, chars) ← readEscape chars
    let (text, rest) ← readQuoted fuel chars
    return (c :: text, rest)

/-- Quoted text is read back up to its closing mark. The fuel only has to be more than the
characters. -/
theorem readQuoted_escaped {fuel : Nat} {text : List Char} (h : text.length < fuel)
    (rest : List Char) :
    readQuoted fuel (text.flatMap escape ++ '"' :: rest) = some (text, rest) := by
  induction text generalizing fuel with
  | nil =>
      cases fuel with
      | zero => cases h
      | succ fuel => rfl
  | cons c text ih =>
      cases fuel with
      | zero => cases h
      | succ fuel =>
          have hRest := ih (Nat.lt_of_succ_lt_succ h)
          obtain ⟨first, more, hEscape, hFirst⟩ := exists_escape_eq_cons c
          have hRead := readEscape_escape c (text.flatMap escape ++ '"' :: rest)
          rw [List.flatMap_cons, List.append_assoc]
          rw [hEscape, List.cons_append] at hRead ⊢
          rw [readQuoted.eq_3 _ _ (by simp [hFirst]), hRead]
          simp [hRest]

end Tandem.Text
