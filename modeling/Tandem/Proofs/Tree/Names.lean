import Tandem.Proofs.Text.Quoted
import Tandem.Proofs.Text.Separated
import Tandem.Tree.Printer
/-!
The names in a tree: identifiers, names that are bound, and parameters. They are what the text of a
tree shows as it is. All else in the text is either fixed or, as a string literal, quoted, so a line
feed in the text of a tree comes from one of its names.
-/
namespace Tandem

open Text

mutual

def Expr.names : Expr → List String
  | .identifier name => [name]
  | .integer _ => []
  | .boolean _ => []
  | .string _ => []
  | .unary _ operand => operand.names
  | .binary _ left right => left.names ++ right.names
  | .conditional condition consequence none => condition.names ++ statementNames consequence
  | .conditional condition consequence (some alternative) =>
    condition.names ++ (statementNames consequence ++ statementNames alternative)
  | .function parameters body => parameters ++ statementNames body
  | .call callee arguments => callee.names ++ expressionNames arguments
  | .array elements => expressionNames elements
  | .index object index => object.names ++ index.names
  | .hash pairs => pairNames pairs

def Stmt.names : Stmt → List String
  | .binding name value => name :: value.names
  | .returning value => value.names
  | .expression value => value.names

def expressionNames : List Expr → List String
  | [] => []
  | e :: rest => e.names ++ expressionNames rest

def pairNames : List (Expr × Expr) → List String
  | [] => []
  | (key, value) :: rest => key.names ++ value.names ++ pairNames rest

def statementNames : List Stmt → List String
  | [] => []
  | s :: rest => s.names ++ statementNames rest

end

def keywords : List String := ["fn", "let", "return", "if", "else", "true", "false"]

/-- A letter or an underscore. Everything beyond ASCII counts as a letter. -/
def isNameStart (c : Char) : Bool := c.isAlpha || c == '_' || 0x80 ≤ c.toNat

theorem isDigit_of_isNameStart {c : Char} (h : isNameStart c = true) : c.isDigit = false := by
  have hStart : ((65 ≤ c.toNat ∧ c.toNat ≤ 90 ∨ 97 ≤ c.toNat ∧ c.toNat ≤ 122) ∨ c = '_') ∨
      128 ≤ c.toNat := by
    delta isNameStart Char.isAlpha Char.isUpper Char.isLower at h
    simpa [UInt32.le_iff_toNat_le] using h
  have hOutside : 48 ≤ c.toNat → 57 < c.toNat := by
    rcases hStart with (hLetter | rfl) | hBeyond
    · omega
    · decide
    · omega
  simpa [Char.isDigit, UInt32.le_iff_toNat_le] using hOutside

def isNamePart (c : Char) : Bool := isNameStart c || c.isDigit

/-- Keywords consist of the same characters as names. -/
theorem isNamePart_of_mem_keyword {word : String} (hWord : word ∈ keywords) :
    ∀ c ∈ word.toList, isNamePart c = true := by
  have hAll : keywords.all (fun word => word.toList.all isNamePart) = true := by decide
  exact List.all_eq_true.mp (List.all_eq_true.mp hAll word hWord)

/-- A name that a program can be written with. -/
structure IsName (name : String) : Prop where
  notKeyword : name ∉ keywords
  shape : ∃ first rest, name.toList = first :: rest ∧ isNameStart first = true ∧
    ∀ c ∈ rest, isNamePart c = true

theorem IsName.part {name : String} (h : IsName name) : ∀ c ∈ name.toList, isNamePart c = true := by
  obtain ⟨first, rest, hName, hFirst, hRest⟩ := h.shape
  rw [hName]
  exact List.forall_mem_cons.mpr ⟨by simp [isNamePart, hFirst], hRest⟩

/-- So the words that begin a tree of another form can be told from names. -/
theorem IsName.toList_ne {name word : String} (h : IsName name) (hWord : word ∈ keywords) :
    name.toList ≠ word.toList := by
  intro hSame
  rw [String.toList_injective hSame] at h
  exact h.notKeyword hWord

def WellNamed (names : List String) : Prop := ∀ name ∈ names, IsName name

@[simp]
theorem wellNamed_nil : WellNamed [] := fun _ hName => absurd hName List.not_mem_nil

@[simp]
theorem wellNamed_cons (name : String) (rest : List String) :
    WellNamed (name :: rest) ↔ IsName name ∧ WellNamed rest :=
  List.forall_mem_cons

@[simp]
theorem wellNamed_append (names others : List String) :
    WellNamed (names ++ others) ↔ WellNamed names ∧ WellNamed others :=
  List.forall_mem_append

theorem expressionNames_eq_flatMap (es : List Expr) :
    expressionNames es = es.flatMap Expr.names := by
  induction es with
  | nil => rfl
  | cons e rest ih => rw [expressionNames, ih, List.flatMap_cons]

theorem statementNames_eq_flatMap (ss : List Stmt) :
    statementNames ss = ss.flatMap Stmt.names := by
  induction ss with
  | nil => rfl
  | cons s rest ih => rw [statementNames, ih, List.flatMap_cons]

theorem pairNames_eq_flatMap (pairs : List (Expr × Expr)) :
    pairNames pairs = pairs.flatMap fun pair => pair.1.names ++ pair.2.names := by
  induction pairs with
  | nil => rfl
  | cons pair rest ih =>
      obtain ⟨key, value⟩ := pair
      rw [pairNames, ih, List.flatMap_cons]

/-! ## Line feeds -/

/-- A negative integer has a minus sign before its digits, any other has digits only. -/
theorem toList_integerText (n : Int64) :
    (integerText n).toList =
      if n.toInt < 0 then '-' :: Nat.toDigits 10 n.toInt.natAbs
      else Nat.toDigits 10 n.toInt.natAbs := by
  rw [integerText, Int.toString_eq_repr, Int.repr_eq_if]
  by_cases h : n.toInt < 0
  · have hAbs : (-n.toInt).toNat = n.toInt.natAbs := by omega
    rw [if_neg (Int.not_le.mpr h), if_pos h, hAbs, String.toList_append, Nat.toList_repr]
    rfl
  · have hAbs : n.toInt.toNat = n.toInt.natAbs := by omega
    rw [if_pos (Int.not_lt.mp h), if_neg h, hAbs, Nat.toList_repr]

theorem lineFeed_not_mem_integerText (n : Int64) : '\n' ∉ (integerText n).toList := by
  have hDigits : '\n' ∉ Nat.toDigits 10 n.toInt.natAbs := fun h =>
    absurd (Nat.isDigit_of_mem_toDigits (by decide) (by decide) h) (by decide)
  rw [toList_integerText]
  split
  · exact List.not_mem_cons_of_ne_of_not_mem (by decide) hDigits
  · exact hDigits

theorem lineFeed_not_mem_booleanText (b : Bool) : '\n' ∉ (booleanText b).toList := by
  cases b <;> decide

/-- Braces and separators bring no line feed of their own. -/
theorem lineFeed_mem_braced_iff (statements : List String) :
    '\n' ∈ (braced statements).toList ↔ AnyLineFeed statements := by
  cases statements with
  | nil => simp [braced]
  | cons first rest =>
      have hSeparated : '\n' ∈ (separated "; " (first :: rest)).toList ↔
          AnyLineFeed (first :: rest) := lineFeed_mem_separated_iff (by decide) _
      simp [braced, hSeparated]

theorem lineFeed_mem_functionHead_iff (parameters : List String) :
    '\n' ∈ (functionHead parameters).toList ↔ AnyLineFeed parameters := by
  simp [functionHead, lineFeed_mem_separated_iff]

mutual

/-- Line feeds inside literals are escaped, so only a name can bring one into the text of a tree. -/
theorem Expr.lineFeed_mem_text_iff (e : Expr) :
    '\n' ∈ e.text.toList ↔ AnyLineFeed e.names := by
  cases e with
  | identifier name => simp [Expr.text, Expr.names]
  | integer n => simp [Expr.text, Expr.names, lineFeed_not_mem_integerText]
  | boolean b => simp [Expr.text, Expr.names, lineFeed_not_mem_booleanText]
  | string text => simp [Expr.text, Expr.names, lineFeed_not_mem_quoted]
  | unary op operand =>
      have hSign : '\n' ∉ op.text.toList := by cases op <;> decide
      simp [Expr.text, Expr.names, hSign, operand.lineFeed_mem_text_iff]
  | binary op left right =>
      have hSign : '\n' ∉ op.text.toList := by cases op <;> decide
      simp [Expr.text, Expr.names, hSign, left.lineFeed_mem_text_iff, right.lineFeed_mem_text_iff]
  | conditional condition consequence alternative =>
      cases alternative with
      | none =>
          simp [Expr.text, Expr.names, lineFeed_mem_braced_iff, condition.lineFeed_mem_text_iff,
            anyLineFeed_statementTexts_iff consequence]
      | some alternative =>
          simp [Expr.text, Expr.names, lineFeed_mem_braced_iff, condition.lineFeed_mem_text_iff,
            anyLineFeed_statementTexts_iff consequence, anyLineFeed_statementTexts_iff alternative]
  | function parameters body =>
      simp [Expr.text, Expr.names, lineFeed_mem_functionHead_iff, lineFeed_mem_braced_iff,
        anyLineFeed_statementTexts_iff body]
  | call callee arguments =>
      simp [Expr.text, Expr.names, lineFeed_mem_separated_iff, callee.lineFeed_mem_text_iff,
        anyLineFeed_expressionTexts_iff arguments]
  | array elements =>
      simp [Expr.text, Expr.names, lineFeed_mem_separated_iff,
        anyLineFeed_expressionTexts_iff elements]
  | index object index =>
      simp [Expr.text, Expr.names, object.lineFeed_mem_text_iff, index.lineFeed_mem_text_iff]
  | hash pairs =>
      simp [Expr.text, Expr.names, lineFeed_mem_separated_iff, anyLineFeed_pairTexts_iff pairs]

theorem Stmt.lineFeed_mem_text_iff (s : Stmt) :
    '\n' ∈ s.text.toList ↔ AnyLineFeed s.names := by
  cases s with
  | binding name value => simp [Stmt.text, Stmt.names, value.lineFeed_mem_text_iff]
  | returning value => simp [Stmt.text, Stmt.names, value.lineFeed_mem_text_iff]
  | expression value => simp [Stmt.text, Stmt.names, value.lineFeed_mem_text_iff]

theorem anyLineFeed_expressionTexts_iff (es : List Expr) :
    AnyLineFeed (expressionTexts es) ↔ AnyLineFeed (expressionNames es) := by
  cases es with
  | nil => simp [expressionTexts, expressionNames]
  | cons e rest =>
      simp [expressionTexts, expressionNames, e.lineFeed_mem_text_iff,
        anyLineFeed_expressionTexts_iff rest]

theorem anyLineFeed_pairTexts_iff (pairs : List (Expr × Expr)) :
    AnyLineFeed (pairTexts pairs) ↔ AnyLineFeed (pairNames pairs) := by
  cases pairs with
  | nil => simp [pairTexts, pairNames]
  | cons pair rest =>
      obtain ⟨key, value⟩ := pair
      simp [pairTexts, pairNames, key.lineFeed_mem_text_iff, value.lineFeed_mem_text_iff,
        anyLineFeed_pairTexts_iff rest, or_assoc]

theorem anyLineFeed_statementTexts_iff (ss : List Stmt) :
    AnyLineFeed (statementTexts ss) ↔ AnyLineFeed (statementNames ss) := by
  cases ss with
  | nil => simp [statementTexts, statementNames]
  | cons s rest =>
      simp [statementTexts, statementNames, s.lineFeed_mem_text_iff,
        anyLineFeed_statementTexts_iff rest]

end

end Tandem
