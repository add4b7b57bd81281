import Tandem.Proofs.Text.Quoted
import Tandem.Proofs.Text.Reader
import Tandem.Proofs.Tree.Names
/-!
A reader for the canonical text of trees. It decides what comes next by the word or the sign that
stands in front. Names cannot be keywords, so the words that begin a conditional, a function, a
boolean or a statement are told from identifiers; and where the text of an expression may begin or
has to end is told by single characters.
-/
namespace Tandem

open Text Text.Reader

/-! ## The reader -/

def integerOf (digits : List Char) : Int64 := Int64.ofInt (Nat.ofDigitChars 10 digits 0)

/-- An expression that begins with an integer, with the sign of that integer turned round. -/
def Expr.turned : Expr → Expr
  | .integer n => .integer (-n)
  | .call callee arguments => .call callee.turned arguments
  | e => e

@[simp]
theorem Expr.turned_turned (e : Expr) : e.turned.turned = e := by
  cases e with
  | integer n => simp [turned]
  | call callee arguments => simp [turned, callee.turned_turned]
  | _ => rfl

/-- How many calls an expression is, one within the other, until its head is no call. -/
def Expr.callDepth : Expr → Nat
  | .call callee _ => callee.callDepth + 1
  | _ => 0

/-- So the size of an expression bounds how many calls have to be read off its end. -/
theorem Expr.callDepth_lt_sizeOf (e : Expr) : e.callDepth < sizeOf e := by
  cases e with
  | call callee arguments =>
      have := callee.callDepth_lt_sizeOf
      simp only [callDepth, call.sizeOf_spec]
      omega
  | _ => simp +arith [callDepth]

/-- The expression that a statement is about. -/
def Stmt.value : Stmt → Expr
  | .binding _ value => value
  | .returning value => value
  | .expression value => value

namespace TreeReader

def operator : Reader BinaryOp
  | '+' :: rest => some (.add, rest)
  | '-' :: rest => some (.subtract, rest)
  | '*' :: rest => some (.multiply, rest)
  | '/' :: rest => some (.divide, rest)
  | '<' :: rest => some (.less, rest)
  | '>' :: rest => some (.greater, rest)
  | '=' :: '=' :: rest => some (.equal, rest)
  | '!' :: '=' :: rest => some (.notEqual, rest)
  | _ => none

def name : Reader String := do return String.ofList (← span isNamePart)

/-- The rest of a string literal, after the quotation mark that opens it. -/
def literal : Reader String := fun input =>
  (readQuoted (input.length + 1) input).map fun (text, rest) => (String.ofList text, rest)

section

-- The reader `expression` takes care of all that is nested inside, and `fuel` bounds lists.
variable (fuel : Nat) (expression : Reader Expr)

def statement : Reader Stmt :=
  onSign "let " (do
    let bound ← name
    skip " = "
    return .binding bound (← expression)) <|
  onSign "return " (do return .returning (← expression)) <|
  (do return .expression (← expression))

def block : Reader (List Stmt) := do
  skip "\x7b "
  enclosed "\x7d" " \x7d" "; " (statement expression) fuel

def pair : Reader (Expr × Expr) := do
  let key ← expression
  skip ": "
  return (key, ← expression)

/-- What follows the left operand or the object inside of parentheses. -/
def operation (left : Expr) : Reader Expr :=
  onSign "[" (do
    let index ← expression
    skip "])"
    return .index left index) do
  skip " "
  let op ← operator
  skip " "
  let right ← expression
  skip ")"
  return .binary op left right

/-- What follows an opening parenthesis. A minus sign is read as the sign of a negation first; if
the parenthesis does not close after the operand, it belongs to the integer that the left operand
begins with. -/
def parenthesised : Reader Expr :=
  onSign "!" (do
    let operand ← expression
    skip ")"
    return .unary .not operand) <|
  onSign "-" (do
    let operand ← expression
    onSign ")" (return .unary .negate operand) (operation expression operand.turned)) do
  operation expression (← expression)

/-- An expression that begins with neither a name nor a keyword nor a digit. -/
def symbolic : Reader Expr :=
  onSign "(" (parenthesised expression) <|
  onSign "\"" (do return .string (← literal)) <|
  onSign "[" (do return .array (← enclosed "]" "]" ", " expression fuel)) <|
  onSign "\x7b" (do return .hash (← enclosed "\x7d" "\x7d" ", " (pair expression) fuel)) <|
  onSign "-" (do return .integer (-integerOf (← span isNamePart))) failure

/-- The rest of an expression that begins with a word. -/
def worded (word : List Char) : Reader Expr :=
  if word = "if".toList then do
    skip " "
    let condition ← expression
    skip " "
    let consequence ← block fuel expression
    onSign " else " (do return .conditional condition consequence (some (← block fuel expression)))
      (return .conditional condition consequence none)
  else if word = "fn".toList then do
    skip "("
    let parameters ← enclosed ")" ")" ", " name fuel
    skip " "
    return .function parameters (← block fuel expression)
  else if word = "true".toList then return .boolean true
  else if word = "false".toList then return .boolean false
  else if word.all Char.isDigit then return .integer (integerOf word)
  else return .identifier (String.ofList word)

/-- An expression up to the arguments of its first call, if it is a call. -/
def head : Reader Expr := do
  let word ← span isNamePart
  if word = [] then symbolic fuel expression else worded fuel expression word

/-- At most `count` calls of what has been read so far. -/
def calls : (count : Nat) → Expr → Reader Expr
  | 0, callee => return callee
  | count + 1, callee =>
    onSign "(" (do calls count (.call callee (← enclosed ")" ")" ", " expression fuel)))
      (return callee)

def program : Reader (List Stmt) := fun input =>
  if input = [] then some ([], []) else parts "; " (statement expression) fuel input

end

/-- An expression of a size up to `fuel`. -/
def expression : (fuel : Nat) → Reader Expr
  | 0 => failure
  | fuel + 1 => do calls fuel (expression fuel) fuel (← head fuel (expression fuel))

/-! ## What texts begin with -/

/-- The text begins with a character that an expression or a statement can begin with, and not with
a keyword that only statements begin with. -/
structure OpensExpression (chars : List Char) : Prop where
  first : ∃ c rest, chars = c :: rest ∧ (isNamePart c = true ∨ c ∈ ['-', '"', '(', '[', '\x7b'])
  notLet : chars.takeWhile isNamePart ≠ "let".toList
  notReturn : chars.takeWhile isNamePart ≠ "return".toList

/-- Whatever follows, a text begins as it did, unless it is one word that grows longer. -/
theorem OpensExpression.append {chars : List Char} (h : OpensExpression chars)
    (rest : List Char) (hStop : StopsAt isNamePart rest) : OpensExpression (chars ++ rest) where
  first := by
    obtain ⟨c, more, rfl, hFirst⟩ := h.first
    exact ⟨c, more ++ rest, rfl, hFirst⟩
  notLet := by rw [takeWhile_append_of_stopsAt chars hStop]; exact h.notLet
  notReturn := by rw [takeWhile_append_of_stopsAt chars hStop]; exact h.notReturn

/-- No keyword begins with a sign. -/
theorem opensExpression_of_sign {c : Char} (hSign : c ∈ ['-', '"', '(', '[', '\x7b'])
    (rest : List Char) : OpensExpression (c :: rest) := by
  have hWord : (c :: rest).takeWhile isNamePart = [] := by
    have hPart : ∀ c ∈ ['-', '"', '(', '[', '\x7b'], isNamePart c = false := by
      simp only [List.forall_mem_cons, List.not_mem_nil, false_imp_iff, implies_true, and_true]
      decide
    rw [List.takeWhile_cons, hPart c hSign, if_neg Bool.false_ne_true]
  exact ⟨⟨c, rest, rfl, Or.inr hSign⟩, hWord ▸ by decide, hWord ▸ by decide⟩

/-- Words are admitted, keywords included, unless a statement begins with them. -/
theorem opensExpression_of_word (word : List Char) (hNonempty : word ≠ [])
    (hWord : ∀ c ∈ word, isNamePart c = true) (hLet : word ≠ "let".toList)
    (hReturn : word ≠ "return".toList) : OpensExpression word := by
  obtain ⟨c, rest, rfl⟩ := List.exists_cons_of_ne_nil hNonempty
  have hAll : (c :: rest).takeWhile isNamePart = c :: rest := by
    rw [← List.append_nil (c :: rest), List.takeWhile_append_of_pos hWord]
    rfl
  exact ⟨⟨c, rest, rfl, Or.inl (hWord c List.mem_cons_self)⟩, by rwa [hAll], by rwa [hAll]⟩

theorem isNamePart_of_mem_toDigits {n : Nat} {c : Char} (h : c ∈ Nat.toDigits 10 n) :
    isNamePart c = true := by
  have hDigit : c.isDigit = true := Nat.isDigit_of_mem_toDigits (by decide) (by decide) h
  rw [isNamePart, hDigit, Bool.or_true]

/-- A word in which some character is no digit is no number. -/
theorem toDigits_ne_of_mem {n : Nat} {word : List Char} {c : Char} (hMem : c ∈ word)
    (hDigit : c.isDigit = false) : Nat.toDigits 10 n ≠ word := by
  rintro rfl
  rw [Nat.isDigit_of_mem_toDigits (by decide) (by decide) hMem] at hDigit
  cases hDigit

/-- The text of a tree shows from its start that it is an expression. This is where names must not
be keywords. -/
theorem opensExpression_text (e : Expr) (h : WellNamed e.names) :
    OpensExpression e.text.toList := by
  cases e with
  | identifier name =>
      have hName : IsName name := h name List.mem_cons_self
      obtain ⟨first, rest, hShape, _⟩ := hName.shape
      exact opensExpression_of_word _ (hShape ▸ List.cons_ne_nil _ _) hName.part
        (hName.toList_ne (by decide)) (hName.toList_ne (by decide))
  | integer n =>
      rw [Expr.text, toList_integerText]
      split
      · exact opensExpression_of_sign (by decide) _
      · exact opensExpression_of_word _ Nat.toDigits_ne_nil (fun _ => isNamePart_of_mem_toDigits)
          (toDigits_ne_of_mem (c := 'l') (by decide) rfl)
          (toDigits_ne_of_mem (c := 'r') (by decide) rfl)
  | boolean b =>
      cases b <;> exact opensExpression_of_word _ (by decide)
        (isNamePart_of_mem_keyword (by decide)) (by decide) (by decide)
  | string text =>
      rw [Expr.text, quoted, String.toList_ofList]
      exact opensExpression_of_sign (by decide) _
  | unary op operand =>
      simp only [Expr.text, String.append_assoc, String.toList_append]
      exact opensExpression_of_sign (c := '(') (by decide) _
  | binary op left right =>
      simp only [Expr.text, String.append_assoc, String.toList_append]
      exact opensExpression_of_sign (c := '(') (by decide) _
  | conditional condition consequence alternative =>
      have hWord (rest : List Char) : OpensExpression ("if ".toList ++ rest) :=
        (opensExpression_of_word "if".toList (by decide) (isNamePart_of_mem_keyword (by decide))
          (by decide) (by decide)).append (' ' :: rest) (stopsAt_cons rfl)
      cases alternative <;>
        · simp only [Expr.text, String.append_assoc, String.toList_append]
          exact hWord _
  | function parameters body =>
      have hWord (rest : List Char) : OpensExpression ("fn(".toList ++ rest) :=
        (opensExpression_of_word "fn".toList (by decide) (isNamePart_of_mem_keyword (by decide))
          (by decide) (by decide)).append ('(' :: rest) (stopsAt_cons rfl)
      simp only [Expr.text, functionHead, String.append_assoc, String.toList_append]
      exact hWord _
  | call callee arguments =>
      rw [Expr.names, wellNamed_append] at h
      simp only [Expr.text, String.append_assoc, String.toList_append]
      exact (opensExpression_text callee h.1).append _ (stopsAt_cons rfl)
  | array elements =>
      simp only [Expr.text, String.append_assoc, String.toList_append]
      exact opensExpression_of_sign (c := '[') (by decide) _
  | index object index =>
      simp only [Expr.text, String.append_assoc, String.toList_append]
      exact opensExpression_of_sign (c := '(') (by decide) _
  | hash pairs =>
      simp only [Expr.text, String.append_assoc, String.toList_append]
      exact opensExpression_of_sign (c := '\x7b') (by decide) _

/-- So an expression is not taken for a binding when it stands as a statement. -/
theorem OpensExpression.not_let {chars : List Char} (h : OpensExpression chars) :
    ¬ "let ".toList <+: chars := by
  rintro ⟨_, rfl⟩
  exact h.notLet rfl

theorem OpensExpression.not_return {chars : List Char} (h : OpensExpression chars) :
    ¬ "return ".toList <+: chars := by
  rintro ⟨_, rfl⟩
  exact h.notReturn rfl

/-- Signs that close a list or a tree or separate two of them. -/
def closingSigns : List Char := [')', ']', '\x7d', ',', ';', ':']

/-- So an empty list is told from one that begins with an expression. -/
theorem OpensExpression.not_closing {chars : List Char} (h : OpensExpression chars) {sign : Char}
    (hSign : sign ∈ closingSigns) (after : List Char) : ¬ [sign] <+: chars ++ after := by
  have hOther : ∀ sign ∈ closingSigns,
      ¬ (isNamePart sign = true ∨ sign ∈ ['-', '"', '(', '[', '\x7b']) := by
    simp only [closingSigns, List.forall_mem_cons, List.not_mem_nil, false_imp_iff, implies_true,
      and_true]
    decide
  obtain ⟨c, rest, rfl, hFirst⟩ := h.first
  intro hPrefix
  obtain rfl : sign = c := (List.cons_prefix_cons.mp hPrefix).1
  exact hOther sign hSign hFirst

/-! ## Where a tree ends -/

/-- The text goes on neither with the word that stands in front of it nor with an alternative. -/
structure Ends (rest : List Char) : Prop where
  word : StopsAt isNamePart rest
  alternative : ¬ " else ".toList <+: rest

/-- The text does not go on with the arguments of a call either. -/
structure Stops (rest : List Char) : Prop extends Ends rest where
  call : ¬ "(".toList <+: rest

theorem stops_nil : Stops [] where
  word := by rintro _ ⟨⟩
  alternative := by simp
  call := by simp

/-- Expressions may be followed by a sign that closes or separates, or by the index of an access. -/
theorem stops_sign (sign : Char) (h : sign ∈ '[' :: closingSigns) (rest : List Char) :
    Stops (sign :: rest) where
  word := by
    have hPart : ∀ sign ∈ '[' :: closingSigns, isNamePart sign = false := by
      simp only [closingSigns, List.forall_mem_cons, List.not_mem_nil, false_imp_iff,
        implies_true, and_true]
      decide
    exact stopsAt_cons (hPart sign h)
  alternative := by
    rintro ⟨_, hRest⟩
    obtain ⟨rfl, _⟩ := List.cons.inj hRest
    exact absurd h (by decide)
  call := by
    rintro ⟨_, hRest⟩
    obtain ⟨rfl, _⟩ := List.cons.inj hRest
    exact absurd h (by decide)

/-- A blank may follow as well, as before an operator or a block, as long as no alternative begins
there. -/
theorem stops_blank {c : Char} (h : c ≠ 'e') (rest : List Char) : Stops (' ' :: c :: rest) where
  word := stopsAt_cons rfl
  alternative := by simp [h.symm]
  call := by simp

/-- The arguments of a call end the text of its callee, although more of the call follows. -/
theorem ends_call (rest : List Char) : Ends ('(' :: rest) where
  word := stopsAt_cons rfl
  alternative := by simp

theorem stops_braced (statements : List String) (rest : List Char) :
    Stops (" ".toList ++ ((braced statements).toList ++ rest)) := by
  unfold braced
  split
  · exact stops_blank (c := '\x7b') (by decide) _
  · simp only [String.toList_append, List.append_assoc]
    exact stops_blank (c := '\x7b') (by decide) _

end TreeReader

end Tandem
