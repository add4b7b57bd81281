import Tandem.Proofs.Tree.Reader
/-!
Trees are read back from their texts, and so no two trees have the same text. Each part is read from
the front of whatever text it stands before, provided that it stops there: that no name, call or
alternative goes on past its end. The only part that looks different inside a tree is an integer
with a minus sign after an opening parenthesis, which cannot be told from a negation until its end.
-/
namespace Tandem

open Text Text.Reader

namespace TreeReader

/-! ## Parts are read back -/

/-- What a reader may meet of an expression and has to make of it: the whole text, or the text
without the minus sign in front, for the expression with the sign of its first integer turned. -/
def Meets (e : Expr) (chars : List Char) (result : Expr) : Prop :=
  chars = e.text.toList ∧ result = e ∨ e.text.toList = '-' :: chars ∧ result = e.turned

/-- The reader reads the expression back wherever it stops. -/
def ReadsBack (reader : Reader Expr) (e : Expr) : Prop :=
  ∀ chars result, Meets e chars result → ∀ rest, Stops rest →
    Reads reader (chars ++ rest) result rest

theorem ReadsBack.text {reader : Reader Expr} {e : Expr} (h : ReadsBack reader e)
    {rest : List Char} (hStops : Stops rest) : Reads reader (e.text.toList ++ rest) e rest :=
  h _ _ (Or.inl ⟨rfl, rfl⟩) rest hStops

theorem reads_name {name : String} (h : IsName name) {rest : List Char}
    (hStop : StopsAt isNamePart rest) : Reads TreeReader.name (name.toList ++ rest) name rest := by
  have hName : Reads TreeReader.name (name.toList ++ rest) (String.ofList name.toList) rest :=
    (reads_span h.part hStop).bind (reads_pure _ _)
  rwa [String.ofList_toList] at hName

/-- Escaping leaves no quotation mark that could be taken for the closing one. -/
theorem reads_literal (text : String) (rest : List Char) :
    Reads literal (text.toList.flatMap escape ++ '"' :: rest) text rest := by
  have hLength : text.toList.length < (text.toList.flatMap escape ++ '"' :: rest).length + 1 := by
    have := length_le_length_escaped text.toList
    rw [List.length_append]
    omega
  rw [Reads, StateT.run, literal, readQuoted_escaped hLength]
  simp

theorem reads_operator (op : BinaryOp) (rest : List Char) :
    Reads operator (op.text.toList ++ rest) op rest := by
  cases op <;> rfl

theorem expressionTexts_eq_map (es : List Expr) : expressionTexts es = es.map Expr.text := by
  induction es with
  | nil => rfl
  | cons e rest ih => rw [expressionTexts, ih, List.map_cons]

theorem statementTexts_eq_map (ss : List Stmt) : statementTexts ss = ss.map Stmt.text := by
  induction ss with
  | nil => rfl
  | cons s rest ih => rw [statementTexts, ih, List.map_cons]

def pairText (pair : Expr × Expr) : String := pair.1.text ++ ": " ++ pair.2.text

theorem pairTexts_eq_map (pairs : List (Expr × Expr)) :
    pairTexts pairs = pairs.map pairText := by
  induction pairs with
  | nil => rfl
  | cons pair rest ih =>
      obtain ⟨key, value⟩ := pair
      rw [pairTexts, ih, List.map_cons, pairText]

section

variable {fuel : Nat} {reader : Reader Expr}

/-- The keywords of bindings and returns are tried first; expressions do not begin with them. -/
theorem reads_statement {s : Stmt} (hNames : WellNamed s.names)
    (hValue : ReadsBack reader s.value) {rest : List Char} (hStops : Stops rest) :
    Reads (statement reader) (s.text.toList ++ rest) s rest := by
  cases s with
  | binding bound value =>
      rw [Stmt.names, wellNamed_cons] at hNames
      simp only [Stmt.text, String.toList_append, List.append_assoc]
      exact reads_onSign_present _ ((reads_name hNames.1 (stopsAt_cons rfl)).bind
        ((reads_skip " = " _).bind ((hValue.text hStops).bind (reads_pure _ _))))
  | returning value =>
      simp only [Stmt.text, String.toList_append, List.append_assoc]
      exact reads_onSign_absent (by simp)
        (reads_onSign_present _ ((hValue.text hStops).bind (reads_pure _ _)))
  | expression value =>
      have hOpens := (opensExpression_text value hNames).append _ hStops.word
      exact reads_onSign_absent hOpens.not_let (reads_onSign_absent hOpens.not_return
        ((hValue.text hStops).bind (reads_pure _ _)))

/-- So a block with a statement in it is told from the empty block. -/
theorem not_closing_statement {s : Stmt} (hNames : WellNamed s.names) (after : List Char) :
    ¬ "\x7d".toList <+: s.text.toList ++ after := by
  cases s with
  | binding bound value => simp [Stmt.text]
  | returning value => simp [Stmt.text]
  | expression value => exact (opensExpression_text value hNames).not_closing (by decide) after

/-- The empty block has a text of its own, with one blank in it. -/
theorem reads_block {ss : List Stmt} (hNames : ∀ s ∈ ss, WellNamed s.names)
    (hValues : ∀ s ∈ ss, ReadsBack reader s.value) (hFuel : ss.length ≤ fuel)
    (rest : List Char) :
    Reads (block fuel reader) ((braced (statementTexts ss)).toList ++ rest) ss rest := by
  rw [statementTexts_eq_map]
  cases ss with
  | nil => exact (reads_skip "\x7b " _).bind (reads_enclosed_nil "\x7d" " \x7d" "; " _ fuel rest)
  | cons s ss =>
      simp only [braced, List.map_cons, List.isEmpty_cons, Bool.false_eq_true, if_false,
        String.toList_append, List.append_assoc]
      rw [← List.map_cons]
      refine (reads_skip "\x7b " _).bind (reads_enclosed_cons (List.cons_ne_nil _ _)
        (fun item hItem after hAfter => ?_) (fun item hItem after => ?_) ?_ hFuel rest)
      · refine reads_statement (hNames item hItem) (hValues item hItem) ?_
        rcases hAfter with ⟨_, rfl⟩ | ⟨_, rfl⟩
        · exact stops_blank (c := '\x7d') (by decide) _
        · exact stops_sign ';' (by decide) _
      · exact not_closing_statement (hNames item hItem) after
      · simp

/-- Nothing that follows a key could be taken for more of it, as a colon stands there. -/
theorem reads_pair {pair : Expr × Expr} (hKey : ReadsBack reader pair.1)
    (hValue : ReadsBack reader pair.2) {rest : List Char} (hStops : Stops rest) :
    Reads (TreeReader.pair reader) ((pairText pair).toList ++ rest) pair rest := by
  simp only [pairText, String.toList_append, List.append_assoc]
  exact (hKey.text (stops_sign ':' (by decide) _)).bind
    ((reads_skip ": " _).bind ((hValue.text hStops).bind (reads_pure _ _)))

/-- Expressions between signs, as in arrays and in calls. -/
theorem reads_expressions {close : String} (hClose : close = ")" ∨ close = "]") {es : List Expr}
    (hNames : ∀ e ∈ es, WellNamed e.names) (hReads : ∀ e ∈ es, ReadsBack reader e)
    (hFuel : es.length ≤ fuel) (rest : List Char) :
    Reads (enclosed close close ", " reader fuel)
      ((separated ", " (expressionTexts es)).toList ++ (close.toList ++ rest)) es rest := by
  rw [expressionTexts_eq_map]
  refine reads_enclosed (fun e hMem after hAfter => (hReads e hMem).text ?_)
    (fun e hMem after => ?_) (fun after => ?_) hFuel rest
  · rcases hAfter with ⟨_, rfl⟩ | ⟨_, rfl⟩
    · rcases hClose with rfl | rfl <;> exact stops_sign _ (by decide) _
    · exact stops_sign ',' (by decide) _
  · rcases hClose with rfl | rfl <;>
      exact (opensExpression_text e (hNames e hMem)).not_closing (by decide) after
  · rcases hClose with rfl | rfl <;> simp

theorem reads_pairs {pairs : List (Expr × Expr)}
    (hNames : ∀ pair ∈ pairs, WellNamed pair.1.names)
    (hKeys : ∀ pair ∈ pairs, ReadsBack reader pair.1)
    (hValues : ∀ pair ∈ pairs, ReadsBack reader pair.2) (hFuel : pairs.length ≤ fuel)
    (rest : List Char) :
    Reads (enclosed "\x7d" "\x7d" ", " (pair reader) fuel)
      ((separated ", " (pairTexts pairs)).toList ++ ("\x7d".toList ++ rest)) pairs rest := by
  rw [pairTexts_eq_map]
  refine reads_enclosed
    (fun pair hMem after hAfter => reads_pair (hKeys pair hMem) (hValues pair hMem) ?_)
    (fun pair hMem after => ?_) (fun after => by simp) hFuel rest
  · rcases hAfter with ⟨_, rfl⟩ | ⟨_, rfl⟩
    · exact stops_sign '\x7d' (by decide) _
    · exact stops_sign ',' (by decide) _
  · simp only [pairText, String.toList_append, List.append_assoc]
    exact (opensExpression_text pair.1 (hNames pair hMem)).not_closing (by decide) _

theorem reads_names {names : List String} (hNames : WellNamed names)
    (hFuel : names.length ≤ fuel) (rest : List Char) :
    Reads (enclosed ")" ")" ", " TreeReader.name fuel)
      ((separated ", " names).toList ++ (")".toList ++ rest)) names rest := by
  have hName : ∀ name ∈ names, ∀ after, ")".toList <+: after ∨ ", ".toList <+: after →
      Reads TreeReader.name ((id name).toList ++ after) name after := by
    intro name hMem after hAfter
    refine reads_name (hNames name hMem) ?_
    rcases hAfter with ⟨_, rfl⟩ | ⟨_, rfl⟩ <;> exact stopsAt_cons rfl
  have hOpen : ∀ name ∈ names, ∀ after, ¬ ")".toList <+: (id name).toList ++ after := by
    intro name hMem after
    obtain ⟨first, more, hShape, hFirst, _⟩ := (hNames name hMem).shape
    rintro ⟨_, hSame⟩
    rw [id, hShape] at hSame
    obtain ⟨rfl, _⟩ := List.cons.inj hSame
    cases hFirst
  have hReads : Reads (enclosed ")" ")" ", " TreeReader.name fuel)
      ((separated ", " (names.map id)).toList ++ (")".toList ++ rest)) names rest :=
    reads_enclosed hName hOpen (fun after => by simp) hFuel rest
  rwa [List.map_id] at hReads

/-! ## Expressions in parentheses -/

/-- The operator is read after the left operand, which is given here as it has been read before. -/
theorem reads_binary {op : BinaryOp} {left right : Expr} (hRight : ReadsBack reader right)
    (rest : List Char) :
    Reads (operation reader left)
      (" ".toList ++
        (op.text.toList ++ (" ".toList ++ (right.text.toList ++ (")".toList ++ rest)))))
      (.binary op left right) rest :=
  reads_onSign_absent (by simp) ((reads_skip " " _).bind ((reads_operator op _).bind
    ((reads_skip " " _).bind ((hRight.text (stops_sign ')' (by decide) _)).bind
      ((reads_skip ")" _).bind (reads_pure _ _))))))

theorem reads_index {object index : Expr} (hIndex : ReadsBack reader index) (rest : List Char) :
    Reads (operation reader object)
      ("[".toList ++ (index.text.toList ++ ("])".toList ++ rest))) (.index object index) rest :=
  reads_onSign_present _ ((hIndex.text (stops_sign ']' (by decide) _)).bind
    ((reads_skip "])" _).bind (reads_pure _ _)))

/-- The left operand of an operation is read back, whether or not it begins with a minus sign. -/
theorem reads_left {left result : Expr} {input rest : List Char} (hNames : WellNamed left.names)
    (hLeft : ReadsBack reader left) (hStops : Stops input) (hClose : ¬ ")".toList <+: input)
    (hOperation : Reads (operation reader left) input result rest) :
    Reads (parenthesised reader) (left.text.toList ++ input) result rest := by
  obtain ⟨c, more, hText, hFirst⟩ := (opensExpression_text left hNames).first
  have hBang : c ≠ '!' := by
    rintro rfl
    exact absurd hFirst (by decide)
  by_cases hMinus : c = '-'
  · -- The sign is taken for a negation until the operand is followed by something else than `)`.
    subst hMinus
    rw [hText]
    refine reads_onSign_absent (by simp) (reads_onSign_present "-" ?_)
    refine (hLeft more left.turned (Or.inr ⟨hText, rfl⟩) input hStops).bind ?_
    exact reads_onSign_absent hClose (left.turned_turned.symm ▸ hOperation)
  · have hNot {sign : Char} (h : c ≠ sign) : ¬ [sign] <+: left.text.toList ++ input := by
      rw [hText]
      simp [h.symm]
    exact reads_onSign_absent (hNot hBang) (reads_onSign_absent (hNot hMinus)
      ((hLeft.text hStops).bind hOperation))

/-- Negation shares its sign with negative integers; the parenthesis that closes after the operand
decides. -/
theorem reads_unary {op : UnaryOp} {operand : Expr} (hOperand : ReadsBack reader operand)
    (rest : List Char) :
    Reads (parenthesised reader)
      (op.text.toList ++ (operand.text.toList ++ (")".toList ++ rest)))
      (.unary op operand) rest := by
  have hStops := stops_sign ')' (by decide) rest
  cases op with
  | negate =>
      exact reads_onSign_absent (by simp [UnaryOp.text]) (reads_onSign_present _
        ((hOperand.text hStops).bind (reads_onSign_present _ (reads_pure _ _))))
  | not =>
      exact reads_onSign_present _ ((hOperand.text hStops).bind
        ((reads_skip ")" _).bind (reads_pure _ _)))

/-! ## Expressions that are no calls -/

theorem length_lt_sizeOf {α : Type} [SizeOf α] (items : List α) : items.length < sizeOf items := by
  induction items with
  | nil =>
      rw [List.nil.sizeOf_spec]
      exact Nat.one_pos
  | cons item items ih =>
      rw [List.length_cons, List.cons.sizeOf_spec]
      omega

theorem sizeOf_value_lt (s : Stmt) : sizeOf s.value < sizeOf s := by
  cases s <;> simp only [Stmt.value, Stmt.binding.sizeOf_spec, Stmt.returning.sizeOf_spec,
    Stmt.expression.sizeOf_spec] <;> omega

theorem wellNamed_value {s : Stmt} (h : WellNamed s.names) : WellNamed s.value.names := by
  cases s with
  | binding bound value => exact fun name hName => h name (List.mem_cons_of_mem _ hName)
  | returning value => exact h
  | expression value => exact h

/-- The reader reads back all expressions up to a size. -/
def ReadsUpTo (fuel : Nat) (reader : Reader Expr) : Prop :=
  ∀ e : Expr, sizeOf e ≤ fuel → WellNamed e.names → ReadsBack reader e

/-- The parts of a tree that is well named are well named, so they can be read back one by one. -/
theorem wellNamed_of_mem_flatMap {α : Type} {names : α → List String} {items : List α}
    (h : WellNamed (items.flatMap names)) : ∀ item ∈ items, WellNamed (names item) :=
  fun _ hItem name hName => h name (List.mem_flatMap.mpr ⟨_, hItem, hName⟩)

namespace ReadsUpTo

/-- The elements of an array and the arguments of a call, which differ in their signs only. -/
theorem expressions (h : ReadsUpTo fuel reader) {close : String}
    (hClose : close = ")" ∨ close = "]") (es : List Expr) (hSize : sizeOf es ≤ fuel)
    (hNames : WellNamed (expressionNames es)) (rest : List Char) :
    Reads (enclosed close close ", " reader fuel)
      ((separated ", " (expressionTexts es)).toList ++ (close.toList ++ rest)) es rest := by
  rw [expressionNames_eq_flatMap] at hNames
  have hEach := wellNamed_of_mem_flatMap hNames
  have hLength := length_lt_sizeOf es
  refine reads_expressions hClose hEach (fun e hMem => h e ?_ (hEach e hMem)) (by omega) rest
  have := List.sizeOf_lt_of_mem hMem
  omega

theorem block (h : ReadsUpTo fuel reader) (ss : List Stmt) (hSize : sizeOf ss ≤ fuel)
    (hNames : WellNamed (statementNames ss)) (rest : List Char) :
    Reads (block fuel reader) ((braced (statementTexts ss)).toList ++ rest) ss rest := by
  rw [statementNames_eq_flatMap] at hNames
  have hEach := wellNamed_of_mem_flatMap hNames
  have hLength := length_lt_sizeOf ss
  refine reads_block hEach (fun s hMem => h s.value ?_ (wellNamed_value (hEach s hMem)))
    (by omega) rest
  have hItemSize := List.sizeOf_lt_of_mem hMem
  have hValueSize := sizeOf_value_lt s
  omega

theorem pairs (h : ReadsUpTo fuel reader) {pairs : List (Expr × Expr)} (hSize : sizeOf pairs ≤ fuel)
    (hNames : WellNamed (pairNames pairs)) (rest : List Char) :
    Reads (enclosed "\x7d" "\x7d" ", " (pair reader) fuel)
      ((separated ", " (pairTexts pairs)).toList ++ ("\x7d".toList ++ rest)) pairs rest := by
  rw [pairNames_eq_flatMap] at hNames
  have hEach := wellNamed_of_mem_flatMap hNames
  simp only [wellNamed_append] at hEach
  have hLength := length_lt_sizeOf pairs
  have hSizes : ∀ pair ∈ pairs, sizeOf pair.1 ≤ fuel ∧ sizeOf pair.2 ≤ fuel := by
    rintro ⟨key, value⟩ hMem
    have := List.sizeOf_lt_of_mem hMem
    rw [Prod.mk.sizeOf_spec] at this
    exact ⟨show sizeOf key ≤ fuel by omega, show sizeOf value ≤ fuel by omega⟩
  exact reads_pairs (fun pair hMem => (hEach pair hMem).1)
    (fun pair hMem => h _ (hSizes pair hMem).1 (hEach pair hMem).1)
    (fun pair hMem => h _ (hSizes pair hMem).2 (hEach pair hMem).2) (by omega) rest

end ReadsUpTo

/-- Signs are no parts of names, so what begins with one is not read as a word. -/
theorem reads_head_of_sign {c : Char} (hPart : isNamePart c = false) {input rest : List Char}
    {result : Expr} (h : Reads (symbolic fuel reader) (c :: input) result rest) :
    Reads (head fuel reader) (c :: input) result rest := by
  have hWord : Reads (span isNamePart) ([] ++ c :: input) [] (c :: input) :=
    reads_span (fun _ hMem => absurd hMem List.not_mem_nil) (stopsAt_cons hPart)
  refine hWord.bind ?_
  rwa [if_pos rfl]

/-- A word is read to its end before it is decided what it is the beginning of. -/
theorem reads_head_of_word (word input : List Char) {rest : List Char} {result : Expr}
    (hNonempty : word ≠ []) (hWord : ∀ c ∈ word, isNamePart c = true)
    (hStop : StopsAt isNamePart input) (h : Reads (worded fuel reader word) input result rest) :
    Reads (head fuel reader) (word ++ input) result rest := by
  refine (reads_span hWord hStop).bind ?_
  rwa [if_neg hNonempty]

theorem integerOf_toDigits (n : Nat) : integerOf (Nat.toDigits 10 n) = Int64.ofInt n := by
  rw [integerOf, Nat.ofDigitChars_ten_toDigits]

theorem reads_digits {n : Nat} {rest : List Char} (hEnds : Ends rest) :
    Reads (head fuel reader) (Nat.toDigits 10 n ++ rest) (.integer (Int64.ofInt n)) rest := by
  refine reads_head_of_word _ _ Nat.toDigits_ne_nil (fun _ => isNamePart_of_mem_toDigits)
    hEnds.word ?_
  have hAll : (Nat.toDigits 10 n).all Char.isDigit = true :=
    List.all_eq_true.mpr fun _ hMem => Nat.isDigit_of_mem_toDigits (by decide) (by decide) hMem
  rw [worded, if_neg (toDigits_ne_of_mem (c := 'i') (by decide) rfl),
    if_neg (toDigits_ne_of_mem (c := 'f') (by decide) rfl),
    if_neg (toDigits_ne_of_mem (c := 't') (by decide) rfl),
    if_neg (toDigits_ne_of_mem (c := 'f') (by decide) rfl), if_pos hAll, integerOf_toDigits]
  exact reads_pure _ _

theorem reads_negative {n : Nat} {rest : List Char} (hEnds : Ends rest) :
    Reads (head fuel reader) ('-' :: Nat.toDigits 10 n ++ rest) (.integer (-Int64.ofInt n))
      rest := by
  refine reads_head_of_sign rfl ?_
  have hDigits : Reads (do return Expr.integer (-integerOf (← span isNamePart)))
      (Nat.toDigits 10 n ++ rest) (.integer (-integerOf (Nat.toDigits 10 n))) rest :=
    (reads_span (fun _ hMem => isNamePart_of_mem_toDigits hMem) hEnds.word).bind (reads_pure _ _)
  rw [integerOf_toDigits] at hDigits
  exact reads_onSign_absent (by simp) (reads_onSign_absent (by simp) (reads_onSign_absent (by simp)
    (reads_onSign_absent (by simp) (reads_onSign_present "-" hDigits))))

/-- The digits of an integer are those of its magnitude. That of the least integer wraps around to
itself, so its sign is put back without an exception. -/
theorem ofInt_natAbs (n : Int64) :
    Int64.ofInt n.toInt.natAbs = if n.toInt < 0 then -n else n := by
  split
  next h =>
      have hAbs : (n.toInt.natAbs : Int) = -n.toInt := by omega
      rw [hAbs, Int64.ofInt_neg, Int64.ofInt_toInt]
  next h =>
      have hAbs : (n.toInt.natAbs : Int) = n.toInt := by omega
      rw [hAbs, Int64.ofInt_toInt]

/-- Integers of either sign, the least one included. -/
theorem reads_integer (n : Int64) {rest : List Char} (hEnds : Ends rest) :
    Reads (head fuel reader) ((integerText n).toList ++ rest) (.integer n) rest := by
  have hAbs := ofInt_natAbs n
  rw [toList_integerText]
  split at hAbs
  next hNegative =>
      have hReads : Reads (head fuel reader) ('-' :: Nat.toDigits 10 n.toInt.natAbs ++ rest)
          (.integer (-Int64.ofInt n.toInt.natAbs)) rest := reads_negative hEnds
      rw [hAbs, Int64.neg_neg] at hReads
      rwa [if_pos hNegative]
  next hNegative =>
      have hReads : Reads (head fuel reader) (Nat.toDigits 10 n.toInt.natAbs ++ rest)
          (.integer (Int64.ofInt n.toInt.natAbs)) rest := reads_digits hEnds
      rw [hAbs] at hReads
      rwa [if_neg hNegative]

/-- An identifier is what is left once its word is neither a keyword nor a number. -/
theorem reads_identifier {name : String} (h : IsName name) {rest : List Char} (hEnds : Ends rest) :
    Reads (head fuel reader) (name.toList ++ rest) (.identifier name) rest := by
  obtain ⟨first, more, hShape, hFirst, _⟩ := h.shape
  have hDigits : name.toList.all Char.isDigit = false := by
    rw [hShape, List.all_cons, isDigit_of_isNameStart hFirst, Bool.false_and]
  refine reads_head_of_word _ _ (hShape ▸ List.cons_ne_nil _ _) h.part hEnds.word ?_
  rw [worded, if_neg (h.toList_ne (by decide)), if_neg (h.toList_ne (by decide)),
    if_neg (h.toList_ne (by decide)), if_neg (h.toList_ne (by decide)), hDigits,
    if_neg Bool.false_ne_true, String.ofList_toList]
  exact reads_pure _ _

theorem reads_boolean (b : Bool) {rest : List Char} (hEnds : Ends rest) :
    Reads (head fuel reader) ((booleanText b).toList ++ rest) (.boolean b) rest := by
  cases b with
  | true =>
      exact reads_head_of_word "true".toList _ (by decide)
        (isNamePart_of_mem_keyword (by decide)) hEnds.word (reads_pure _ _)
  | false =>
      exact reads_head_of_word "false".toList _ (by decide)
        (isNamePart_of_mem_keyword (by decide)) hEnds.word (reads_pure _ _)

/-- The condition and the consequence are read back in front of whatever the rest is read as. -/
theorem reads_conditional {condition result : Expr} {consequence : List Stmt}
    {input rest : List Char} (hCondition : ReadsBack reader condition)
    (hConsequence : Reads (block fuel reader)
      ((braced (statementTexts consequence)).toList ++ input) consequence input)
    (hInput : Reads
      (onSign " else "
        (do return .conditional condition consequence (some (← block fuel reader)))
        (return .conditional condition consequence none)) input result rest) :
    Reads (head fuel reader)
      ("if ".toList ++ (condition.text.toList ++
        (" ".toList ++ ((braced (statementTexts consequence)).toList ++ input)))) result rest := by
  refine reads_head_of_word "if".toList (' ' :: _) (by decide)
    (isNamePart_of_mem_keyword (by decide)) (stopsAt_cons rfl) ?_
  exact (reads_skip " " _).bind ((hCondition.text (stops_braced _ _)).bind
    ((reads_skip " " _).bind (hConsequence.bind hInput)))

/-- Without an alternative, what follows must not begin like one. -/
theorem ReadsUpTo.conditional (h : ReadsUpTo fuel reader) {condition : Expr}
    {consequence : List Stmt} {alternative : Option (List Stmt)}
    (hSize : sizeOf (Expr.conditional condition consequence alternative) ≤ fuel + 1)
    (hNames : WellNamed (Expr.conditional condition consequence alternative).names)
    {rest : List Char} (hEnds : Ends rest) :
    Reads (head fuel reader)
      ((Expr.conditional condition consequence alternative).text.toList ++ rest)
      (.conditional condition consequence alternative) rest := by
  rw [Expr.conditional.sizeOf_spec] at hSize
  cases alternative with
  | none =>
      rw [Expr.names, wellNamed_append] at hNames
      simp only [Expr.text, String.toList_append, List.append_assoc]
      exact reads_conditional (h condition (by omega) hNames.1) (h.block _ (by omega) hNames.2 _)
        (reads_onSign_absent hEnds.alternative (reads_pure _ _))
  | some alternative =>
      rw [Expr.names, wellNamed_append, wellNamed_append] at hNames
      rw [Option.some.sizeOf_spec] at hSize
      have hAlternative := h.block _ (by omega) hNames.2.2 rest
      simp only [Expr.text, String.toList_append, List.append_assoc]
      exact reads_conditional (h condition (by omega) hNames.1)
        (h.block _ (by omega) hNames.2.1 _)
        (reads_onSign_present _ (hAlternative.bind (reads_pure _ _)))

theorem ReadsUpTo.function (h : ReadsUpTo fuel reader) {parameters : List String} {body : List Stmt}
    (hSize : sizeOf (Expr.function parameters body) ≤ fuel + 1)
    (hNames : WellNamed (Expr.function parameters body).names) (rest : List Char) :
    Reads (head fuel reader) ((Expr.function parameters body).text.toList ++ rest)
      (.function parameters body) rest := by
  rw [Expr.function.sizeOf_spec] at hSize
  rw [Expr.names, wellNamed_append] at hNames
  have hLength := length_lt_sizeOf parameters
  simp only [Expr.text, functionHead, String.toList_append, List.append_assoc]
  refine reads_head_of_word "fn".toList ('(' :: _) (by decide)
    (isNamePart_of_mem_keyword (by decide)) (stopsAt_cons rfl) ?_
  exact (reads_skip "(" _).bind ((reads_names hNames.1 (by omega) _).bind
    ((reads_skip " " _).bind ((h.block _ (by omega) hNames.2 rest).bind (reads_pure _ _))))

/-- An expression that is no call is read back wherever its last word and alternative end. -/
theorem ReadsUpTo.head (h : ReadsUpTo fuel reader) {e : Expr}
    (hCall : ∀ callee arguments, e ≠ .call callee arguments)
    (hSize : sizeOf e ≤ fuel + 1) (hNames : WellNamed e.names) {rest : List Char}
    (hEnds : Ends rest) : Reads (head fuel reader) (e.text.toList ++ rest) e rest := by
  cases e with
  | identifier name => exact reads_identifier (hNames name List.mem_cons_self) hEnds
  | integer n => exact reads_integer n hEnds
  | boolean b => exact reads_boolean b hEnds
  | string text =>
      rw [Expr.text, quoted, String.toList_ofList, List.append_assoc]
      refine reads_head_of_sign rfl ?_
      exact reads_onSign_absent (by simp) (reads_onSign_present "\""
        ((reads_literal text rest).bind (reads_pure _ _)))
  | unary op operand =>
      rw [Expr.unary.sizeOf_spec] at hSize
      simp only [Expr.text, String.toList_append, List.append_assoc]
      refine reads_head_of_sign (c := '(') rfl (reads_onSign_present "(" ?_)
      exact reads_unary (h operand (by omega) hNames) rest
  | binary op left right =>
      rw [Expr.binary.sizeOf_spec] at hSize
      rw [Expr.names, wellNamed_append] at hNames
      simp only [Expr.text, String.toList_append, List.append_assoc]
      refine reads_head_of_sign (c := '(') rfl (reads_onSign_present "(" ?_)
      refine reads_left hNames.1 (h left (by omega) hNames.1) ?_ (by simp)
        (reads_binary (h right (by omega) hNames.2) rest)
      cases op <;> exact stops_blank (by decide) _
  | conditional condition consequence alternative => exact h.conditional hSize hNames hEnds
  | function parameters body => exact h.function hSize hNames rest
  | call callee arguments => exact absurd rfl (hCall callee arguments)
  | array elements =>
      rw [Expr.array.sizeOf_spec] at hSize
      simp only [Expr.text, String.toList_append, List.append_assoc]
      refine reads_head_of_sign (c := '[') rfl ?_
      exact reads_onSign_absent (by simp) (reads_onSign_absent (by simp)
        (reads_onSign_present "["
          ((h.expressions (Or.inr rfl) _ (by omega) hNames rest).bind (reads_pure _ _))))
  | index object index =>
      rw [Expr.index.sizeOf_spec] at hSize
      rw [Expr.names, wellNamed_append] at hNames
      simp only [Expr.text, String.toList_append, List.append_assoc]
      refine reads_head_of_sign (c := '(') rfl (reads_onSign_present "(" ?_)
      refine reads_left hNames.1 (h object (by omega) hNames.1) ?_ (by simp)
        (reads_index (h index (by omega) hNames.2) rest)
      exact stops_sign '[' (by decide) _
  | hash pairs =>
      rw [Expr.hash.sizeOf_spec] at hSize
      simp only [Expr.text, String.toList_append, List.append_assoc]
      refine reads_head_of_sign (c := '\x7b') rfl ?_
      exact reads_onSign_absent (by simp) (reads_onSign_absent (by simp)
        (reads_onSign_absent (by simp) (reads_onSign_present "\x7b"
          ((h.pairs (by omega) hNames rest).bind (reads_pure _ _)))))

/-- Of the expressions that are no calls, only an integer begins with a minus sign. -/
theorem reads_turned {e : Expr} (hCall : ∀ callee arguments, e ≠ .call callee arguments)
    (hNames : WellNamed e.names) {chars rest : List Char} (hText : e.text.toList = '-' :: chars)
    (hEnds : Ends rest) : Reads (head fuel reader) (chars ++ rest) e.turned rest := by
  cases e with
  | identifier name =>
      obtain ⟨first, more, hShape, hFirst, _⟩ := (hNames name List.mem_cons_self).shape
      obtain ⟨rfl, _⟩ := List.cons.inj (hShape.symm.trans hText)
      cases hFirst
  | integer n =>
      have hAbs := ofInt_natAbs n
      rw [Expr.text, toList_integerText] at hText
      split at hText
      next hNegative =>
          obtain ⟨_, rfl⟩ := List.cons.inj hText
          rw [if_pos hNegative] at hAbs
          rw [Expr.turned, ← hAbs]
          exact reads_digits hEnds
      next => exact absurd hText (toDigits_ne_of_mem List.mem_cons_self rfl)
  | boolean b => cases b <;> cases hText
  | string text => simp [Expr.text, quoted] at hText
  | conditional condition consequence alternative =>
      cases alternative <;> simp [Expr.text] at hText
  | call callee arguments => exact absurd rfl (hCall callee arguments)
  | _ => simp [Expr.text, functionHead] at hText

theorem ReadsUpTo.head_of_meets (h : ReadsUpTo fuel reader) {e : Expr}
    (hCall : ∀ callee arguments, e ≠ .call callee arguments) (hSize : sizeOf e ≤ fuel + 1)
    (hNames : WellNamed e.names) {chars : List Char} {result : Expr} (hMeets : Meets e chars result)
    {rest : List Char} (hEnds : Ends rest) :
    Reads (TreeReader.head fuel reader) (chars ++ rest) result rest := by
  rcases hMeets with ⟨rfl, rfl⟩ | ⟨hText, rfl⟩
  · exact h.head hCall hSize hNames hEnds
  · exact reads_turned hCall hNames hText hEnds

/-- Where a call begins with a turned integer, it is its callee that does. -/
theorem Meets.of_call {callee : Expr} {arguments : List Expr} {chars : List Char} {result : Expr}
    (h : Meets (.call callee arguments) chars result) (hNames : WellNamed callee.names) :
    ∃ chars' result', Meets callee chars' result' ∧ result = .call result' arguments ∧
      chars = chars' ++
        ("(".toList ++ ((separated ", " (expressionTexts arguments)).toList ++ ")".toList)) := by
  obtain ⟨c, more, hCallee, _⟩ := (opensExpression_text callee hNames).first
  rcases h with ⟨rfl, rfl⟩ | ⟨hText, rfl⟩
  · refine ⟨callee.text.toList, callee, Or.inl ⟨rfl, rfl⟩, rfl, ?_⟩
    simp only [Expr.text, String.toList_append, List.append_assoc]
  · simp only [Expr.text, String.toList_append, List.append_assoc, hCallee,
      List.cons_append] at hText
    obtain ⟨rfl, rfl⟩ := List.cons.inj hText
    exact ⟨more, callee.turned, Or.inr ⟨hCallee, rfl⟩, rfl, rfl⟩

/-- Calls are read as long as arguments follow. -/
theorem reads_calls_none {callee : Expr} {rest : List Char} (h : ¬ "(".toList <+: rest)
    (count : Nat) : Reads (calls fuel reader count callee) rest callee rest := by
  cases count with
  | zero => exact reads_pure _ _
  | succ count => exact reads_onSign_absent h (reads_pure _ _)

/-- Whatever is read on from an expression is read after its head and the calls around it. The
induction goes down the callees, and each call is one step of what is read on. -/
theorem ReadsUpTo.reads_calls (h : ReadsUpTo fuel reader) (e : Expr) (hSize : sizeOf e ≤ fuel + 1)
    (hNames : WellNamed e.names) {chars : List Char} {result : Expr} (hMeets : Meets e chars result)
    {count : Nat} {rest after : List Char} {final : Expr} (hEnds : Ends rest)
    (hRest : Reads (calls fuel reader count result) rest final after) :
    Reads (TreeReader.head fuel reader >>= calls fuel reader (count + e.callDepth)) (chars ++ rest)
      final after := by
  cases e with
  | call callee arguments =>
      rw [Expr.call.sizeOf_spec] at hSize
      rw [Expr.names, wellNamed_append] at hNames
      obtain ⟨chars', result', hCallee, rfl, rfl⟩ := hMeets.of_call hNames.1
      have hArguments := h.expressions (Or.inl rfl) arguments (by omega) hNames.2 rest
      have hCall : Reads (calls fuel reader (count + 1) result') ("(".toList ++
          ((separated ", " (expressionTexts arguments)).toList ++ (")".toList ++ rest)))
          final after :=
        reads_onSign_present _ (hArguments.bind hRest)
      have hDepth : count + (Expr.call callee arguments).callDepth =
          count + 1 + callee.callDepth := by
        rw [Expr.callDepth]
        omega
      rw [hDepth, List.append_assoc, List.append_assoc, List.append_assoc]
      exact h.reads_calls callee (by omega) hNames.1 hCallee (ends_call _) hCall
  | _ => exact (h.head_of_meets (by rintro _ _ ⟨⟩) hSize hNames hMeets hEnds).bind hRest

end

/-- An expression is read back where it stops, if there is fuel enough. All that is nested inside an
expression is smaller, and so the reader with less fuel takes care of it. -/
theorem readsUpTo_expression (fuel : Nat) : ReadsUpTo fuel (expression fuel) := by
  induction fuel with
  | zero =>
      intro e hSize
      have := e.callDepth_lt_sizeOf
      omega
  | succ fuel ih =>
      intro e hSize hNames chars result hMeets rest hStops
      have hDepth := e.callDepth_lt_sizeOf
      have hReads := ih.reads_calls e hSize hNames hMeets hStops.toEnds
        (reads_calls_none hStops.call (fuel - e.callDepth))
      rwa [Nat.sub_add_cancel (by omega)] at hReads

theorem statement_text_ne_nil {s : Stmt} (hNames : WellNamed s.names) : s.text.toList ≠ [] := by
  cases s with
  | binding bound value => simp [Stmt.text]
  | returning value => simp [Stmt.text]
  | expression value =>
      obtain ⟨c, more, hText, _⟩ := (opensExpression_text value hNames).first
      rw [Stmt.text, hText]
      exact List.cons_ne_nil _ _

/-- Statements of a program stand side by side without braces, up to the end of the text. -/
theorem ReadsUpTo.program {fuel : Nat} {reader : Reader Expr} (h : ReadsUpTo fuel reader)
    (ss : List Stmt) (hSize : sizeOf ss ≤ fuel) (hNames : WellNamed (statementNames ss)) :
    Reads (TreeReader.program fuel reader) (programText ss).toList ss [] := by
  rw [statementNames_eq_flatMap] at hNames
  have hEach := wellNamed_of_mem_flatMap hNames
  have hLength := length_lt_sizeOf ss
  cases ss with
  | nil => rfl
  | cons s ss =>
      have hParts : Reads (parts "; " (statement reader) fuel)
          ((separated "; " ((s :: ss).map Stmt.text)).toList ++ []) (s :: ss) [] := by
        refine reads_parts (List.cons_ne_nil _ _) (fun item hItem after hAfter => ?_) (by simp)
          (by omega)
        have hItemSize := List.sizeOf_lt_of_mem hItem
        have hValueSize := sizeOf_value_lt item
        refine reads_statement (hEach item hItem)
          (h item.value (by omega) (wellNamed_value (hEach item hItem))) ?_
        rcases hAfter with rfl | ⟨_, rfl⟩
        · exact stops_nil
        · exact stops_sign ';' (by decide) _
      have hSome : (separated "; " ((s :: ss).map Stmt.text)).toList ≠ [] := by
        obtain ⟨more, hMore⟩ := exists_separated_cons "; " s.text (ss.map Stmt.text)
        rw [List.map_cons, hMore]
        exact List.append_ne_nil_of_left_ne_nil
          (statement_text_ne_nil (hEach s List.mem_cons_self)) _
      rw [List.append_nil] at hParts
      rw [programText, statementTexts_eq_map, Reads, StateT.run, TreeReader.program, if_neg hSome]
      exact hParts

end TreeReader

open TreeReader

/-- The text of a tree tells what the tree is. If all names in two expressions, two statements, two
blocks or two programs are names that programs can be written with, and their texts are the same,
then they are the same. -/
theorem texts_are_unambiguous :
    (∀ e e' : Expr, WellNamed e.names → WellNamed e'.names → e.text = e'.text → e = e') ∧
    (∀ s s' : Stmt, WellNamed s.names → WellNamed s'.names → s.text = s'.text → s = s') ∧
    (∀ b b' : List Stmt, WellNamed (statementNames b) → WellNamed (statementNames b') →
      blockText b = blockText b' → b = b') ∧
    ∀ p p' : List Stmt, WellNamed (statementNames p) → WellNamed (statementNames p') →
      programText p = programText p' → p = p' := by
  refine ⟨fun e e' hNames hNames' hText => ?_, fun s s' hNames hNames' hText => ?_,
    fun b b' hNames hNames' hText => ?_, fun p p' hNames hNames' hText => ?_⟩
  · have hReads := readsUpTo_expression (sizeOf e + sizeOf e')
    have hFirst := (hReads e (by omega) hNames).text stops_nil
    have hSecond := (hReads e' (by omega) hNames').text stops_nil
    rw [hText] at hFirst
    exact hFirst.unique hSecond
  · have hReads := readsUpTo_expression (sizeOf s + sizeOf s')
    have hSize := sizeOf_value_lt s
    have hSize' := sizeOf_value_lt s'
    have hFirst := reads_statement hNames
      (hReads s.value (by omega) (wellNamed_value hNames)) stops_nil
    have hSecond := reads_statement hNames'
      (hReads s'.value (by omega) (wellNamed_value hNames')) stops_nil
    rw [hText] at hFirst
    exact hFirst.unique hSecond
  · have hReads := readsUpTo_expression (sizeOf b + sizeOf b')
    have hFirst := hReads.block b (by omega) hNames []
    have hSecond := hReads.block b' (by omega) hNames' []
    rw [show braced (statementTexts b) = _ from hText] at hFirst
    exact hFirst.unique hSecond
  · have hReads := readsUpTo_expression (sizeOf p + sizeOf p')
    have hFirst := hReads.program p (by omega) hNames
    have hSecond := hReads.program p' (by omega) hNames'
    rw [hText] at hFirst
    exact hFirst.unique hSecond

/-- A program with an empty block and an empty hash, signs inside a string, a negation of an integer
and an integer below zero, and a call of a conditional without an alternative. -/
def signsAndBraces : List Stmt :=
  [.binding "f" (.function ["x"] [.expression (.conditional (.binary .less (.identifier "x")
      (.integer (-5))) [] (some [.returning (.string "\"\x7d; ")]))]),
    .expression (.unary .negate (.call (.integer 5) [])),
    .expression (.binary .subtract (.call (.integer (-5)) []) (.hash [])),
    .expression (.call (.conditional (.boolean true) [] none) [.array []])]

def signsAndBracesText : String :=
  "let f = fn(x) \x7b if (x < -5) \x7b \x7d else \x7b return \"\\\"\x7d; \" \x7d \x7d; "
    ++ "(-5()); (-5() - \x7b\x7d); if true \x7b \x7d([])"

theorem wellNamed_signsAndBraces : WellNamed (statementNames signsAndBraces) := by
  have hF : IsName "f" := ⟨by decide, 'f', [], rfl, rfl, by simp⟩
  have hX : IsName "x" := ⟨by decide, 'x', [], rfl, rfl, by simp⟩
  have hNames : statementNames signsAndBraces = ["f", "x", "x"] := rfl
  simp [hNames, hF, hX]

theorem signsAndBraces_is_unambiguous :
    WellNamed (statementNames signsAndBraces) ∧
    programText signsAndBraces = signsAndBracesText ∧
    ∀ p, WellNamed (statementNames p) → programText p = signsAndBracesText →
      p = signsAndBraces := by
  have hText : programText signsAndBraces = signsAndBracesText := by decide
  refine ⟨wellNamed_signsAndBraces, hText, fun p hNames hSame => ?_⟩
  exact texts_are_unambiguous.2.2.2 p signsAndBraces hNames wellNamed_signsAndBraces
    (hSame.trans hText.symm)

end Tandem
