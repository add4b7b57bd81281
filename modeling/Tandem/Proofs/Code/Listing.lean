import Tandem.Code.Listing
import Tandem.Proofs.Code.Reading
import Tandem.Proofs.Code.RoundTrip
import Tandem.Proofs.Text.Separated
/-!
Listings without a pool. A line is made of words: the offset, then the name of the opcode and its
operands, or the two words that stand for a byte that is no opcode and the number of that byte. The
words tell which item it was, so a line belongs to one entry only and a listing to one stream only.
-/
namespace Tandem

open Text

namespace Opcode

theorem ofName?_name (op : Opcode) : ofName? op.name = some op := by
  cases op <;> rfl

theorem eq_of_name_eq {op other : Opcode} (h : op.name = other.name) : op = other := by
  have hFound := op.ofName?_name
  rw [h, ofName?_name] at hFound
  exact (Option.some.inj hFound).symm

/-- No opcode is called what a byte is called that is no opcode. -/
theorem name_ne_unknown (op : Opcode) : op.name ≠ "Unknown" := by
  intro hName
  have hFound := op.ofName?_name
  rw [hName] at hFound
  cases hFound

theorem isWord_name (op : Opcode) : IsWord op.name := by
  cases op <;> rfl

end Opcode

namespace Code

namespace Item

/-- The words that stand for an item on its line. -/
def words : Item → List String
  | unknown byte => ["Unknown", "opcode", toString byte.toNat]
  | instruction op operands => op.name :: operands.map fun n => toString n

theorem isWord_of_mem_words {item : Item} {word : String} (h : word ∈ item.words) :
    IsWord word := by
  cases item with
  | unknown byte =>
      simp only [words, List.mem_cons, List.not_mem_nil, or_false] at h
      rcases h with rfl | rfl | rfl
      · rfl
      · rfl
      · exact isWord_toString _
  | instruction op operands =>
      rcases List.mem_cons.mp h with rfl | hOperand
      · exact op.isWord_name
      · obtain ⟨n, _, rfl⟩ := List.mem_map.mp hOperand
        exact isWord_toString n

theorem eq_of_words_eq {item other : Item} (h : item.words = other.words) : item = other := by
  cases item with
  | unknown byte =>
      cases other with
      | unknown otherByte =>
          injection h with _ h
          injection h with _ h
          injection h with hByte _
          rw [UInt8.toNat_inj.mp (toString_injective hByte)]
      | instruction op operands =>
          injection h with hName _
          exact absurd hName.symm op.name_ne_unknown
  | instruction op operands =>
      cases other with
      | unknown byte =>
          injection h with hName _
          exact absurd hName op.name_ne_unknown
      | instruction otherOp otherOperands =>
          injection h with hName hOperands
          rw [Opcode.eq_of_name_eq hName,
            (List.map_inj_right fun _ _ => toString_injective).mp hOperands]

end Item

namespace Entry

theorem plainLine_eq_separated (entry : Entry) :
    entry.plainLine = separated " " (padded 4 entry.offset :: entry.item.words) := by
  obtain ⟨offset, item⟩ := entry
  cases item with
  | unknown byte =>
      have hWords : "Unknown opcode " = "Unknown" ++ " " ++ ("opcode" ++ " ") := rfl
      simp only [plainLine, Item.words, separated, hWords, String.append_assoc]
  | instruction op operands => rfl

theorem isWord_of_mem_line {entry : Entry} {word : String}
    (h : word ∈ padded 4 entry.offset :: entry.item.words) : IsWord word := by
  rcases List.mem_cons.mp h with rfl | hItem
  · exact isWord_padded 4 entry.offset
  · exact Item.isWord_of_mem_words hItem

/-- A line is one line. -/
theorem lineFeed_not_mem_plainLine (entry : Entry) : '\n' ∉ entry.plainLine.toList := by
  rw [plainLine_eq_separated, lineFeed_mem_separated_iff (by decide)]
  rintro ⟨word, hWord, hFeed⟩
  exact (isWord_of_mem_line hWord).not_mem rfl hFeed

/-- A line belongs to one entry only. -/
theorem eq_of_plainLine_eq {entry other : Entry} (h : entry.plainLine = other.plainLine) :
    entry = other := by
  rw [plainLine_eq_separated, plainLine_eq_separated] at h
  have hWords := eq_of_separated_eq (c := ' ') rfl (List.cons_ne_nil _ _) (List.cons_ne_nil _ _)
    (fun _ hWord => (isWord_of_mem_line hWord).not_mem rfl)
    (fun _ hWord => (isWord_of_mem_line hWord).not_mem rfl) h
  injection hWords with hOffset hItem
  cases entry
  cases other
  cases padded_injective hOffset
  cases Item.eq_of_words_eq hItem
  rfl

end Entry

/-- The lines of a listing are found again in its text. -/
theorem linesOf_plainLines (entries : List Entry) :
    linesOf (ofLines (entries.map Entry.plainLine)) = entries.map Entry.plainLine := by
  refine linesOf_ofLines ?_
  rintro ⟨line, hLine, hFeed⟩
  obtain ⟨entry, _, rfl⟩ := List.mem_map.mp hLine
  exact entry.lineFeed_not_mem_plainLine hFeed

theorem listing?_eq_none_iff (code : Code) :
    code.listing? = none ↔ ∃ offset, code.ReadTo offset ∧ code.CutShortAt offset := by
  rw [listing?, plainLines?, Option.map_eq_none_iff, Option.map_eq_none_iff, scan?_eq_none_iff]

/-- A listing has the lines of the entries of a walk through the stream. -/
theorem exists_walk_of_listing? {code : Code} {text : String} (h : code.listing? = some text) :
    ∃ entries, Walk code 0 entries ∧ linesOf text = entries.map Entry.plainLine ∧
      text = ofLines (entries.map Entry.plainLine) := by
  obtain ⟨lines, hLines, rfl⟩ := Option.map_eq_some_iff.mp h
  obtain ⟨entries, hScan, rfl⟩ := Option.map_eq_some_iff.mp hLines
  exact ⟨entries, scan?_eq_some_iff.mp hScan, linesOf_plainLines entries, rfl⟩

/-- A listing belongs to one stream only. -/
theorem eq_of_listing?_eq {first second : Code} {text : String}
    (hFirst : first.listing? = some text) (hSecond : second.listing? = some text) :
    first = second := by
  obtain ⟨entries, walk, hLines, _⟩ := exists_walk_of_listing? hFirst
  obtain ⟨others, walk', hLines', _⟩ := exists_walk_of_listing? hSecond
  obtain rfl : entries = others :=
    (List.map_inj_right fun _ _ => Entry.eq_of_plainLine_eq).mp (hLines.symm.trans hLines')
  exact eq_of_toList_eq (walk.bytes_eq.trans walk'.bytes_eq.symm)

/-- There is no listing exactly when a reading from the start comes to an opcode that lacks operand
bytes. Otherwise the listing has one line for every offset that the reading comes to, in increasing
order, every byte of the stream belongs to the item of exactly one line, and no other stream has
the same listing. -/
theorem plain_listings_are_faithful :
    (∀ code : Code,
      (code.listing? = none ↔ ∃ offset, code.ReadTo offset ∧ code.CutShortAt offset) ∧
      ∀ text, code.listing? = some text → ∃ entries, code.ListedBy entries ∧
        linesOf text = entries.map Entry.plainLine ∧
        text = ofLines (entries.map Entry.plainLine)) ∧
    ∀ first second : Code, ∀ text,
      first.listing? = some text → second.listing? = some text → first = second := by
  refine ⟨fun code => ⟨listing?_eq_none_iff code, fun text hText => ?_⟩,
    fun _ _ _ => eq_of_listing?_eq⟩
  obtain ⟨entries, walk, hLines, hText⟩ := exists_walk_of_listing? hText
  exact ⟨entries, walk.listedBy, hLines, hText⟩

/-- A byte that is no opcode, an instruction with two operands and one with none. -/
def strayByte : Code := ofList [200, 28, 1, 0, 7, 1]

/-- The same stream, cut off before the second operand. -/
def strayByteCutShort : Code := ofList [200, 28, 1, 0]

def strayByteLines : List String :=
  ["0000 Unknown opcode 200", "0001 Closure 256 7", "0005 Pop"]

theorem listing?_strayByte : strayByte.listing? = some (ofLines strayByteLines) := by
  decide

theorem strayByte_is_listed_faithfully :
    (∃ entries, strayByte.ListedBy entries ∧ strayByteLines = entries.map Entry.plainLine) ∧
    (∀ other : Code, other.listing? = some (ofLines strayByteLines) → other = strayByte) ∧
    ∃ offset, strayByteCutShort.ReadTo offset ∧ strayByteCutShort.CutShortAt offset := by
  refine ⟨?_, ?_, ?_⟩
  · obtain ⟨entries, hListed, hLines, _⟩ :=
      (plain_listings_are_faithful.1 strayByte).2 _ listing?_strayByte
    refine ⟨entries, hListed, ?_⟩
    rw [← hLines]
    decide
  · intro other hOther
    exact plain_listings_are_faithful.2 other strayByte _ hOther listing?_strayByte
  · exact (plain_listings_are_faithful.1 strayByteCutShort).1.mp (by decide)

end Code

end Tandem
