import Mathlib.Data.List.Forall2
import Tandem.Proofs.Code.Listing
import Tandem.Proofs.Tree.Names
/-!
Listings over a pool. Each line is the line without a pool, followed in parentheses by the short
form of the pool entry that the instruction names, if there is one. The short form shows some texts
as they are: the beginning of a long string, and whatever texts and names are found inside an array,
a hash, a function or an error. A line feed in one of them breaks the line, and nothing else does.
-/
namespace Tandem

open Text

def Key.rawTexts : Key → List String
  | integer _ => []
  | boolean _ => []
  | string _ text => [text]

theorem Key.lineFeed_mem_text_iff (key : Key) :
    '\n' ∈ key.text.toList ↔ AnyLineFeed key.rawTexts := by
  cases key with
  | integer n => simp [text, rawTexts, lineFeed_not_mem_integerText]
  | boolean b => simp [text, rawTexts, lineFeed_not_mem_booleanText]
  | string id text => simp [Key.text, rawTexts]

namespace Value

mutual

/-- The texts that the text of a value shows as they are. -/
def rawTexts : Value → List String
  | null => []
  | integer _ => []
  | boolean _ => []
  | string _ text => [text]
  | array _ elements => elementRawTexts elements
  | hash _ entries => entryRawTexts entries
  | function _ parameters body _ => parameters ++ statementNames body
  | builtin _ => []
  | error _ message => [message]
  | returning value => rawTexts value
  | compiled _ _ => []
  | closure _ _ _ => []

def elementRawTexts : List Value → List String
  | [] => []
  | value :: rest => rawTexts value ++ elementRawTexts rest

def entryRawTexts : List (Key × Value) → List String
  | [] => []
  | (key, value) :: rest => key.rawTexts ++ rawTexts value ++ entryRawTexts rest

end

mutual

/-- Texts of values are put together without line feeds, so one can only come from a text that is
shown as it is. -/
theorem lineFeed_mem_text_iff (value : Value) :
    '\n' ∈ value.text.toList ↔ AnyLineFeed value.rawTexts := by
  cases value with
  | null => simp [text, rawTexts]
  | integer n => simp [text, rawTexts, lineFeed_not_mem_integerText]
  | boolean b => simp [text, rawTexts, lineFeed_not_mem_booleanText]
  | string id shown => simp [text, rawTexts]
  | array id elements =>
      simp [text, rawTexts, lineFeed_mem_separated_iff, anyLineFeed_texts_iff elements]
  | hash id entries =>
      simp [text, rawTexts, lineFeed_mem_separated_iff, anyLineFeed_entryTexts_iff entries]
  | function id parameters body scope =>
      simp [text, rawTexts, blockText, lineFeed_mem_functionHead_iff, lineFeed_mem_braced_iff,
        anyLineFeed_statementTexts_iff]
  | builtin b => simp [text, rawTexts]
  | error id message => simp [text, rawTexts]
  | returning value => simp [text, rawTexts, lineFeed_mem_text_iff value]
  | compiled id f => simp [text, rawTexts]
  | closure id f free => simp [text, rawTexts]

theorem anyLineFeed_texts_iff (values : List Value) :
    AnyLineFeed (texts values) ↔ AnyLineFeed (elementRawTexts values) := by
  cases values with
  | nil => simp [texts, elementRawTexts]
  | cons value rest =>
      simp [texts, elementRawTexts, lineFeed_mem_text_iff value, anyLineFeed_texts_iff rest]

theorem anyLineFeed_entryTexts_iff (entries : List (Key × Value)) :
    AnyLineFeed (entryTexts entries) ↔ AnyLineFeed (entryRawTexts entries) := by
  cases entries with
  | nil => simp [entryTexts, entryRawTexts]
  | cons entry rest =>
      obtain ⟨key, value⟩ := entry
      simp [entryTexts, entryRawTexts, key.lineFeed_mem_text_iff, lineFeed_mem_text_iff value,
        anyLineFeed_entryTexts_iff rest, or_assoc]

end

/-- The short form of the value would put a line feed into a listing. A string of at most twenty
characters is quoted; of a longer one the first twenty are shown as they are. -/
def BreaksLine : Value → Prop
  | string _ text => 20 < text.length ∧ '\n' ∈ text.toList.take 20
  | value => AnyLineFeed value.rawTexts

/-- A string that is short enough is shown in quotes and cannot break its line; a long one is cut
off and shown as it is. -/
theorem lineFeed_mem_brief_iff (value : Value) :
    '\n' ∈ value.brief.toList ↔ value.BreaksLine := by
  fun_cases brief value
  case case1 id text hLong => simp [BreaksLine, hLong]
  case case2 id text hShort => simp [BreaksLine, hShort, lineFeed_not_mem_quoted]
  case case3 id f =>
      have hNumber := (isWord_toString f.parameters).not_mem (c := '\n') rfl
      simp only [String.toList_append, List.mem_append, hNumber, or_false]
      simp [BreaksLine, rawTexts]
  case case4 hString _ =>
      rw [lineFeed_mem_text_iff, BreaksLine]
      exact hString

end Value

namespace Code

def listingOver? (pool : List Value) (code : Code) : Option String :=
  (code.lines? pool).map ofLines

/-- The instruction stream has an instruction that names `value` in the pool. -/
def NamesInPool (pool : List Value) (code : Code) (value : Value) : Prop :=
  ∃ entries, code.scan? = some entries ∧ ∃ entry ∈ entries, entry.item.constant? pool = some value

/-- The line is `plain`, or it is `plain`, a blank, and the short form of a pool entry in
parentheses. -/
def Annotates (pool : List Value) (plain line : String) : Prop :=
  line = plain ∨ ∃ value ∈ pool, line = plain ++ " (" ++ value.brief ++ ")"

theorem Item.mem_of_constant? {pool : List Value} {item : Item} {value : Value}
    (h : item.constant? pool = some value) : value ∈ pool := by
  unfold constant? at h
  split at h
  · exact List.mem_of_getElem? h
  · exact List.mem_of_getElem? h
  · cases h

namespace Entry

/-- Annotations are appended to the plain line and change nothing in it. -/
theorem annotates_line (pool : List Value) (entry : Entry) :
    Annotates pool entry.plainLine (entry.line pool) := by
  rw [line]
  split
  next value hNamed => exact Or.inr ⟨value, Item.mem_of_constant? hNamed, rfl⟩
  next => exact Or.inl rfl

/-- The plain line has no line feed, so it is the constant that breaks a line or nothing. -/
theorem lineFeed_mem_line_iff (pool : List Value) (entry : Entry) :
    '\n' ∈ (entry.line pool).toList ↔
      ∃ value, entry.item.constant? pool = some value ∧ value.BreaksLine := by
  rw [line]
  split
  next value hNamed =>
      simp [hNamed, entry.lineFeed_not_mem_plainLine, Value.lineFeed_mem_brief_iff]
  next hNone => simp [hNone, entry.lineFeed_not_mem_plainLine]

end Entry

/-- The lines over a pool are single lines exactly if no pool entry that is named breaks its
line. -/
theorem not_anyLineFeed_lines_iff {pool : List Value} {code : Code} {entries : List Entry}
    (hScan : code.scan? = some entries) :
    ¬ AnyLineFeed (entries.map (Entry.line pool)) ↔
      ∀ value, code.NamesInPool pool value → ¬ value.BreaksLine := by
  constructor
  · rintro hFree value ⟨others, hOthers, entry, hEntry, hNamed⟩ hBreaks
    obtain rfl := Option.some.inj (hScan.symm.trans hOthers)
    exact hFree ⟨entry.line pool, List.mem_map_of_mem hEntry,
      (entry.lineFeed_mem_line_iff pool).mpr ⟨value, hNamed, hBreaks⟩⟩
  · rintro hNone ⟨line, hLine, hFeed⟩
    obtain ⟨entry, hEntry, rfl⟩ := List.mem_map.mp hLine
    obtain ⟨value, hNamed, hBreaks⟩ := (entry.lineFeed_mem_line_iff pool).mp hFeed
    exact hNone value ⟨entries, hScan, entry, hEntry, hNamed⟩ hBreaks

/-- A stream that has a listing has one over every pool. It has as many lines as the listing without
the pool exactly if no pool entry that is named breaks its line, and then each line is the line
without the pool, possibly followed by a blank and the short form of a pool entry in parentheses. -/
theorem listings_over_pools_keep_lines (pool : List Value) (code : Code) :
    ∀ plain, code.listing? = some plain → ∃ annotated, code.listingOver? pool = some annotated ∧
      ((linesOf annotated).length = (linesOf plain).length ↔
        ∀ value, code.NamesInPool pool value → ¬ value.BreaksLine) ∧
      ((∀ value, code.NamesInPool pool value → ¬ value.BreaksLine) →
        List.Forall₂ (Annotates pool) (linesOf plain) (linesOf annotated)) := by
  intro plain hPlain
  obtain ⟨entries, walk, hLines, _⟩ := exists_walk_of_listing? hPlain
  have hScan := scan?_eq_some_iff.mpr walk
  refine ⟨ofLines (entries.map (Entry.line pool)), by simp [listingOver?, lines?, hScan], ?_, ?_⟩
  · rw [hLines, ← not_anyLineFeed_lines_iff hScan, ← length_linesOf_ofLines_iff, List.length_map,
      List.length_map]
  · intro hNone
    rw [hLines, linesOf_ofLines ((not_anyLineFeed_lines_iff hScan).mpr hNone),
      List.forall₂_map_left_iff, List.forall₂_map_right_iff, List.forall₂_same]
    exact fun entry _ => entry.annotates_line pool

/-- Instructions that name a short string with a line feed in it, a compiled function, a long string
with a line feed after the part that is shown, and an entry that the pool does not have. -/
def namesFeeds : Code := ofList [0, 0, 0, 28, 0, 1, 0, 0, 0, 2, 0, 0, 9]

def feedsPool : List Value :=
  [.string (.object 0) "up\ndown", .compiled (.object 1) ⟨{}, 0, 0⟩,
    .string (.object 2) "aaaaaaaaaaaaaaaaaaaaaaaa\n"]

theorem feedsPool_keeps_lines {value : Value} (h : value ∈ feedsPool) : ¬ value.BreaksLine := by
  simp only [feedsPool, List.mem_cons, List.not_mem_nil, or_false] at h
  rcases h with rfl | rfl | rfl
  · exact fun hBreaks => absurd hBreaks.1 (by decide)
  · exact not_anyLineFeed_nil
  · exact fun hBreaks => absurd hBreaks.2 (by decide)

theorem namesFeeds_keeps_lines :
    ∃ plain, namesFeeds.listing? = some plain ∧
      (∀ value, namesFeeds.NamesInPool feedsPool value → ¬ value.BreaksLine) ∧
      ∃ annotated, namesFeeds.listingOver? feedsPool = some annotated ∧
        List.Forall₂ (Annotates feedsPool) (linesOf plain) (linesOf annotated) := by
  have hPlain : namesFeeds.listing? = some (ofLines
      ["0000 Constant 0", "0003 Closure 1 0", "0007 Constant 2", "0010 Constant 9"]) := by decide
  have hNone : ∀ value, namesFeeds.NamesInPool feedsPool value → ¬ value.BreaksLine := by
    rintro value ⟨_, _, _, _, hNamed⟩
    exact feedsPool_keeps_lines (Item.mem_of_constant? hNamed)
  obtain ⟨annotated, hAnnotated, _, hLines⟩ :=
    listings_over_pools_keep_lines feedsPool namesFeeds _ hPlain
  exact ⟨_, hPlain, hNone, annotated, hAnnotated, hLines hNone⟩

/-- Of a string of twenty-one characters with a line feed in the middle, the first twenty are shown
as they are, and one line becomes two. -/
theorem long_string_breaks_line :
    ∃ plain annotated, (ofList [0, 0, 0]).listing? = some plain ∧
      (ofList [0, 0, 0]).listingOver? [.string (.object 0) "aaaaaaaaaa\naaaaaaaaaa"] =
        some annotated ∧
      linesOf plain = ["0000 Constant 0"] ∧
      linesOf annotated = ["0000 Constant 0 (\"aaaaaaaaaa", "aaaaaaaaa...\")"] :=
  ⟨ofLines ["0000 Constant 0"], ofLines ["0000 Constant 0 (\"aaaaaaaaaa", "aaaaaaaaa...\")"],
    by decide, by decide, by decide, by decide⟩

end Code

end Tandem
