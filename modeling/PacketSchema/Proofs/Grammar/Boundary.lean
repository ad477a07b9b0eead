import PacketSchema.Grammar.Production
import PacketSchema.Proofs.Grammar.Bare

/-!
# Words end at their boundaries

The word at a place of a text is the longest run of word characters that begins there. What is read
at the place as an identifier, as any keyword or as one certain keyword is told by that word alone,
and is the whole of it. So no keyword is read where a longer word begins with it, and a word that
begins with a keyword or has one inside is an identifier like any other. A word begins where one
asks for it: what stands before the place, such as the digits of an integer, is no part of it.
-/

namespace PacketSchema

open Grammar (Keyword isWordCharacter IsIdentifier)

namespace Cursor

/-- The longest run of word characters from a place on. -/
def word (cursor : Cursor) : List Char := cursor.rest.takeWhile isWordCharacter

def afterWord (cursor : Cursor) : Cursor :=
  cursor.past cursor.word (cursor.rest.dropWhile isWordCharacter)

variable {cursor after : Cursor} {text : List Char}

theorem word_within (cursor : Cursor) :
    ∀ character ∈ cursor.word, isWordCharacter character = true :=
  fun _ member => List.mem_takeWhile_imp member

/-- A run of word characters that is passed up to a break is the whole word. -/
theorem whole_word_iff (within : ∀ character ∈ text, isWordCharacter character = true) :
    cursor.Passes text after ∧ Breaks isWordCharacter after.rest ↔
      cursor.word = text ∧ after = cursor.afterWord := by
  have longest : (Grammar.Parser.span isWordCharacter).run cursor =
      some (cursor.word, cursor.afterWord) := rfl
  constructor
  · intro passed
    have read := Grammar.Parser.span_iff.mpr ⟨within, passed⟩
    rw [longest] at read
    cases read
    exact ⟨rfl, rfl⟩
  · rintro ⟨rfl, rfl⟩
    exact (Grammar.Parser.span_iff.mp longest).2

end Cursor

namespace Grammar

theorem Keyword.letters_begin (keyword : Keyword) :
    ∃ first others, keyword.letters = first :: others ∧ first.isDigit = false := by
  cases keyword <;> exact ⟨_, _, rfl, by decide⟩

/-- An identifier is a run of word characters that is not empty, begins with no digit and is no
keyword. -/
theorem identifier_iff {name : String} :
    IsIdentifier name ↔
      (∀ character ∈ name.toList, isWordCharacter character = true) ∧ name.toList ≠ [] ∧
        Breaks Char.isDigit name.toList ∧ ∀ keyword : Keyword, name.toList ≠ keyword.letters := by
  constructor
  · rintro ⟨word, free⟩
    refine ⟨word.within, word.nonempty, ?_, fun keyword same => ?_⟩
    · obtain ⟨first, others, written, start⟩ := word.start
      rw [written]
      apply breaks_cons
      rw [Bool.eq_false_iff]
      intro digit
      rw [not_start_of_digit digit] at start
      cases start
    · exact free keyword (String.toList_inj.mp same.symm)
  · rintro ⟨within, nonempty, breaks, free⟩
    obtain ⟨first, others, written⟩ := List.exists_cons_of_ne_nil nonempty
    refine ⟨⟨⟨first, others, written, ?_⟩, within⟩, fun keyword same => ?_⟩
    · apply start_of_word_character
      · apply within
        rw [written]
        exact List.mem_cons_self
      · apply breaks
        rw [written]
        rfl
    · exact free keyword (congrArg String.toList same.symm)

namespace Parser

variable {cursor after : Cursor} {keyword : Keyword} {name : String} {taken : Unit}

theorem keyword_at_word_iff :
    bareKeyword.run cursor = some (keyword, after) ↔
      cursor.word = keyword.letters ∧ after = cursor.afterWord :=
  bare_keyword_iff.trans (Cursor.whole_word_iff keyword.letters_within)

theorem reserved_at_word_iff :
    (bareReserved keyword).run cursor = some (taken, after) ↔
      cursor.word = keyword.letters ∧ after = cursor.afterWord :=
  bare_reserved_iff.trans (Cursor.whole_word_iff keyword.letters_within)

theorem ident_at_word_iff :
    bareIdent.run cursor = some (name, after) ↔
      (cursor.word ≠ [] ∧ Breaks Char.isDigit cursor.word ∧
        ∀ keyword : Keyword, cursor.word ≠ keyword.letters) ∧
      name = String.ofList cursor.word ∧ after = cursor.afterWord := by
  rw [bare_ident_iff, identifier_iff]
  constructor
  · rintro ⟨⟨within, proper⟩, passed⟩
    obtain ⟨same, behind⟩ := (Cursor.whole_word_iff within).mp passed
    rw [same]
    exact ⟨proper, String.ofList_toList.symm, behind⟩
  · rintro ⟨proper, rfl, behind⟩
    rw [String.toList_ofList]
    exact ⟨⟨cursor.word_within, proper⟩,
      (Cursor.whole_word_iff cursor.word_within).mpr ⟨rfl, behind⟩⟩

theorem keyword_refused_iff :
    bareKeyword.run cursor = none ↔ ∀ keyword : Keyword, cursor.word ≠ keyword.letters := by
  constructor
  · intro refused keyword same
    rw [keyword_at_word_iff.mpr ⟨same, rfl⟩] at refused
    cases refused
  · intro free
    rw [Option.eq_none_iff_forall_ne_some]
    rintro ⟨keyword, after⟩ read
    exact free keyword (keyword_at_word_iff.mp read).1

theorem reserved_refused (other : cursor.word ≠ keyword.letters) :
    (bareReserved keyword).run cursor = none := by
  rw [Option.eq_none_iff_forall_ne_some]
  rintro ⟨taken, after⟩ read
  exact other (reserved_at_word_iff.mp read).1

/-- A word that goes on behind a keyword is no keyword, whichever one might be meant. -/
theorem longer_word_ne {more : List Char} (longer : cursor.word = keyword.letters ++ more)
    (nonempty : more ≠ []) (other : Keyword) : cursor.word ≠ other.letters := by
  intro same
  have front : keyword.letters <+: other.letters := ⟨more, longer.symm.trans same⟩
  cases keyword_of_front front
  rw [longer] at same
  exact nonempty (List.append_right_eq_self.mp same)

/-- A keyword with more of the word before or behind it is not the word. -/
theorem enclosed_ne_word {before behind : List Char}
    (enclosed : cursor.word = before ++ keyword.letters ++ behind)
    (more : before ≠ [] ∨ behind ≠ []) : cursor.word ≠ keyword.letters := by
  intro same
  have lengths := congrArg List.length (enclosed.symm.trans same)
  rw [List.length_append, List.length_append] at lengths
  have none : before.length = 0 ∧ behind.length = 0 := by omega
  rcases more with first | last
  · exact first (List.length_eq_zero_iff.mp none.1)
  · exact last (List.length_eq_zero_iff.mp none.2)

/-- A word with a keyword in it begins with a digit only where it does so before the keyword. -/
theorem enclosed_begins {before behind : List Char}
    (enclosed : cursor.word = before ++ keyword.letters ++ behind)
    (breaks : Breaks Char.isDigit before) :
    cursor.word ≠ [] ∧ Breaks Char.isDigit cursor.word := by
  rw [enclosed]
  cases before with
  | nil =>
      obtain ⟨first, others, written, letter⟩ := keyword.letters_begin
      rw [List.nil_append, written, List.cons_append]
      exact ⟨List.cons_ne_nil _ _, breaks_cons letter⟩
  | cons first others =>
      rw [List.cons_append, List.cons_append]
      exact ⟨List.cons_ne_nil _ _, breaks_cons (breaks first rfl)⟩

end Parser

namespace Production

open PacketSchema.Tree (Node)
open PacketSchema.Grammar.Parser

variable {Item : Type}

theorem run_one (parser : Parser Item) (node : Item → Node) (cursor : Cursor) :
    (one parser node).run cursor =
      (parser.run cursor).map fun (item, after) => ([node item], after) := by
  unfold one
  rw [run_bind]
  cases parser.run cursor <;> rfl

theorem run_silent (parser : Parser Item) (cursor : Cursor) :
    (silent parser).run cursor = (parser.run cursor).map fun (_, after) => ([], after) := by
  unfold silent
  rw [run_bind]
  cases parser.run cursor <;> rfl

theorem run_ident (bound : Nat) (cursor : Cursor) :
    (nodes bound (.rule .ident)).run cursor = (bareIdent.run cursor).map fun (name, after) =>
      ([.leaf .ident cursor.location name], afterGap after) := by
  change (one Parser.ident Tree.identNode).run cursor = _
  rw [run_one, Parser.ident, run_before_gap, run_located, run_named]
  cases bareIdent.run cursor <;> rfl

theorem run_keyword (bound : Nat) (cursor : Cursor) :
    (nodes bound (.rule .keyword)).run cursor =
      (bareKeyword.run cursor).map fun (keyword, after) =>
        ([.leaf .keyword cursor.location keyword.spelling], after) := by
  change keywordNodes.run cursor = _
  rw [keywordNodes, run_one, run_located, run_named]
  cases bareKeyword.run cursor <;> rfl

theorem run_reserved (bound : Nat) (keyword : Keyword) (cursor : Cursor) :
    (nodes bound (.reserved keyword)).run cursor =
      ((bareReserved keyword).run cursor).map fun (_, after) => ([], afterGap after) := by
  change (silent (Parser.reserved keyword)).run cursor = _
  rw [run_silent, Parser.reserved, run_before_gap]
  cases (bareReserved keyword).run cursor <;> rfl

end Production

open PacketSchema.Grammar.Parser

/-- At every place of a text the word there decides. An identifier is read exactly where the word
is not empty, begins with no digit and is no keyword, a keyword where the word is one, and a
certain keyword where the word is that one; each takes just the word, and the rules for them leave
the word as the text of a node, or no node, and go on to what follows the gap. Where a keyword is
part of a longer word it is not read; where the longer word begins with it, no other keyword is
read either; and a word with a keyword in it is an identifier like any other. -/
theorem words_end_at_boundaries (cursor : Cursor) :
    (∀ name after, bareIdent.run cursor = some (name, after) ↔
      (cursor.word ≠ [] ∧ Breaks Char.isDigit cursor.word ∧
        ∀ keyword : Keyword, cursor.word ≠ keyword.letters) ∧
      name = String.ofList cursor.word ∧ after = cursor.afterWord) ∧
    (∀ keyword after, bareKeyword.run cursor = some (keyword, after) ↔
      cursor.word = keyword.letters ∧ after = cursor.afterWord) ∧
    (∀ keyword taken after, (bareReserved keyword).run cursor = some (taken, after) ↔
      cursor.word = keyword.letters ∧ after = cursor.afterWord) ∧
    (∀ bound,
      ((Production.rule .ident).nodes bound).run cursor =
        (bareIdent.run cursor).map (fun (name, after) =>
          ([.leaf .ident cursor.location name], afterGap after)) ∧
      ((Production.rule .keyword).nodes bound).run cursor =
        (bareKeyword.run cursor).map (fun (keyword, after) =>
          ([.leaf .keyword cursor.location keyword.spelling], after)) ∧
      ∀ keyword, ((Production.reserved keyword).nodes bound).run cursor =
        ((bareReserved keyword).run cursor).map fun (_, after) => ([], afterGap after)) ∧
    ∀ (keyword : Keyword) (before behind : List Char),
      cursor.word = before ++ keyword.letters ++ behind → before ≠ [] ∨ behind ≠ [] →
      (bareReserved keyword).run cursor = none ∧
      (before = [] → bareKeyword.run cursor = none ∧
        ∀ other, (bareReserved other).run cursor = none) ∧
      (Breaks Char.isDigit before → bareKeyword.run cursor = none →
        bareIdent.run cursor = some (String.ofList cursor.word, cursor.afterWord)) := by
  refine ⟨fun _ _ => ident_at_word_iff, fun _ _ => keyword_at_word_iff,
    fun _ _ _ => reserved_at_word_iff, fun bound => ?rules, ?longer⟩
  case rules =>
    exact ⟨Production.run_ident bound cursor, Production.run_keyword bound cursor,
      fun keyword => Production.run_reserved bound keyword cursor⟩
  case longer =>
    intro keyword before behind enclosed more
    refine ⟨reserved_refused (enclosed_ne_word enclosed more), ?_, ?_⟩
    · rintro rfl
      have free := longer_word_ne enclosed (more.resolve_left fun bare => bare rfl)
      exact ⟨keyword_refused_iff.mpr free, fun other => reserved_refused (free other)⟩
    · intro breaks refused
      obtain ⟨nonempty, begins⟩ := enclosed_begins enclosed breaks
      exact ident_at_word_iff.mpr
        ⟨⟨nonempty, begins, keyword_refused_iff.mp refused⟩, rfl, rfl⟩

/-- A word that begins with a keyword, and the keyword alone behind it. -/
def wheneverText : List Char := "whenever when".toList

theorem whenever_is_no_keyword :
    (Cursor.ofText wheneverText).word = [] ++ Keyword.when.letters ++ "ever".toList ∧
      bareIdent.run (.ofText wheneverText) = some ("whenever", ⟨⟨1, 9⟩, " when".toList⟩) ∧
      bareKeyword.run (.ofText wheneverText) = none ∧
      (∀ keyword, (bareReserved keyword).run (.ofText wheneverText) = none) ∧
      bareKeyword.run ⟨⟨1, 10⟩, "when".toList⟩ = some (.when, ⟨⟨1, 14⟩, []⟩) := by
  have enclosed : (Cursor.ofText wheneverText).word =
      [] ++ Keyword.when.letters ++ "ever".toList := by decide
  obtain ⟨-, -, -, -, longer⟩ := words_end_at_boundaries (.ofText wheneverText)
  obtain ⟨-, begins, contains⟩ := longer .when [] "ever".toList enclosed (.inr (by decide))
  obtain ⟨unreserved, others⟩ := begins rfl
  have named := contains (breaks_nil _) unreserved
  obtain ⟨-, keyword, -⟩ := words_end_at_boundaries ⟨⟨1, 10⟩, "when".toList⟩
  refine ⟨enclosed, named.trans ?_, unreserved, others, (keyword .when _).mpr ⟨?_, ?_⟩⟩
  all_goals decide

end Grammar

end PacketSchema
