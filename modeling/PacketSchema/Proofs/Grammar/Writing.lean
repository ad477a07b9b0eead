import Mathlib.Data.List.Chain
import PacketSchema.Proofs.Grammar.Lexeme

/-!
# Lexemes written as a text

A writing puts lexemes one after another, with a gap before the first one and after every one. A
gap is a sequence of blanks and closed comments. It may be empty, except between two lexemes that
would be one word together. Every lexeme then ends where the gap after it begins, and the reader of
gaps stops where the next lexeme begins.
-/

namespace PacketSchema.Grammar

inductive IsGap : List Char → Prop where
  | nil : IsGap []
  | blank {character : Char} {rest : List Char} (blank : isBlank character = true)
      (later : IsGap rest) : IsGap (character :: rest)
  | line {body rest : List Char} (whole : '\n' ∉ body) (later : IsGap rest) :
      IsGap ('/' :: '/' :: (body ++ '\n' :: rest))
  | block {body rest : List Char} (whole : ¬['*', '/'] <:+: body) (later : IsGap rest) :
      IsGap ('/' :: '*' :: (body ++ '*' :: '/' :: rest))

theorem IsGap.opens {gap : List Char} (legal : IsGap gap) :
    ∀ character ∈ gap.head?, opensGap character = true := by
  intro character member
  cases legal with
  | nil => cases member
  | blank blank _ =>
      cases member
      rw [opensGap, blank, Bool.true_or]
  | line _ _ =>
      cases member
      decide
  | block _ _ =>
      cases member
      decide

section Scan

variable {location : Location} {rest : List Char}

theorem gap_before_no_slash {character : Char} (slash : character ≠ '/') :
    afterGapFrom .between location (character :: rest) =
      if isBlank character then afterGapFrom .between (location.next character) rest
      else ⟨location, character :: rest⟩ := by
  rw [afterGapFrom]
  all_goals
    intro text same
    exact absurd same slash

theorem gap_stops (stops : Breaks opensGap rest) :
    afterGapFrom .between location rest = ⟨location, rest⟩ := by
  cases rest with
  | nil => rfl
  | cons character rest =>
      have solid : opensGap character = false := stops character rfl
      rw [opensGap, Bool.or_eq_false_iff, beq_eq_false_iff_ne] at solid
      rw [gap_before_no_slash solid.2, solid.1]
      rfl

theorem gap_after_blank {character : Char} (blank : isBlank character = true) :
    afterGapFrom .between location (character :: rest) =
      afterGapFrom .between (location.next character) rest := by
  have slash : character ≠ '/' := by
    rintro rfl
    cases blank
  rw [gap_before_no_slash slash, if_pos blank]

theorem line_comment_stops {body : List Char} (whole : '\n' ∉ body) :
    afterGapFrom .lineComment location (body ++ '\n' :: rest) =
      afterGapFrom .between ((location.after body).next '\n') rest := by
  induction body generalizing location with
  | nil => rw [List.nil_append, afterGapFrom, if_pos rfl, Location.after_nil]
  | cons character body later =>
      rw [List.mem_cons, not_or] at whole
      rw [List.cons_append, afterGapFrom, if_neg (Ne.symm whole.1), later whole.2,
        Location.after_cons]

/-- Within a body that does not close its comment, and where that body ends, nothing closes it. -/
theorem no_close_inside {character : Char} {body : List Char}
    (whole : ¬['*', '/'] <:+: character :: body) (rest text : List Char) :
    character = '*' → body ++ '*' :: '/' :: rest = '/' :: text → False := by
  rintro rfl same
  cases body with
  | nil => cases same
  | cons second body =>
      cases same
      exact whole (List.IsPrefix.isInfix ⟨body, rfl⟩)

theorem block_comment_stops {opening : Cursor} {body : List Char}
    (whole : ¬['*', '/'] <:+: body) :
    afterGapFrom (.blockComment opening) location (body ++ '*' :: '/' :: rest) =
      afterGapFrom .between (((location.after body).next '*').next '/') rest := by
  induction body generalizing location with
  | nil => rw [List.nil_append, afterGapFrom, Location.after_nil]
  | cons character body later =>
      have inner : ¬['*', '/'] <:+: body := fun inside => whole (List.infix_cons inside)
      rw [List.cons_append, afterGapFrom, later inner, Location.after_cons]
      exact no_close_inside whole rest

/-- The reader of gaps goes through a gap and stops before what cannot begin one. -/
theorem IsGap.after_gap {gap : List Char} (legal : IsGap gap) (stops : Breaks opensGap rest) :
    afterGap ⟨location, gap ++ rest⟩ = ⟨location.after gap, rest⟩ := by
  unfold afterGap
  induction legal generalizing location with
  | nil => exact gap_stops stops
  | blank blank _ later =>
      rw [List.cons_append, gap_after_blank blank]
      exact later
  | @line body tail whole _ later =>
      rw [List.cons_append, List.cons_append, List.append_assoc, List.cons_append, afterGapFrom,
        line_comment_stops whole, later]
      rw [Location.after_cons, Location.after_cons, Location.after_append, Location.after_cons]
  | @block body tail whole _ later =>
      rw [List.cons_append, List.cons_append, List.append_assoc, List.cons_append,
        List.cons_append, afterGapFrom, block_comment_stops whole, later]
      rw [Location.after_cons, Location.after_cons, Location.after_append, Location.after_cons,
        Location.after_cons]

end Scan

structure Entry where
  lexeme : Lexeme
  gap : List Char
deriving DecidableEq, Repr

def Entry.text (entry : Entry) : List Char := entry.lexeme.text ++ entry.gap

/-- A gap at the beginning, then lexemes with their gaps. -/
structure Writing where
  margin : List Char
  entries : List Entry
deriving DecidableEq, Repr

namespace Writing

def lexemes (writing : Writing) : List Lexeme := writing.entries.map Entry.lexeme

def text (writing : Writing) : List Char :=
  writing.margin ++ writing.entries.flatMap Entry.text

/-- The place of the lexeme with a number, counted from zero; the number after the last one has
the place where the text ends. -/
def place (writing : Writing) (index : Nat) : Location :=
  Location.start.after (writing.margin ++ (writing.entries.take index).flatMap Entry.text)

/-- Every gap is one and every lexeme has its shape; between two that would be one word together
there is something. -/
structure Legal (writing : Writing) : Prop where
  margin : IsGap writing.margin
  gaps : ∀ entry ∈ writing.entries, IsGap entry.gap
  lexemes : ∀ entry ∈ writing.entries, entry.lexeme.Legal
  apart : writing.entries.IsChain fun left right =>
    left.lexeme.closesWord = true → right.lexeme.opensWord = true → left.gap ≠ []

def rest (writing : Writing) (index : Nat) : List Char :=
  (writing.entries.drop index).flatMap Entry.text

def cursor (writing : Writing) (index : Nat) : Cursor :=
  ⟨writing.place index, writing.rest index⟩

def Holds (writing : Writing) : Nat → List Lexeme → Prop
  | _, [] => True
  | index, lexeme :: later =>
      writing.lexemes[index]? = some lexeme ∧ writing.Holds (index + 1) later

theorem holds_append {writing : Writing} {index : Nat} {first second : List Lexeme} :
    writing.Holds index (first ++ second) ↔
      writing.Holds index first ∧ writing.Holds (index + first.length) second := by
  induction first generalizing index with
  | nil => simp [Holds]
  | cons lexeme first later =>
      rw [List.cons_append, Holds, Holds, later, List.length_cons, and_assoc,
        Nat.add_right_comm, Nat.add_assoc]

theorem holds_of_drop {writing : Writing} {index : Nat} {lexemes : List Lexeme}
    (left : writing.lexemes.drop index = lexemes) : writing.Holds index lexemes := by
  induction lexemes generalizing index with
  | nil => trivial
  | cons lexeme later holds =>
      constructor
      · rw [← List.head?_drop, left, List.head?_cons]
      · apply holds
        rw [← List.tail_drop, left, List.tail_cons]

/-- What a legal writing has at a lexeme: `tail` is the text after it. -/
structure Meets (writing : Writing) (index : Nat) (lexeme : Lexeme) (tail : List Char) :
    Prop where
  legal : lexeme.Legal
  text : writing.rest index = lexeme.text ++ tail
  resumes : afterGap ⟨(writing.place index).after lexeme.text, tail⟩ = writing.cursor (index + 1)
  breaks : lexeme.closesWord = true → Breaks isWordCharacter tail
  front : ∀ character ∈ tail.head?,
    opensGap character = true ∨ character ∈ (writing.rest (index + 1)).head?

variable {writing : Writing} {index : Nat} {lexeme : Lexeme}

theorem rest_eq_of_entry {entry : Entry} (found : writing.entries[index]? = some entry) :
    writing.rest index = entry.text ++ writing.rest (index + 1) := by
  obtain ⟨inside, rfl⟩ := List.getElem?_eq_some_iff.mp found
  rw [rest, List.drop_eq_getElem_cons inside, List.flatMap_cons, rest]

theorem place_after_entry {entry : Entry} (found : writing.entries[index]? = some entry) :
    writing.place (index + 1) = (writing.place index).after entry.text := by
  rw [place, place, List.take_add_one, found, Option.toList_some, List.flatMap_append,
    List.flatMap_singleton, ← List.append_assoc, Location.after_append]

theorem rest_of_no_entry (missing : writing.entries[index]? = none) : writing.rest index = [] := by
  rw [rest, List.drop_of_length_le (List.getElem?_eq_none_iff.mp missing), List.flatMap_nil]

theorem Legal.rest_stops (legal : writing.Legal) (index : Nat) :
    Breaks opensGap (writing.rest index) := by
  cases found : writing.entries[index]? with
  | none =>
      rw [rest_of_no_entry found]
      exact breaks_nil opensGap
  | some entry =>
      have shaped := legal.lexemes entry (List.mem_of_getElem? found)
      intro character member
      apply shaped.solid
      rw [rest_eq_of_entry found, Entry.text, List.append_assoc,
        List.head?_append_of_ne_nil _ shaped.nonempty] at member
      exact List.mem_of_mem_head? member

/-- The text after a lexeme does not go on with its word. -/
theorem Legal.word_breaks (legal : writing.Legal) {entry : Entry}
    (found : writing.entries[index]? = some entry) (closes : entry.lexeme.closesWord = true) :
    Breaks isWordCharacter (entry.gap ++ writing.rest (index + 1)) := by
  cases written : entry.gap with
  | cons opening gap =>
      intro character first
      cases first
      have opens : opensGap opening = true := by
        apply (legal.gaps entry (List.mem_of_getElem? found)).opens
        rw [written]
        rfl
      rw [Bool.eq_false_iff]
      intro word
      rw [solid_of_word_character word] at opens
      cases opens
  | nil =>
      rw [List.nil_append]
      cases next : writing.entries[index + 1]? with
      | none =>
          rw [rest_of_no_entry next]
          exact breaks_nil isWordCharacter
      | some later =>
          rw [rest_eq_of_entry next, Entry.text, List.append_assoc]
          apply Lexeme.breaks_of_not_opens_word
          rw [Bool.eq_false_iff]
          intro opens
          obtain ⟨inside, rfl⟩ := List.getElem?_eq_some_iff.mp next
          obtain ⟨before, rfl⟩ := List.getElem?_eq_some_iff.mp found
          exact List.isChain_iff_getElem.mp legal.apart index inside closes opens written

theorem Legal.meets (legal : writing.Legal) (found : writing.lexemes[index]? = some lexeme) :
    ∃ tail, writing.Meets index lexeme tail := by
  rw [Writing.lexemes, List.getElem?_map, Option.map_eq_some_iff] at found
  obtain ⟨entry, found, rfl⟩ := found
  have member := List.mem_of_getElem? found
  refine ⟨entry.gap ++ writing.rest (index + 1), legal.lexemes entry member, ?_, ?_, ?_, ?_⟩
  · rw [rest_eq_of_entry found, Entry.text, List.append_assoc]
  · rw [(legal.gaps entry member).after_gap (legal.rest_stops (index + 1)), cursor,
      place_after_entry found, Entry.text, Location.after_append]
  · exact legal.word_breaks found
  · intro character first
    cases written : entry.gap with
    | nil =>
        rw [written, List.nil_append] at first
        exact .inr first
    | cons opening gap =>
        rw [written] at first
        left
        exact (legal.gaps entry member).opens character (by rwa [written])

/-- The gap at the beginning leads to the first lexeme. -/
theorem Legal.after_margin (legal : writing.Legal) :
    afterGap (.ofText writing.text) = writing.cursor 0 := by
  have begins : writing.text = writing.margin ++ writing.rest 0 := rfl
  rw [begins, Cursor.ofText, legal.margin.after_gap (legal.rest_stops 0)]
  rw [cursor, place, List.take_zero, List.flatMap_nil, List.append_nil]

/-- Every lexeme has a character at least. -/
theorem Legal.length_le_text (legal : writing.Legal) :
    writing.lexemes.length ≤ writing.text.length := by
  have characters : ∀ entries : List Entry, (∀ entry ∈ entries, entry.lexeme.Legal) →
      entries.length ≤ (entries.flatMap Entry.text).length := by
    intro entries shaped
    induction entries with
    | nil => exact Nat.zero_le _
    | cons entry rest later =>
        rw [List.forall_mem_cons] at shaped
        have nonempty := List.length_pos_iff.mpr shaped.1.nonempty
        have fewer := later shaped.2
        rw [List.length_cons, List.flatMap_cons, List.length_append, Entry.text,
          List.length_append]
        omega
  have fewer := characters writing.entries legal.lexemes
  rw [Writing.lexemes, List.length_map, Writing.text, List.length_append]
  omega

/-- The lexemes with one and the same gap at the beginning and behind each of them that closes a
word, and with no other gaps. -/
def evenly (gap : List Char) (lexemes : List Lexeme) : Writing where
  margin := gap
  entries := lexemes.map fun lexeme => ⟨lexeme, if lexeme.closesWord then gap else []⟩

theorem lexemes_evenly (gap : List Char) (lexemes : List Lexeme) :
    (evenly gap lexemes).lexemes = lexemes := by
  rw [Writing.lexemes, evenly, List.map_map]
  exact List.map_id lexemes

theorem evenly_legal {gap : List Char} {lexemes : List Lexeme} (isGap : IsGap gap)
    (nonempty : gap ≠ []) (shaped : ∀ lexeme ∈ lexemes, lexeme.Legal) :
    (evenly gap lexemes).Legal := by
  have entry_eq : ∀ entry ∈ (evenly gap lexemes).entries, entry.lexeme ∈ lexemes ∧
      entry.gap = if entry.lexeme.closesWord then gap else [] := by
    intro entry member
    obtain ⟨lexeme, inside, rfl⟩ := List.mem_map.mp member
    exact ⟨inside, rfl⟩
  constructor
  · exact isGap
  · intro entry member
    rw [(entry_eq entry member).2]
    split
    · exact isGap
    · exact .nil
  · intro entry member
    exact shaped entry.lexeme (entry_eq entry member).1
  · rw [List.isChain_iff_getElem]
    intro index inside closes _
    rw [(entry_eq _ (List.getElem_mem _)).2, if_pos closes]
    exact nonempty

/-- The lexemes with one blank between each two of them. -/
def spacedEntries : List Lexeme → List Entry
  | [] => []
  | [last] => [⟨last, []⟩]
  | lexeme :: next :: rest => ⟨lexeme, [' ']⟩ :: spacedEntries (next :: rest)

def spaced (lexemes : List Lexeme) : Writing := ⟨[], spacedEntries lexemes⟩

theorem lexemes_spaced (lexemes : List Lexeme) : (spaced lexemes).lexemes = lexemes := by
  rw [Writing.lexemes, spaced]
  fun_induction spacedEntries lexemes with
  | case1 => rfl
  | case2 last => rfl
  | case3 lexeme next rest later => rw [List.map_cons, later]

@[simp]
theorem text_spaced_last (last : Lexeme) : (spaced [last]).text = last.text := by
  simp [spaced, spacedEntries, text, Entry.text]

@[simp]
theorem text_spaced_cons (lexeme next : Lexeme) (rest : List Lexeme) :
    (spaced (lexeme :: next :: rest)).text =
      lexeme.text ++ ' ' :: (spaced (next :: rest)).text := by
  simp [spaced, spacedEntries, text, Entry.text]

theorem spaced_legal {lexemes : List Lexeme} (shaped : ∀ lexeme ∈ lexemes, lexeme.Legal) :
    (spaced lexemes).Legal := by
  have blank : IsGap [' '] := .blank rfl .nil
  have gaps : ∀ entry ∈ spacedEntries lexemes, entry.gap = [] ∨ entry.gap = [' '] := by
    fun_induction spacedEntries lexemes with
    | case1 => simp
    | case2 last => simp
    | case3 lexeme next rest later =>
        rw [List.forall_mem_cons] at shaped
        exact List.forall_mem_cons.mpr ⟨.inr rfl, later shaped.2⟩
  constructor
  · exact .nil
  · intro entry member
    rcases gaps entry member with empty | single
    · rw [empty]
      exact .nil
    · rw [single]
      exact blank
  · intro entry member
    have listed := List.mem_map_of_mem (f := Entry.lexeme) member
    change entry.lexeme ∈ (spaced lexemes).lexemes at listed
    rw [lexemes_spaced] at listed
    exact shaped entry.lexeme listed
  · change (spacedEntries lexemes).IsChain _
    clear shaped gaps
    fun_induction spacedEntries lexemes with
    | case1 => exact .nil
    | case2 last => exact .singleton _
    | case3 lexeme next rest later =>
        exact List.isChain_cons.mpr ⟨fun _ _ _ _ => List.cons_ne_nil ' ' [], later⟩

end Writing

end PacketSchema.Grammar
