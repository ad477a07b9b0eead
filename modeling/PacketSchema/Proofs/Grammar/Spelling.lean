import PacketSchema.Proofs.Grammar.Writing

/-!
# Texts and the lexemes they spell

A text spells lexemes when it is these lexemes in order and nothing but layout besides: blanks,
comments up to the end of their line and closed comments, wherever they stand. Without its layout
such a text is the texts of its lexemes and nothing else.
-/

namespace PacketSchema.Grammar

/-- Nothing goes on with a lexeme: words end where their characters do, numbers where their digits
do. -/
def Lexeme.Ends (rest : List Char) : Lexeme → Prop
  | .mark _ => True
  | .integer _ => Breaks Char.isDigit rest
  | _ => Breaks isWordCharacter rest

/-- Up to `rest`, a text consists of the given lexemes and of layout. -/
inductive Spells : List Char → List Lexeme → List Char → Prop where
  | done {rest : List Char} : Spells rest [] rest
  | blank {character : Char} {text rest : List Char} {lexemes : List Lexeme}
      (blank : isBlank character = true) (later : Spells text lexemes rest) :
      Spells (character :: text) lexemes rest
  | line {text rest : List Char} {lexemes : List Lexeme}
      (later : Spells (text.dropWhile (· != '\n')) lexemes rest) :
      Spells ('/' :: '/' :: text) lexemes rest
  | block {body text rest : List Char} {lexemes : List Lexeme} (whole : ¬['*', '/'] <:+: body)
      (later : Spells text lexemes rest) :
      Spells ('/' :: '*' :: (body ++ '*' :: '/' :: text)) lexemes rest
  | lexeme {lexeme : Lexeme} {text rest : List Char} {lexemes : List Lexeme}
      (legal : lexeme.Legal) (ends : lexeme.Ends text) (later : Spells text lexemes rest) :
      Spells (lexeme.text ++ text) (lexeme :: lexemes) rest

theorem Spells.append {text middle rest : List Char} {first second : List Lexeme}
    (left : Spells text first middle) (right : Spells middle second rest) :
    Spells text (first ++ second) rest := by
  induction left with
  | done => exact right
  | blank blank _ later => exact .blank blank (later right)
  | line _ later => exact .line (later right)
  | block whole _ later => exact .block whole (later right)
  | lexeme legal ends _ later => exact .lexeme legal ends (later right)

/-- What stands before `after`, by where in a gap a reader is: layout, the rest of a line and
layout, or the rest of a block comment and layout. A block comment that does not end was none, and
the reader is back where it opened. -/
def GapState.Leads (text : List Char) (after : Cursor) : GapState → Prop
  | .between => Spells text [] after.rest
  | .lineComment => Spells (text.dropWhile (· != '\n')) [] after.rest
  | .blockComment opening => after = opening ∨
      ∃ body later, text = body ++ '*' :: '/' :: later ∧ ¬['*', '/'] <:+: body ∧
        Spells later [] after.rest

theorem leads_after_gap (state : GapState) (location : Location) (text : List Char) :
    state.Leads text (afterGapFrom state location text) := by
  fun_induction afterGapFrom state location text with
  | case1 => exact .done
  | case2 _ _ line => exact .line line
  | case3 location text comment =>
      rcases comment with unclosed | ⟨body, later, rfl, whole, rest⟩
      · rw [unclosed]
        exact .done
      · exact .block whole rest
  | case4 _ _ _ _ _ blank later => exact .blank blank later
  | case5 => exact .done
  | case6 => exact .done
  | case7 _ _ later => exact .blank (by decide) later
  | case8 location character text other later =>
      rw [GapState.Leads, List.dropWhile_cons_of_pos (by simpa using other)]
      exact later
  | case9 => exact .inl rfl
  | case10 opening location text later =>
      exact .inr ⟨[], text, rfl, by decide, later⟩
  | case11 opening location character text apart comment =>
      rcases comment with unclosed | ⟨body, later, rfl, whole, rest⟩
      · exact .inl unclosed
      · refine .inr ⟨character :: body, later, rfl, ?_, rest⟩
        intro inside
        rcases List.infix_cons_iff.mp inside with front | inner
        · obtain ⟨behind, same⟩ := front
          cases same
          exact apart _ rfl rfl
        · exact whole inner

theorem spells_after_gap (cursor : Cursor) : Spells cursor.rest [] (afterGap cursor).rest :=
  leads_after_gap .between cursor.location cursor.rest

theorem length_after_close {location : Location} {text : List Char} {after : Cursor}
    (closed : afterClose? location text = some after) : after.rest.length < text.length := by
  fun_induction afterClose? location text with
  | case1 => cases closed
  | case2 location text =>
      cases closed
      exact Nat.lt_succ_of_lt (Nat.lt_succ_self _)
  | case3 location character text _ later => exact Nat.lt_succ_of_lt (later closed)

/-- A text without its blanks and its comments. Where a block comment is not closed, its two
characters open none and stay. -/
def stripped : List Char → List Char
  | [] => []
  | '/' :: '/' :: text => stripped (text.dropWhile (· != '\n'))
  | '/' :: '*' :: text =>
      match _ : afterClose? .start text with
      | some after => stripped after.rest
      | none => '/' :: '*' :: stripped text
  | character :: text =>
      if isBlank character then stripped text else character :: stripped text
termination_by text => text.length
decreasing_by
  · have shorter := List.length_dropWhile_le (fun character => character != '\n') text
    simp only [List.length_cons]
    omega
  · rename_i closed
    have shorter := length_after_close closed
    simp only [List.length_cons]
    omega
  · simp only [List.length_cons]
    omega
  · exact Nat.lt_succ_self _
  · exact Nat.lt_succ_self _

theorem stripped_no_slash {character : Char} (slash : character ≠ '/') (text : List Char) :
    stripped (character :: text) =
      if isBlank character then stripped text else character :: stripped text := by
  rw [stripped]
  all_goals
    intro text same
    exact absurd same slash

theorem stripped_blank {character : Char} (blank : isBlank character = true) (text : List Char) :
    stripped (character :: text) = stripped text := by
  have slash : character ≠ '/' := by
    rintro rfl
    cases blank
  rw [stripped_no_slash slash, if_pos blank]

theorem stripped_solid {solid : List Char} (plain : ∀ character ∈ solid, opensGap character = false)
    (text : List Char) : stripped (solid ++ text) = solid ++ stripped text := by
  induction solid with
  | nil => rfl
  | cons character solid later =>
      rw [List.forall_mem_cons, opensGap, Bool.or_eq_false_iff, beq_eq_false_iff_ne] at plain
      rw [List.cons_append, stripped_no_slash plain.1.2, plain.1.1, later plain.2]
      rfl

theorem after_close_whole {body : List Char} (whole : ¬['*', '/'] <:+: body) (text : List Char)
    (location : Location) :
    ∃ place, afterClose? location (body ++ '*' :: '/' :: text) = some ⟨place, text⟩ := by
  induction body generalizing location with
  | nil => exact ⟨_, rfl⟩
  | cons character body later =>
      have inner : ¬['*', '/'] <:+: body := fun inside => whole (List.infix_cons inside)
      rw [List.cons_append, afterClose?]
      · exact later inner _
      · exact no_close_inside whole text

theorem stripped_block {body : List Char} (whole : ¬['*', '/'] <:+: body) (text : List Char) :
    stripped ('/' :: '*' :: (body ++ '*' :: '/' :: text)) = stripped text := by
  obtain ⟨place, closed⟩ := after_close_whole whole text .start
  rw [stripped]
  split
  next after found =>
    rw [closed] at found
    cases found
    rfl
  next none =>
    rw [closed] at none
    cases none

/-- Without its layout, a text is the texts of the lexemes that it spells. -/
theorem Spells.stripped_eq {text rest : List Char} {lexemes : List Lexeme}
    (spells : Spells text lexemes rest) :
    stripped text = lexemes.flatMap Lexeme.text ++ stripped rest := by
  induction spells with
  | done => rfl
  | blank blank _ later => rw [stripped_blank blank, later]
  | line _ later => rw [stripped, later]
  | block whole _ later => rw [stripped_block whole, later]
  | lexeme legal _ _ later =>
      rw [stripped_solid legal.solid, later, List.flatMap_cons, List.append_assoc]

end PacketSchema.Grammar
