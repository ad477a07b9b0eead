import Mathlib.Data.List.DropRight
import PacketSchema.Proofs.Grammar.Bare
import PacketSchema.Proofs.Grammar.Spelling

/-!
# Places in a text

A place is a line and a column. The line counts the line feeds before a character, the column the
characters since the last of them, so that every character of a text, and its end, has a place of
its own. A cursor that moves through a text keeps to it: its place is that of the text it has still
to read.
-/

namespace PacketSchema

namespace Location

theorem after_start (before : List Char) :
    start.after before =
      ⟨before.count '\n' + 1, (before.rtakeWhile (· != '\n')).length + 1⟩ := by
  induction before using List.reverseRecOn with
  | nil => rfl
  | append_singleton before character earlier =>
      rw [after_append, earlier, after_cons, after_nil, next, List.count_append,
        List.rtakeWhile_concat]
      by_cases feed : character = '\n'
      · subst feed
        rfl
      · have other : (character != '\n') = true := bne_iff_ne.mpr feed
        rw [if_neg feed, if_pos other, List.count_singleton, List.length_append]
        rw [if_neg (by simpa using feed)]
        rfl

/-- Going on never leads back: a line feed leads to a later line, and without one the column
grows. -/
theorem after_grows (location : Location) (more : List Char) :
    location.line < (location.after more).line ∨
      (location.after more).line = location.line ∧
        (location.after more).column = location.column + more.length := by
  induction more generalizing location with
  | nil => exact .inr ⟨rfl, rfl⟩
  | cons character more later =>
      have further := later (location.next character)
      rw [after_cons, List.length_cons]
      by_cases feed : character = '\n'
      · have below : (location.next character).line = location.line + 1 := by
          rw [next, if_pos feed]
        omega
      · have right : location.next character = ⟨location.line, location.column + 1⟩ := by
          rw [next, if_neg feed]
        rw [right] at further ⊢
        simp only at further
        omega

theorem after_ne {location : Location} {more : List Char} (same : location.after more = location) :
    more = [] := by
  rcases after_grows location more with below | ⟨_, right⟩
  · rw [same] at below
    exact absurd below (Nat.lt_irrefl _)
  · rw [same] at right
    exact List.length_eq_zero_iff.mp (by omega)

theorem is_before_iff {left right : Location} :
    left.isBefore right = true ↔
      left.line < right.line ∨ left.line = right.line ∧ left.column < right.column := by
  simp [isBefore]

theorem not_before_iff {left right : Location} :
    left.isBefore right = false ↔
      right.line < left.line ∨ right.line = left.line ∧ right.column ≤ left.column := by
  rw [Bool.eq_false_iff, ne_eq, is_before_iff]
  omega

theorem after_not_before (location : Location) (more : List Char) :
    (location.after more).isBefore location = false := by
  rw [not_before_iff]
  have grows := after_grows location more
  omega

theorem before_after {location : Location} {more : List Char} (nonempty : more ≠ []) :
    location.isBefore (location.after more) = true := by
  rw [is_before_iff]
  have grows := after_grows location more
  have longer := List.length_pos_iff.mpr nonempty
  omega

end Location

/-- `text` is what is left of a source from a place on: before it stand as many line feeds as the
line says, and since the last of them as many characters as the column says, both counted from
one. -/
def TextAt (source : List Char) (location : Location) (text : List Char) : Prop :=
  ∃ before, before ++ text = source ∧ location.line = before.count '\n' + 1 ∧
    location.column = (before.rtakeWhile (· != '\n')).length + 1

variable {source text other : List Char} {location : Location} {cursor after : Cursor}

theorem text_at_iff :
    TextAt source location text ↔ ∃ before, before ++ text = source ∧
      location = Location.start.after before := by
  apply exists_congr
  intro before
  rw [Location.after_start, Location.mk.injEq]

theorem text_at_start (source : List Char) : TextAt source .start source :=
  text_at_iff.mpr ⟨[], rfl, rfl⟩

/-- At a place stands one text. -/
theorem TextAt.unique (left : TextAt source location text) (right : TextAt source location other) :
    text = other := by
  have forwards : ∀ {text other before more : List Char}, before ++ text = source →
      (before ++ more) ++ other = source →
        (Location.start.after before).after more = Location.start.after before → text = other := by
    intro text other before more first second same
    cases Location.after_ne same
    rw [List.append_nil, ← first] at second
    exact (List.append_cancel_left second).symm
  obtain ⟨before, first, placed⟩ := text_at_iff.mp left
  obtain ⟨behind, second, also⟩ := text_at_iff.mp right
  have same := placed.symm.trans also
  rcases List.prefix_or_prefix_of_prefix ⟨text, first⟩ ⟨other, second⟩ with
    ⟨more, rfl⟩ | ⟨more, rfl⟩
  · rw [Location.after_append] at same
    exact forwards first second same.symm
  · rw [Location.after_append] at same
    exact (forwards second first same).symm

/-- What a cursor passes leads from one place of the source to another. -/
theorem TextAt.passes (placed : TextAt source cursor.location cursor.rest) {taken : List Char}
    (passes : cursor.Passes taken after) : TextAt source after.location after.rest := by
  obtain ⟨before, whole, same⟩ := text_at_iff.mp placed
  refine text_at_iff.mpr ⟨before ++ taken, ?_, ?_⟩
  · rw [List.append_assoc, ← passes.rest, whole]
  · rw [passes.location, same, Location.after_append]

/-- A word stands at a place of a source. -/
def Shows (source : List Char) (location : Location) (word : List Char) : Prop :=
  ∃ rest, TextAt source location (word ++ rest)

theorem Shows.of_passes (placed : TextAt source cursor.location cursor.rest)
    {word more : List Char} (passes : cursor.Passes (word ++ more) after) :
    Shows source cursor.location word := by
  refine ⟨more ++ after.rest, ?_⟩
  rw [← List.append_assoc, ← passes.rest]
  exact placed

/-- What is shown at a place begins the text there. -/
theorem Shows.prefix_of {word : List Char} (shows : Shows source location word)
    (placed : TextAt source location text) : word <+: text := by
  obtain ⟨rest, there⟩ := shows
  exact ⟨rest, there.unique placed⟩

/-- A keyword stands at a place, then a gap that parts it from the name it declares. -/
def Announced (source : List Char) (location : Location) (keyword : List Char) (name : String) :
    Prop :=
  ∃ gap, Grammar.IsGap gap ∧ gap ≠ [] ∧ Shows source location (keyword ++ gap ++ name.toList)

namespace Grammar

/-- What is passed from a state of a reader in a gap, as `GapState.Leads` has it for lexemes. A gap
that is followed by something is one that may stand between two lexemes; at the end of a text it
may also be the rest of a line comment. -/
def GapState.Passes (location : Location) (text : List Char) (after : Cursor) : GapState → Prop
  | .between => ∃ taken, Cursor.Passes ⟨location, text⟩ taken after ∧
      (after.rest ≠ [] → IsGap taken)
  | .lineComment => ∃ taken, Cursor.Passes ⟨location, text⟩ taken after ∧
      (after.rest ≠ [] → ∃ body rest, taken = body ++ '\n' :: rest ∧ '\n' ∉ body ∧ IsGap rest)
  | .blockComment opening => after = opening ∨
      ∃ body rest, Cursor.Passes ⟨location, text⟩ (body ++ '*' :: '/' :: rest) after ∧
        ¬['*', '/'] <:+: body ∧ (after.rest ≠ [] → IsGap rest)

theorem passes_gap_from (state : GapState) (location : Location) (text : List Char) :
    state.Passes location text (afterGapFrom state location text) := by
  fun_induction afterGapFrom state location text with
  | case1 location => exact ⟨[], ⟨rfl, rfl⟩, fun _ => .nil⟩
  | case2 location text line =>
      obtain ⟨taken, passes, gap⟩ := line
      refine ⟨'/' :: '/' :: taken, ⟨congrArg _ (congrArg _ passes.rest), passes.location⟩, ?_⟩
      intro more
      obtain ⟨body, rest, rfl, whole, later⟩ := gap more
      exact .line whole later
  | case3 location text comment =>
      rcases comment with unclosed | ⟨body, rest, passes, whole, gap⟩
      · rw [unclosed]
        exact ⟨[], ⟨rfl, rfl⟩, fun _ => .nil⟩
      · exact ⟨'/' :: '*' :: (body ++ '*' :: '/' :: rest),
          ⟨congrArg _ (congrArg _ passes.rest), passes.location⟩,
          fun more => .block whole (gap more)⟩
  | case4 location character text line block blank later =>
      obtain ⟨taken, passes, gap⟩ := later
      exact ⟨character :: taken, ⟨congrArg _ passes.rest, passes.location⟩,
        fun more => .blank blank (gap more)⟩
  | case5 location character text => exact ⟨[], ⟨rfl, rfl⟩, fun _ => .nil⟩
  | case6 location => exact ⟨[], ⟨rfl, rfl⟩, fun more => absurd rfl more⟩
  | case7 location text later =>
      obtain ⟨taken, passes, gap⟩ := later
      exact ⟨'\n' :: taken, ⟨congrArg _ passes.rest, passes.location⟩,
        fun more => ⟨[], taken, rfl, List.not_mem_nil, gap more⟩⟩
  | case8 location character text other later =>
      obtain ⟨taken, passes, gap⟩ := later
      refine ⟨character :: taken, ⟨congrArg _ passes.rest, passes.location⟩, ?_⟩
      intro more
      obtain ⟨body, rest, rfl, whole, legal⟩ := gap more
      exact ⟨character :: body, rest, rfl, List.not_mem_cons_of_ne_of_not_mem (Ne.symm other) whole,
        legal⟩
  | case9 => exact .inl rfl
  | case10 opening location text later =>
      obtain ⟨taken, passes, gap⟩ := later
      exact .inr ⟨[], taken, ⟨congrArg _ (congrArg _ passes.rest), passes.location⟩, by decide, gap⟩
  | case11 opening location character text apart comment =>
      rcases comment with unclosed | ⟨body, rest, passes, whole, gap⟩
      · exact .inl unclosed
      · refine .inr ⟨character :: body, rest, ⟨congrArg _ passes.rest, passes.location⟩, ?_, gap⟩
        intro inside
        rcases List.infix_cons_iff.mp inside with front | inner
        · obtain ⟨behind, same⟩ := front
          obtain ⟨star, slash⟩ := List.cons.inj same
          subst slash
          exact apart _ star.symm passes.rest
        · exact whole inner

theorem passes_after_gap (cursor : Cursor) :
    ∃ taken, cursor.Passes taken (afterGap cursor) ∧ ((afterGap cursor).rest ≠ [] → IsGap taken) :=
  passes_gap_from .between cursor.location cursor.rest

end Grammar

end PacketSchema
