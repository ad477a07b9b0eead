import PacketSchema.Proofs.Grammar.Bare
import PacketSchema.Proofs.Grammar.Enclosed

/-!
# Readings of one text in two places

Two readers are set side by side on texts that agree up to the brace that closes a packet. Both
refuse, or both accept and leave texts that agree up to that brace again; where the readers stand
at the same place they answer the same item. Neither what follows the brace matters to this nor
the bounds of the readers, as long as they are no less than what is left before the brace. Each
combinator passes it on, and so each production has it.
-/

namespace PacketSchema.Grammar

namespace Parser

variable {Item : Type} {parser : Parser Item} {cursor after : Cursor} {item : Item}

theorem many_refused {bound : Nat} (refused : parser.run cursor = none) :
    (many (bound + 1) parser).run cursor = some ([], cursor) := by
  have none : (option parser).run cursor = some (none, cursor) := by
    rw [option, run_orElse, run_bind_none refused]
    rfl
  exact run_bind_some none

theorem many_accepted {bound : Nat} (read : parser.run cursor = some (item, after)) :
    (many (bound + 1) parser).run cursor =
      ((many bound parser).run after).map fun (items, last) => (item :: items, last) := by
  have some : (option parser).run cursor = some (some item, after) := by
    rw [option, run_orElse, run_bind_some read]
    rfl
  refine (run_bind_some some).trans ?_
  change (many bound parser >>= fun items => pure (item :: items)).run after = _
  rw [run_bind]
  cases (many bound parser).run after <;> rfl

end Parser

open PacketSchema.Grammar.Parser
open PacketSchema.Tree (Located Operand Relation Conjunction Disjunction Statement)

/-- Two texts that follow one and the same front, and whether the readings of this front are at
the same places. -/
structure Sides where
  left : List Char
  right : List Char
  placed : Prop

namespace Sides

variable {sides : Sides} {Item Other : Type}

/-- What two readers answer, of a front with `size` characters before them: they refuse both, or
both leave the same of the front, less by `gain` at least. -/
inductive Agree (sides : Sides) (depth gain size : Nat) :
    Option (Item × Cursor) → Option (Item × Cursor) → Prop where
  | refused : Agree sides depth gain size none none
  | accepted {item other : Item} {place elsewhere : Location} {rest : List Char}
      (items : sides.placed → item = other) (places : sides.placed → place = elsewhere)
      (enclosed : Enclosed depth rest) (shorter : rest.length + gain ≤ size) :
      Agree sides depth gain size (some (item, ⟨place, rest ++ sides.left⟩))
        (some (other, ⟨elsewhere, rest ++ sides.right⟩))

/-- On the same front, with `start` braces open and no more than `size` characters, two readers
agree; what they accept has `gain` characters at least and leaves `finish` braces open. -/
structure Stable (sides : Sides) (size start finish gain : Nat) (one two : Parser Item) :
    Prop where
  agree : ∀ {front : List Char} {place elsewhere : Location}, Enclosed start front →
    front.length ≤ size → (sides.placed → place = elsewhere) →
      sides.Agree finish gain front.length (one.run ⟨place, front ++ sides.left⟩)
        (two.run ⟨elsewhere, front ++ sides.right⟩)

theorem Agree.weaken {depth gain size less more : Nat} {one two : Option (Item × Cursor)}
    (agree : sides.Agree depth gain size one two) (room : size + less ≤ more + gain) :
    sides.Agree depth less more one two := by
  cases agree with
  | refused => exact .refused
  | accepted items places enclosed shorter =>
      exact .accepted items places enclosed (by omega)

section Combinators

variable {depth start middle finish gain size : Nat} {one two : Parser Item}
  {next after : Item → Parser Other}

theorem stable_pure {item other : Item} (items : sides.placed → item = other) :
    sides.Stable size depth depth 0 (pure item : Parser Item) (pure other) where
  agree enclosed _ places := .accepted items places enclosed (Nat.le_refl _)

theorem stable_refuse : sides.Stable size start finish gain (refuse : Parser Item) refuse where
  agree _ _ _ := .refused

/-- Where braces are still to be closed, something is left to read. -/
theorem stable_zero : sides.Stable 0 start finish gain one two where
  agree enclosed fits _ := by
    exact absurd (List.length_eq_zero_iff.mp (Nat.le_zero.mp fits)) enclosed.nonempty

theorem Stable.within {smaller : Nat} (stable : sides.Stable size start finish gain one two)
    (fewer : smaller ≤ size) : sides.Stable smaller start finish gain one two where
  agree enclosed fits places := stable.agree enclosed (Nat.le_trans fits fewer) places

theorem Stable.weaken {less : Nat} (stable : sides.Stable size start finish gain one two)
    (fewer : less ≤ gain) : sides.Stable size start finish less one two where
  agree enclosed fits places := (stable.agree enclosed fits places).weaken (by omega)

theorem Stable.loose (stable : sides.Stable size start finish gain one two) :
    sides.Stable size start finish 0 one two := stable.weaken (Nat.zero_le gain)

theorem Stable.bind {total : Nat} (first : sides.Stable size start middle gain one two)
    (second : ∀ item other, (sides.placed → item = other) →
      sides.Stable (size - gain) middle finish (total - gain) (next item) (after other)) :
    sides.Stable size start finish total (one >>= next) (two >>= after) where
  agree {front place elsewhere} enclosed fits places := by
    have begun := first.agree enclosed fits places
    rw [run_bind, run_bind]
    generalize one.run ⟨place, front ++ sides.left⟩ = found at begun ⊢
    generalize two.run ⟨elsewhere, front ++ sides.right⟩ = beside at begun ⊢
    cases begun with
    | refused => exact .refused
    | accepted items places enclosed shorter =>
        have rest := (second _ _ items).agree enclosed (by omega) places
        exact rest.weaken (by omega)

theorem stable_here {next after : Location → Parser Other}
    (second : ∀ place elsewhere, (sides.placed → place = elsewhere) →
      sides.Stable size start finish gain (next place) (after elsewhere)) :
    sides.Stable size start finish gain (here >>= next) (here >>= after) where
  agree {front place elsewhere} enclosed fits places := by
    rw [run_bind_some (run_here _), run_bind_some (run_here _)]
    exact (second place elsewhere places).agree enclosed fits places

theorem Stable.or_else {other another : Parser Item}
    (first : sides.Stable size start finish gain one two)
    (second : sides.Stable size start finish gain other another) :
    sides.Stable size start finish gain (one <|> other) (two <|> another) where
  agree {front place elsewhere} enclosed fits places := by
    have begun := first.agree enclosed fits places
    rw [run_orElse, run_orElse]
    generalize one.run ⟨place, front ++ sides.left⟩ = found at begun ⊢
    generalize two.run ⟨elsewhere, front ++ sides.right⟩ = beside at begun ⊢
    cases begun with
    | refused => exact second.agree enclosed fits places
    | accepted items places enclosed shorter => exact .accepted items places enclosed shorter

theorem stable_choice {spell : Item → Parser Other} {items : List Item}
    (each : ∀ item ∈ items, sides.Stable size start finish gain (spell item) (spell item)) :
    sides.Stable size start finish gain (choice (items.map spell)) (choice (items.map spell)) := by
  induction items with
  | nil => exact stable_refuse
  | cons item items later =>
      rw [List.forall_mem_cons] at each
      exact each.1.or_else (later each.2)

theorem Stable.named (body : sides.Stable size start finish gain one two) (rule : Rule) :
    sides.Stable size start finish gain (named rule one) (named rule two) where
  agree enclosed fits places := by
    rw [run_named, run_named]
    exact body.agree enclosed fits places

theorem Stable.option (body : sides.Stable size depth depth gain one two) :
    sides.Stable size depth depth 0 (option one) (option two) := by
  apply Stable.or_else
  · apply body.loose.bind
    intro item other items
    exact stable_pure fun placed => congrArg some (items placed)
  · exact stable_pure fun _ => rfl

/-- Each item takes a character at least, so that no repetition comes to its bound. -/
theorem Stable.many (body : sides.Stable size depth depth 1 one two) {bound another : Nat}
    (fits : size ≤ bound) (also : size ≤ another) :
    sides.Stable size depth depth 0 (many bound one) (many another two) := by
  induction size generalizing bound another with
  | zero => exact stable_zero
  | succ size later =>
      obtain ⟨bound, rfl⟩ := Nat.exists_eq_add_one.mpr (Nat.zero_lt_of_lt fits)
      obtain ⟨another, rfl⟩ := Nat.exists_eq_add_one.mpr (Nat.zero_lt_of_lt also)
      have rest := later (body.within (Nat.le_succ size)) (Nat.le_of_succ_le_succ fits)
        (Nat.le_of_succ_le_succ also)
      constructor
      intro front place elsewhere enclosed room places
      have begun := body.agree enclosed room places
      generalize read : one.run ⟨place, front ++ sides.left⟩ = found at begun
      generalize also : two.run ⟨elsewhere, front ++ sides.right⟩ = beside at begun
      cases begun with
      | refused =>
          rw [many_refused read, many_refused also]
          exact .accepted (fun _ => rfl) places enclosed (Nat.le_refl _)
      | accepted items onward inside shorter =>
          have others := rest.agree inside (by omega) onward
          rw [many_accepted read, many_accepted also]
          generalize (Parser.many bound one).run _ = found at others ⊢
          generalize (Parser.many another two).run _ = beside at others ⊢
          cases others with
          | refused => exact .refused
          | accepted later onward inside shorter =>
              apply Agree.accepted _ onward inside (by omega)
              intro placed
              rw [items placed, later placed]

theorem Stable.not_ahead (body : sides.Stable size start finish gain one two) :
    sides.Stable size start start 0 (notAhead one) (notAhead two) where
  agree {front place elsewhere} enclosed fits places := by
    have begun := body.agree enclosed fits places
    rw [run_notAhead, run_notAhead]
    generalize one.run ⟨place, front ++ sides.left⟩ = found at begun ⊢
    generalize two.run ⟨elsewhere, front ++ sides.right⟩ = beside at begun ⊢
    cases begun with
    | refused => exact .accepted (fun _ => rfl) places enclosed (Nat.le_refl _)
    | accepted => exact .refused

theorem Stable.ahead (body : sides.Stable size start finish gain one two) :
    sides.Stable size start start 0 (ahead one) (ahead two) where
  agree {front place elsewhere} enclosed fits places := by
    have begun := body.agree enclosed fits places
    rw [run_ahead, run_ahead]
    generalize one.run ⟨place, front ++ sides.left⟩ = found at begun ⊢
    generalize two.run ⟨elsewhere, front ++ sides.right⟩ = beside at begun ⊢
    cases begun with
    | refused => exact .refused
    | accepted items => exact .accepted items places enclosed (Nat.le_refl _)

/-- Readers that take the same of the front agree. -/
theorem agree_passes {taken rest : List Char} {place elsewhere : Location} {item : Item}
    (places : sides.placed → place = elsewhere) (inside : Enclosed depth rest)
    (passes : ∀ location more,
      one.run ⟨location, taken ++ rest ++ more⟩ =
        some (item, ⟨location.after taken, rest ++ more⟩)) :
    sides.Agree depth taken.length (taken ++ rest).length
      (one.run ⟨place, taken ++ rest ++ sides.left⟩)
      (one.run ⟨elsewhere, taken ++ rest ++ sides.right⟩) := by
  rw [passes, passes]
  apply Agree.accepted (fun _ => rfl) _ inside
  · rw [List.length_append]
    omega
  · intro placed
    rw [places placed]

theorem stable_gap : sides.Stable size depth depth 0 gap gap where
  agree enclosed _ places := by
    obtain ⟨taken, rest, rfl, inside, ends⟩ := enclosed.after_gap
    have passes : ∀ location more, gap.run ⟨location, taken ++ rest ++ more⟩ =
        some ((), ⟨location.after taken, rest ++ more⟩) := fun location more =>
      congrArg (fun found => some ((), found)) (ends location more)
    exact (agree_passes places inside passes).weaken (by omega)

theorem stable_literal {text : List Char} (plain : ∀ character ∈ text, isPlain character = true)
    (nonempty : text ≠ []) :
    sides.Stable size depth depth 1 (literal text) (literal text) where
  agree enclosed _ places := by
    rcases enclosed.begins_or_not plain with ⟨rest, rfl, inside⟩ | absent
    · have length := List.length_pos_iff.mpr nonempty
      have passes : ∀ location more, (literal text).run ⟨location, text ++ rest ++ more⟩ =
          some ((), ⟨location.after text, rest ++ more⟩) := fun location more =>
        literal_iff.mpr ⟨List.append_assoc text rest more, rfl⟩
      exact (agree_passes places inside passes).weaken (by omega)
    · rw [literal_refuses_iff.mpr (absent sides.left), literal_refuses_iff.mpr (absent sides.right)]
      exact .refused

/-- A brace is a literal of one character, and to read it changes how many are open. -/
theorem stable_brace {brace : Char}
    (inside : ∀ rest, Enclosed start (brace :: rest) → Enclosed finish rest) :
    sides.Stable size start finish 1 (literal [brace]) (literal [brace]) where
  agree enclosed _ places := by
    obtain ⟨first, rest, rfl⟩ := List.exists_cons_of_ne_nil enclosed.nonempty
    by_cases same : brace = first
    · subst same
      have passes : ∀ location more, (literal [brace]).run ⟨location, [brace] ++ rest ++ more⟩ =
          some ((), ⟨location.after [brace], rest ++ more⟩) := fun location more =>
        literal_iff.mpr ⟨rfl, rfl⟩
      exact agree_passes places (inside rest enclosed) passes
    · have absent : ∀ more, ¬[brace] <+: first :: rest ++ more := by
        intro more begins
        exact same (List.cons_prefix_cons.mp begins).1
      rw [literal_refuses_iff.mpr (absent sides.left), literal_refuses_iff.mpr (absent sides.right)]
      exact .refused

section Classes

variable {accepts : Char → Bool}
  (plain : ∀ character, accepts character = true → isPlain character = true)

include plain

theorem stable_satisfy : sides.Stable size depth depth 1 (satisfy accepts) (satisfy accepts) where
  agree enclosed _ places := by
    obtain ⟨first, rest, rfl⟩ := List.exists_cons_of_ne_nil enclosed.nonempty
    by_cases accepted : accepts first = true
    · have inside := enclosed.after_plain (plain first accepted)
      have passes : ∀ location more, (satisfy accepts).run ⟨location, [first] ++ rest ++ more⟩ =
          some (first, ⟨location.after [first], rest ++ more⟩) := fun location more =>
        satisfy_iff.mpr ⟨accepted, rfl, rfl⟩
      exact agree_passes places inside passes
    · have breaks : ∀ more, Breaks accepts (first :: rest ++ more) :=
        fun more => breaks_cons (Bool.eq_false_iff.mpr accepted)
      rw [satisfy_refuses_iff.mpr (breaks sides.left), satisfy_refuses_iff.mpr (breaks sides.right)]
      exact .refused

theorem stable_span : sides.Stable size depth depth 0 (span accepts) (span accepts) where
  agree enclosed _ places := by
    obtain ⟨taken, rest, rfl, inside, run, breaks⟩ := enclosed.run_ends plain
    have passes : ∀ location more, (span accepts).run ⟨location, taken ++ rest ++ more⟩ =
        some (taken, ⟨location.after taken, rest ++ more⟩) := fun location more =>
      span_iff.mpr ⟨run, ⟨List.append_assoc taken rest more, rfl⟩, breaks more⟩
    exact (agree_passes places inside passes).weaken (by omega)

theorem stable_span_some :
    sides.Stable size depth depth 1 (spanSome accepts) (spanSome accepts) := by
  apply (stable_satisfy plain).bind
  intro first another firsts
  apply (stable_span plain).bind
  intro others more same
  apply stable_pure
  intro placed
  rw [firsts placed, same placed]

end Classes

theorem Stable.before_gap (body : sides.Stable size start finish gain one two) :
    sides.Stable size start finish gain (beforeGap one) (beforeGap two) := by
  apply body.bind
  intro item other items
  rw [Nat.sub_self]
  apply stable_gap.bind
  intro _ _ _
  exact stable_pure items

theorem Stable.located (body : sides.Stable size start finish gain one two) :
    sides.Stable size start finish gain (located one) (located two) := by
  apply stable_here
  intro place elsewhere places
  apply body.bind
  intro item other items
  rw [Nat.sub_self]
  apply stable_pure
  intro placed
  rw [places placed, items placed]

end Combinators

section Words

variable {depth size : Nat}

theorem stable_lexeme {lexeme : Lexeme} (legal : lexeme.Legal) (plain : lexeme.isPlain = true) :
    sides.Stable size depth depth 1 (literal lexeme.text) (literal lexeme.text) :=
  stable_literal (legal.plain plain) legal.nonempty

theorem stable_mark (mark : Mark) (plain : (Lexeme.mark mark).isPlain = true) :
    sides.Stable size depth depth 1 (Parser.mark mark.text) (Parser.mark mark.text) := by
  have legal : (Lexeme.mark mark).Legal := trivial
  exact (stable_lexeme legal plain).before_gap

theorem stable_open_brace :
    sides.Stable size depth (depth + 1) 1 (Parser.mark ['\x7b']) (Parser.mark ['\x7b']) :=
  (stable_brace fun _ => Enclosed.after_opening).before_gap

theorem stable_close_brace :
    sides.Stable size (depth + 2) (depth + 1) 1 (Parser.mark ['\x7d']) (Parser.mark ['\x7d']) :=
  (stable_brace fun _ => Enclosed.after_closing).before_gap

theorem stable_keyword_letters (keyword : Keyword) :
    sides.Stable size depth depth 1 (literal keyword.letters) (literal keyword.letters) := by
  have legal : (Lexeme.keyword keyword).Legal := trivial
  exact stable_lexeme legal rfl

theorem stable_bare_keyword :
    sides.Stable size depth depth 1 bareKeyword bareKeyword := by
  have spelled : sides.Stable size depth depth 1
      (choice (Keyword.all.map fun keyword => do
        literal keyword.letters
        return keyword))
      (choice (Keyword.all.map fun keyword => do
        literal keyword.letters
        return keyword)) := by
    apply stable_choice
    intro keyword _
    apply (stable_keyword_letters keyword).bind
    intro _ _ _
    exact stable_pure fun _ => rfl
  have word : ∀ {size}, sides.Stable size depth depth 1 bareWordCharacter bareWordCharacter := by
    intro size
    apply (stable_satisfy fun _ => plain_of_word_character).bind
    intro _ _ _
    exact stable_pure fun _ => rfl
  apply spelled.bind
  intro keyword another same
  apply word.not_ahead.bind
  intro _ _ _
  exact stable_pure same

theorem stable_reserved (keyword : Keyword) :
    sides.Stable size depth depth 1 (reserved keyword) (reserved keyword) := by
  apply Stable.before_gap
  apply (stable_bare_keyword.named .keyword).ahead.bind
  intro _ _ _
  exact stable_keyword_letters keyword

theorem stable_bare_ident : sides.Stable size depth depth 1 bareIdent bareIdent := by
  apply stable_bare_keyword.not_ahead.bind
  intro _ _ _
  apply (stable_satisfy fun _ starts =>
    plain_of_word_character (word_character_of_start starts)).bind
  intro first another firsts
  apply (stable_span fun _ => plain_of_word_character).bind
  intro others more same
  apply stable_pure
  intro placed
  rw [firsts placed, same placed]

theorem stable_ident : sides.Stable size depth depth 1 ident ident :=
  (stable_bare_ident.named .ident).located.before_gap

theorem stable_hex_mark : sides.Stable size depth depth 1 bareHexMark bareHexMark := by
  have small : ['0', 'x'].all isPlain = true := by decide
  have large : ['0', 'X'].all isPlain = true := by decide
  apply Stable.or_else
  · apply (stable_literal (List.all_eq_true.mp small) (List.cons_ne_nil _ _)).bind
    intro _ _ _
    exact stable_pure fun _ => rfl
  · apply (stable_literal (List.all_eq_true.mp large) (List.cons_ne_nil _ _)).bind
    intro _ _ _
    exact stable_pure fun _ => rfl

theorem stable_bare_integer : sides.Stable size depth depth 1 bareInteger bareInteger := by
  apply Stable.or_else
  · apply stable_hex_mark.bind
    intro sign another signs
    apply (stable_span_some fun _ digit =>
      plain_of_word_character (word_character_of_hex_digit digit)).loose.bind
    intro digits more same
    apply stable_pure
    intro placed
    rw [signs placed, same placed]
  · apply (stable_span_some fun _ digit =>
      plain_of_word_character (word_character_of_digit digit)).bind
    intro digits more same
    apply stable_pure
    intro placed
    rw [same placed]

theorem stable_integer : sides.Stable size depth depth 1 integer integer :=
  (stable_bare_integer.named .integer).located.before_gap

theorem stable_reference : sides.Stable size depth depth 1 reference reference := by
  apply Stable.before_gap
  apply Stable.located
  apply Stable.named
  have plain : ['&'].all isPlain = true := by decide
  apply (stable_literal (List.all_eq_true.mp plain) (List.cons_ne_nil _ _)).bind
  intro _ _ _
  exact (stable_bare_ident.named .ident).loose

theorem stable_comparison : sides.Stable size depth depth 1 comparison comparison := by
  apply Stable.before_gap
  apply Stable.located
  apply Stable.named
  apply stable_choice
  intro written _
  have legal : (Lexeme.mark (.comparison written)).Legal := trivial
  apply (stable_lexeme legal rfl).bind
  intro _ _ _
  exact stable_pure fun _ => rfl

end Words

end Sides

end PacketSchema.Grammar
