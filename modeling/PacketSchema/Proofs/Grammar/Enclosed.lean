import PacketSchema.Proofs.Grammar.Draft
import PacketSchema.Proofs.Grammar.Spelling

/-!
# Texts up to a closing brace

The text of a packet ends with the brace that closes its block, and nothing before that brace is
the end of the text. So all that is read of a packet is read short of a brace that is surely there:
a gap ends before it, a word or a number does not go on past it, and what a literal is compared
with does not reach behind it. Whatever follows the brace is out of sight.
-/

namespace PacketSchema

namespace Grammar

def Lexeme.isPlain : Lexeme → Bool
  | .mark .openBrace => false
  | .mark .closeBrace => false
  | _ => true

/-- With a number of braces open, the lexemes go on until the last of them is closed, and end
there. With none open they still have to open the first one. -/
inductive Closes : Nat → List Lexeme → Prop where
  | last : Closes 1 [.mark .closeBrace]
  | opening {depth : Nat} {lexemes : List Lexeme} (later : Closes (depth + 1) lexemes) :
      Closes depth (.mark .openBrace :: lexemes)
  | closing {depth : Nat} {lexemes : List Lexeme} (later : Closes (depth + 1) lexemes) :
      Closes (depth + 2) (.mark .closeBrace :: lexemes)
  | plain {depth : Nat} {lexeme : Lexeme} {lexemes : List Lexeme} (plain : lexeme.isPlain = true)
      (later : Closes depth lexemes) : Closes depth (lexeme :: lexemes)

/-- Lexemes that, within a block, close the braces that they open and no others. -/
def Balanced (lexemes : List Lexeme) : Prop :=
  ∀ depth later, Closes (depth + 1) later → Closes (depth + 1) (lexemes ++ later)

theorem Closes.plain_append {depth : Nat} {lexemes later : List Lexeme}
    (plain : ∀ lexeme ∈ lexemes, lexeme.isPlain = true) (closes : Closes depth later) :
    Closes depth (lexemes ++ later) := by
  induction lexemes with
  | nil => exact closes
  | cons lexeme lexemes goes =>
      rw [List.forall_mem_cons] at plain
      exact .plain plain.1 (goes plain.2)

theorem balanced_nil : Balanced [] := fun _ _ closes => closes

theorem balanced_plain {lexemes : List Lexeme}
    (plain : ∀ lexeme ∈ lexemes, lexeme.isPlain = true) : Balanced lexemes :=
  fun _ _ closes => closes.plain_append plain

theorem Balanced.append {first second : List Lexeme} (left : Balanced first)
    (right : Balanced second) : Balanced (first ++ second) := by
  intro depth later closes
  rw [List.append_assoc]
  exact left depth _ (right depth later closes)

theorem Balanced.cons {lexeme : Lexeme} {lexemes : List Lexeme} (plain : lexeme.isPlain = true)
    (balanced : Balanced lexemes) : Balanced (lexeme :: lexemes) :=
  fun depth later closes => .plain plain (balanced depth later closes)

theorem Balanced.braced {lexemes : List Lexeme} (balanced : Balanced lexemes) :
    Balanced (Draft.braced lexemes) := by
  intro depth later closes
  rw [Draft.braced, List.cons_append, List.append_assoc]
  exact .opening (balanced (depth + 1) _ (.closing closes))

end Grammar

namespace Draft

open Grammar

theorem parenthesized_plain {lexemes : List Lexeme}
    (plain : ∀ lexeme ∈ lexemes, lexeme.isPlain = true) :
    ∀ lexeme ∈ parenthesized lexemes, lexeme.isPlain = true := by
  rw [parenthesized, List.forall_mem_cons, List.forall_mem_append, List.forall_mem_singleton]
  exact ⟨rfl, plain, rfl⟩

theorem Value.plain (value : Value) : value.lexeme.isPlain = true := by
  cases value <;> rfl

mutual

theorem Disjunction.plain : (condition : Disjunction) →
    ∀ lexeme ∈ condition.lexemes, lexeme.isPlain = true
  | .mk first others => by
      rw [Disjunction.lexemes, List.forall_mem_append]
      exact ⟨first.plain, alternatives_plain others⟩

theorem alternatives_plain : (rest : List Conjunction) →
    ∀ lexeme ∈ alternativeLexemes rest, lexeme.isPlain = true
  | [] => List.forall_mem_nil _
  | next :: rest => by
      rw [alternativeLexemes, List.forall_mem_cons, List.forall_mem_append]
      exact ⟨rfl, next.plain, alternatives_plain rest⟩

theorem Conjunction.plain : (conjunction : Conjunction) →
    ∀ lexeme ∈ conjunction.lexemes, lexeme.isPlain = true
  | .mk first others => by
      rw [Conjunction.lexemes, List.forall_mem_append]
      exact ⟨first.plain, conjuncts_plain others⟩

theorem conjuncts_plain : (rest : List Relation) →
    ∀ lexeme ∈ conjunctLexemes rest, lexeme.isPlain = true
  | [] => List.forall_mem_nil _
  | next :: rest => by
      rw [conjunctLexemes, List.forall_mem_cons, List.forall_mem_append]
      exact ⟨rfl, next.plain, conjuncts_plain rest⟩

theorem Relation.plain : (relation : Relation) →
    ∀ lexeme ∈ relation.lexemes, lexeme.isPlain = true
  | .operand only => by
      rw [Relation.lexemes]
      exact only.plain
  | .compare left comparison right => by
      rw [Relation.lexemes, List.forall_mem_append, List.forall_mem_cons]
      exact ⟨left.plain, rfl, right.plain⟩

theorem Operand.plain : (operand : Operand) → ∀ lexeme ∈ operand.lexemes, lexeme.isPlain = true
  | .value written => by
      rw [Operand.lexemes, List.forall_mem_singleton]
      exact written.plain
  | .negation operand => by
      rw [Operand.lexemes, List.forall_mem_cons]
      exact ⟨rfl, operand.plain⟩
  | .group inner => by
      rw [Operand.lexemes]
      exact parenthesized_plain inner.plain

end

theorem width_plain (width : Option Width) :
    ∀ lexeme ∈ widthLexemes width, lexeme.isPlain = true := by
  rcases width with _ | ⟨count, _ | _ | order⟩
  · exact List.forall_mem_nil _
  all_goals
    rw [widthLexemes, annexed, List.forall_mem_cons, Width.lexemes, List.forall_mem_cons]
    refine ⟨rfl, count.plain, ?_⟩
    simp [unitLexemes, Lexeme.isPlain]

theorem count_plain (count : Option Value) :
    ∀ lexeme ∈ countLexemes count, lexeme.isPlain = true := by
  cases count with
  | none => exact List.forall_mem_nil _
  | some count =>
      rw [countLexemes, annexed, List.forall_mem_cons, List.forall_mem_singleton]
      exact ⟨rfl, count.plain⟩

theorem Descriptor.plain (descriptor : Descriptor) :
    ∀ lexeme ∈ descriptor.lexemes, lexeme.isPlain = true := by
  rw [Descriptor.lexemes, List.forall_mem_cons, List.forall_mem_append]
  refine ⟨?_, width_plain descriptor.width, count_plain descriptor.count⟩
  cases descriptor.scalar <;> rfl

theorem Tag.plain (tag : Tag) : ∀ lexeme ∈ tag.lexemes, lexeme.isPlain = true := by
  simp [Tag.lexemes, Lexeme.isPlain]

theorem inheritance_plain (inheritance : Option Inheritance) :
    ∀ lexeme ∈ inheritanceLexemes inheritance, lexeme.isPlain = true := by
  rcases inheritance with _ | ⟨parent, condition⟩
  · exact List.forall_mem_nil _
  · rw [inheritanceLexemes, Inheritance.lexemes, annexed, List.forall_mem_cons,
      List.forall_mem_cons]
    refine ⟨rfl, rfl, ?_⟩
    cases condition with
    | none => exact List.forall_mem_nil _
    | some condition => exact parenthesized_plain condition.plain

mutual

theorem Statement.balanced : (statement : Statement) → Balanced statement.lexemes
  | .always ident descriptor => by
      rw [Statement.lexemes]
      apply Balanced.cons rfl
      apply Balanced.cons rfl
      exact (balanced_plain descriptor.plain).append (balanced_nil.cons rfl)
  | .optional ident condition body => by
      rw [Statement.lexemes]
      apply Balanced.cons rfl
      apply Balanced.cons rfl
      apply Balanced.cons rfl
      exact (balanced_plain (parenthesized_plain condition.plain)).append
        (block_balanced body).braced
  | .union ident cases otherwise => by
      rw [Statement.lexemes]
      apply Balanced.cons rfl
      apply Balanced.cons rfl
      exact ((cases_balanced cases).append (otherwise_balanced otherwise)).braced
  | .empty => balanced_nil.cons rfl

theorem block_balanced : (body : List Statement) → Balanced (blockLexemes body)
  | [] => balanced_nil
  | statement :: rest => statement.balanced.append (block_balanced rest)

theorem Case.balanced : (arm : Case) → Balanced arm.lexemes
  | .mk condition tag body => by
      rw [Case.lexemes]
      apply Balanced.cons rfl
      exact (balanced_plain (parenthesized_plain condition.plain)).append
        ((balanced_plain tag.plain).append (block_balanced body).braced)

theorem cases_balanced : (cases : List Case) → Balanced (caseLexemes cases)
  | [] => balanced_nil
  | arm :: rest => arm.balanced.append (cases_balanced rest)

theorem otherwise_balanced : (otherwise : Option Otherwise) →
    Balanced (otherwiseLexemes otherwise)
  | none => balanced_nil
  | some (.mk tag body) => by
      rw [otherwiseLexemes, Otherwise.lexemes]
      apply Balanced.cons rfl
      exact (balanced_plain tag.plain).append (block_balanced body).braced

end

/-- The last lexeme of a packet closes the brace that its block opened. -/
theorem Packet.closes (packet : Packet) : Closes 0 packet.lexemes := by
  apply Closes.plain rfl
  apply Closes.plain_append (inheritance_plain packet.inheritance)
  apply Closes.opening
  exact block_balanced packet.body 0 _ .last

end Draft

namespace Grammar

/-- Neither a brace nor what may begin a comment. -/
def isPlain (character : Char) : Bool :=
  character != '/' && character != '\x7b' && character != '\x7d'

/-- With a number of braces open, the text goes on until the last of them is closed, and ends
there. The braces in comments do not count; each comment is one to its end. -/
inductive Enclosed : Nat → List Char → Prop where
  | last : Enclosed 1 ['\x7d']
  | opening {depth : Nat} {text : List Char} (later : Enclosed (depth + 1) text) :
      Enclosed depth ('\x7b' :: text)
  | closing {depth : Nat} {text : List Char} (later : Enclosed (depth + 1) text) :
      Enclosed (depth + 2) ('\x7d' :: text)
  | plain {depth : Nat} {character : Char} {text : List Char} (plain : isPlain character = true)
      (later : Enclosed depth text) : Enclosed depth (character :: text)
  | line {depth : Nat} {body text : List Char} (whole : '\n' ∉ body)
      (later : Enclosed depth text) : Enclosed depth ('/' :: '/' :: (body ++ '\n' :: text))
  | block {depth : Nat} {body text : List Char} (whole : ¬['*', '/'] <:+: body)
      (later : Enclosed depth text) : Enclosed depth ('/' :: '*' :: (body ++ '*' :: '/' :: text))

theorem plain_of_class {accepts : Char → Bool} (slash : accepts '/' = false)
    (opening : accepts '\x7b' = false) (closing : accepts '\x7d' = false) {character : Char}
    (accepted : accepts character = true) : isPlain character = true := by
  have other : ∀ {outside : Char}, accepts outside = false → character ≠ outside := by
    rintro outside refused rfl
    rw [accepted] at refused
    cases refused
  rw [isPlain, Bool.and_eq_true, Bool.and_eq_true, bne_iff_ne, bne_iff_ne, bne_iff_ne]
  exact ⟨⟨other slash, other opening⟩, other closing⟩

theorem plain_of_word_character {character : Char} (within : isWordCharacter character = true) :
    isPlain character = true :=
  plain_of_class (by decide) (by decide) (by decide) within

theorem plain_of_blank {character : Char} (blank : isBlank character = true) :
    isPlain character = true :=
  plain_of_class (by decide) (by decide) (by decide) blank

theorem Mark.text_plain (mark : Mark) (plain : (Lexeme.mark mark).isPlain = true) :
    ∀ character ∈ mark.text, isPlain character = true := by
  rw [← List.all_eq_true]
  cases mark with
  | openBrace => cases plain
  | closeBrace => cases plain
  | comparison written => cases written <;> decide
  | _ => decide

theorem Lexeme.Legal.plain {lexeme : Lexeme} (legal : lexeme.Legal)
    (plain : lexeme.isPlain = true) :
    ∀ character ∈ lexeme.text, Grammar.isPlain character = true := by
  intro character member
  cases lexeme with
  | keyword word => exact plain_of_word_character (word.letters_within character member)
  | mark sign => exact sign.text_plain plain character member
  | ident name => exact plain_of_word_character (legal.word.within character member)
  | integer numeral => exact plain_of_word_character (IsNumeral.within legal character member)
  | reference name =>
      rcases List.mem_cons.mp member with rfl | later
      · decide
      · exact plain_of_word_character (legal.word.within character later)

namespace Enclosed

variable {depth : Nat} {text : List Char}

theorem plain_append {front : List Char} (plain : ∀ character ∈ front, isPlain character = true)
    (enclosed : Enclosed depth text) : Enclosed depth (front ++ text) := by
  induction front with
  | nil => exact enclosed
  | cons character front goes =>
      rw [List.forall_mem_cons] at plain
      exact .plain plain.1 (goes plain.2)

theorem after_plain {character : Char} (plain : isPlain character = true)
    (enclosed : Enclosed depth (character :: text)) : Enclosed depth text := by
  cases enclosed with
  | plain _ later => exact later
  | _ => cases plain

theorem after_opening (enclosed : Enclosed depth ('\x7b' :: text)) :
    Enclosed (depth + 1) text := by
  cases enclosed with
  | opening later => exact later
  | plain plain _ => cases plain

theorem after_closing (enclosed : Enclosed (depth + 2) ('\x7d' :: text)) :
    Enclosed (depth + 1) text := by
  cases enclosed with
  | closing later => exact later
  | plain plain _ => cases plain

theorem after_last (enclosed : Enclosed 1 ('\x7d' :: text)) : text = [] := by
  cases enclosed with
  | last => rfl
  | plain plain _ => cases plain

theorem nonempty (enclosed : Enclosed depth text) : text ≠ [] := by
  rintro rfl
  cases enclosed

/-- A gap ends before the last brace. -/
theorem after_gap (enclosed : Enclosed depth text) :
    ∃ gap rest, text = gap ++ rest ∧ Enclosed depth rest ∧
      ∀ location more, afterGap ⟨location, text ++ more⟩ = ⟨location.after gap, rest ++ more⟩ := by
  induction enclosed with
  | last => exact ⟨[], _, rfl, .last, fun _ _ => gap_stops (breaks_cons rfl)⟩
  | opening later _ => exact ⟨[], _, rfl, .opening later, fun _ _ => gap_stops (breaks_cons rfl)⟩
  | closing later _ => exact ⟨[], _, rfl, .closing later, fun _ _ => gap_stops (breaks_cons rfl)⟩
  | @plain depth character text plain later goes =>
      by_cases blank : isBlank character = true
      · obtain ⟨gap, rest, rfl, inside, ends⟩ := goes
        refine ⟨character :: gap, rest, rfl, inside, fun location more => ?_⟩
        exact (gap_after_blank blank).trans (ends _ more)
      · refine ⟨[], _, rfl, .plain plain later, fun _ _ => gap_stops (breaks_cons ?_)⟩
        rw [isPlain, Bool.and_eq_true, Bool.and_eq_true, bne_iff_ne] at plain
        rw [opensGap, Bool.or_eq_false_iff, beq_eq_false_iff_ne, Bool.eq_false_iff]
        exact ⟨blank, plain.1.1⟩
  | @line depth body text whole later goes =>
      obtain ⟨gap, rest, rfl, inside, ends⟩ := goes
      refine ⟨'/' :: '/' :: (body ++ '\n' :: gap), rest, by simp, inside, fun location more => ?_⟩
      have written : '/' :: '/' :: (body ++ '\n' :: (gap ++ rest)) ++ more =
          '/' :: '/' :: (body ++ '\n' :: (gap ++ rest ++ more)) := by simp
      rw [written, afterGap, afterGapFrom, line_comment_stops whole]
      rw [Location.after_cons, Location.after_cons, Location.after_append, Location.after_cons]
      exact ends _ more
  | @block depth body text whole later goes =>
      obtain ⟨gap, rest, rfl, inside, ends⟩ := goes
      refine ⟨'/' :: '*' :: (body ++ '*' :: '/' :: gap), rest, by simp, inside,
        fun location more => ?_⟩
      have written : '/' :: '*' :: (body ++ '*' :: '/' :: (gap ++ rest)) ++ more =
          '/' :: '*' :: (body ++ '*' :: '/' :: (gap ++ rest ++ more)) := by simp
      rw [written, afterGap, afterGapFrom, block_comment_stops whole]
      rw [Location.after_cons, Location.after_cons, Location.after_append, Location.after_cons,
        Location.after_cons]
      exact ends _ more

/-- Whether the text begins with a literal is seen without what follows the text. -/
theorem begins_or_not {front : List Char} (plain : ∀ character ∈ front, isPlain character = true)
    (enclosed : Enclosed depth text) :
    (∃ rest, text = front ++ rest ∧ Enclosed depth rest) ∨ ∀ more, ¬front <+: text ++ more := by
  induction front generalizing text with
  | nil => exact .inl ⟨text, rfl, enclosed⟩
  | cons character front goes =>
      rw [List.forall_mem_cons] at plain
      obtain ⟨first, others, rfl⟩ := List.exists_cons_of_ne_nil enclosed.nonempty
      by_cases same : character = first
      · subst same
        rcases goes plain.2 (enclosed.after_plain plain.1) with ⟨rest, rfl, inside⟩ | absent
        · exact .inl ⟨rest, rfl, inside⟩
        · right
          intro more begins
          exact absent more (List.cons_prefix_cons.mp begins).2
      · right
        intro more begins
        exact same (List.cons_prefix_cons.mp begins).1

/-- A run of plain characters ends before the last brace. -/
theorem run_ends {accepts : Char → Bool}
    (plain : ∀ character, accepts character = true → isPlain character = true)
    (enclosed : Enclosed depth text) :
    ∃ taken rest, text = taken ++ rest ∧ Enclosed depth rest ∧
      (∀ character ∈ taken, accepts character = true) ∧
      ∀ more, Breaks accepts (rest ++ more) := by
  induction text with
  | nil => exact absurd rfl enclosed.nonempty
  | cons character text goes =>
      by_cases accepted : accepts character = true
      · obtain ⟨taken, rest, rfl, inside, run, breaks⟩ :=
          goes (enclosed.after_plain (plain character accepted))
        exact ⟨character :: taken, rest, rfl, inside, List.forall_mem_cons.mpr ⟨accepted, run⟩,
          breaks⟩
      · refine ⟨[], _, rfl, enclosed, List.forall_mem_nil _, fun more => breaks_cons ?_⟩
        rwa [Bool.eq_false_iff]

end Enclosed

/-- What spells the lexemes of a packet begins with a text up to its closing brace. -/
theorem Spells.enclosed {text rest : List Char} {lexemes : List Lexeme} {depth : Nat}
    (spells : Spells text lexemes rest) (closes : Closes depth lexemes) :
    ∃ front tail, text = front ++ tail ∧ Enclosed depth front := by
  induction spells generalizing depth with
  | done => cases closes
  | blank blank _ goes =>
      obtain ⟨front, tail, rfl, inside⟩ := goes closes
      exact ⟨_, tail, rfl, .plain (plain_of_blank blank) inside⟩
  | @line text rest lexemes _ goes =>
      obtain ⟨front, tail, parted, inside⟩ := goes closes
      obtain ⟨first, others, rfl⟩ := List.exists_cons_of_ne_nil inside.nonempty
      have feed : first = '\n' := by
        have stop := List.head?_dropWhile_not (· != '\n') text
        rw [parted] at stop
        simpa using stop
      subst feed
      refine ⟨'/' :: '/' :: (text.takeWhile (· != '\n') ++ '\n' :: others), tail, ?_, ?_⟩
      · have whole := List.takeWhile_append_dropWhile (p := (· != '\n')) (l := text)
        rw [parted] at whole
        rw [List.cons_append, List.cons_append, List.append_assoc, whole]
      · apply Enclosed.line _ (inside.after_plain (by decide))
        intro member
        have stays := List.mem_takeWhile_imp member
        cases stays
  | @block body text rest lexemes whole _ goes =>
      obtain ⟨front, tail, rfl, inside⟩ := goes closes
      exact ⟨'/' :: '*' :: (body ++ '*' :: '/' :: front), tail, by simp, .block whole inside⟩
  | lexeme legal ends _ goes =>
      cases closes with
      | last => exact ⟨_, _, rfl, .last⟩
      | opening later =>
          obtain ⟨front, tail, rfl, inside⟩ := goes later
          exact ⟨_, tail, rfl, .opening inside⟩
      | closing later =>
          obtain ⟨front, tail, rfl, inside⟩ := goes later
          exact ⟨_, tail, rfl, .closing inside⟩
      | plain plain later =>
          obtain ⟨front, tail, rfl, inside⟩ := goes later
          refine ⟨_, tail, (List.append_assoc _ _ _).symm, inside.plain_append ?_⟩
          exact legal.plain plain

end Grammar

end PacketSchema
