import PacketSchema.Grammar.Production
import PacketSchema.Proofs.Grammar.Numerals
import PacketSchema.Proofs.Grammar.Reading.Condition
import PacketSchema.Proofs.Resolving

/-!
# Canonical conditions are read back

The text of a condition shows its tree. Put an ampersand before each identifier and it is a
condition as schemas have it: every relation and every conjunction is a group, so each level of the
grammar above a group holds a single operand. The lexemes of that text are told by recursion on
the condition, with one blank on either side of each operator that stands between two operands.
Whatever their gaps, such lexemes are read; at the end of the text every level stops, and what was
read resolves to the condition that it came from.
-/

namespace PacketSchema

open Grammar (Mark Lexeme IsGap IsIdentifier IsNumeral Writing)

def Connective.mark : Connective → Mark
  | .both => .both
  | .either => .either

theorem Connective.mark_text (connective : Connective) :
    connective.mark.text = connective.symbol.toList := by
  cases connective <;> rfl

namespace Condition

/-- The condition with an ampersand before each identifier. -/
def referring : Condition → Condition
  | .integer value => .integer value
  | .field reference => .field { reference with ident := "&" ++ reference.ident }
  | .negation operand => .negation operand.referring
  | .relation comparison left right => .relation comparison left.referring right.referring
  | .conjunction connective left right => .conjunction connective left.referring right.referring

def integers : Condition → List Int64
  | .integer value => [value]
  | .field _ => []
  | .negation operand => operand.integers
  | .relation _ left right => left.integers ++ right.integers
  | .conjunction _ left right => left.integers ++ right.integers

/-- A condition as it is written: what stands in parentheses is a group. -/
def draft : Condition → Draft.Operand
  | .integer value => .value (.integer (toString value.toInt))
  | .field reference => .value (.reference reference.ident)
  | .negation operand => .negation operand.draft
  | .relation comparison left right =>
      .group (.mk (.mk (.compare left.draft comparison right.draft) []) [])
  | .conjunction .both left right =>
      .group (.mk (.mk (.operand left.draft) [.operand right.draft]) [])
  | .conjunction .either left right =>
      .group (.mk (.mk (.operand left.draft) []) [.mk (.operand right.draft) []])

/-- Two operands in parentheses with a mark and two blanks between them. -/
def enclosed (mark : Mark) (left right : List Grammar.Entry) (gap : List Char) :
    List Grammar.Entry :=
  ⟨.mark .openGroup, []⟩ ::
    (left ++ ⟨.mark mark, [' ']⟩ :: (right ++ [⟨.mark .closeGroup, gap⟩]))

/-- The lexemes of the canonical text, each with what stands after it. -/
def entries (gap : List Char) : Condition → List Grammar.Entry
  | .integer value => [⟨.integer (toString value.toInt), gap⟩]
  | .field reference => [⟨.reference reference.ident, gap⟩]
  | .negation operand => ⟨.mark .negation, []⟩ :: operand.entries gap
  | .relation comparison left right =>
      enclosed (.comparison comparison) (left.entries [' ']) (right.entries []) gap
  | .conjunction connective left right =>
      enclosed connective.mark (left.entries [' ']) (right.entries []) gap

variable {condition : Condition} {gap : List Char}

theorem entries_lexemes (condition : Condition) (gap : List Char) :
    (condition.entries gap).map Grammar.Entry.lexeme = condition.draft.lexemes := by
  induction condition generalizing gap with
  | integer value | field reference => rfl
  | negation operand inner => exact congrArg (Lexeme.mark .negation :: ·) (inner gap)
  | relation comparison left right leftInner rightInner =>
      simp [entries, enclosed, draft, Draft.Operand.lexemes, Draft.Disjunction.lexemes,
        Draft.alternativeLexemes, Draft.Conjunction.lexemes, Draft.conjunctLexemes,
        Draft.Relation.lexemes, Draft.parenthesized, leftInner, rightInner]
  | conjunction connective left right leftInner rightInner =>
      cases connective
      all_goals
        simp [entries, enclosed, draft, Draft.Operand.lexemes, Draft.Disjunction.lexemes,
          Draft.alternativeLexemes, Draft.Conjunction.lexemes, Draft.conjunctLexemes,
          Draft.Relation.lexemes, Draft.parenthesized, Connective.mark, leftInner, rightInner]

theorem enclosed_text (mark : Mark) (left right : List Grammar.Entry) (gap : List Char) :
    (enclosed mark left right gap).flatMap Grammar.Entry.text =
      '(' :: (left.flatMap Grammar.Entry.text ++
        (mark.text ++ ' ' :: (right.flatMap Grammar.Entry.text ++ ')' :: gap))) := by
  simp [enclosed, Grammar.Entry.text, Lexeme.text, Mark.text]

theorem entries_text (condition : Condition) (gap : List Char) :
    (condition.entries gap).flatMap Grammar.Entry.text =
      condition.referring.text.toList ++ gap := by
  induction condition generalizing gap with
  | integer value => simp [entries, Grammar.Entry.text, Lexeme.text, referring, text]
  | field reference => simp [entries, Grammar.Entry.text, Lexeme.text, referring, text]
  | negation operand inner =>
      simp [entries, Grammar.Entry.text, Lexeme.text, Mark.text, referring, text, inner]
  | relation comparison left right leftInner rightInner =>
      simp [entries, enclosed_text, Mark.text, referring, text, leftInner, rightInner]
  | conjunction connective left right leftInner rightInner =>
      simp [entries, enclosed_text, Connective.mark_text, referring, text, leftInner, rightInner]

/-- Two entries are not one word together. -/
def Apart (left right : Grammar.Entry) : Prop :=
  left.lexeme.closesWord = true → right.lexeme.opensWord = true → left.gap ≠ []

/-- A mark that is no underscore can stand between any two lexemes. -/
theorem apart_around {mark : Mark} (solid : mark ≠ .ignored) {gap : List Char}
    {left right : List Grammar.Entry} (first : left.IsChain Apart) (last : right.IsChain Apart) :
    (left ++ ⟨.mark mark, gap⟩ :: right).IsChain Apart := by
  have open_ : (mark == .ignored) = false := beq_eq_false_iff_ne.mpr solid
  refine List.isChain_append.mpr ⟨first, List.isChain_cons.mpr ⟨?_, last⟩, ?_⟩
  · intro next _ closes
    rw [Lexeme.closesWord, open_] at closes
    cases closes
  · intro before _ next member _ opens
    cases member
    rw [Lexeme.opensWord, open_] at opens
    cases opens

theorem mark_apart {mark : Mark} (solid : mark ≠ .ignored) {gap : List Char}
    {right : List Grammar.Entry} (last : right.IsChain Apart) :
    (⟨.mark mark, gap⟩ :: right : List Grammar.Entry).IsChain Apart := by
  have around : ([] ++ ⟨.mark mark, gap⟩ :: right : List Grammar.Entry).IsChain Apart :=
    apart_around solid .nil last
  exact around

theorem enclosed_apart {mark : Mark} (solid : mark ≠ .ignored) (gap : List Char)
    {left right : List Grammar.Entry} (first : left.IsChain Apart) (last : right.IsChain Apart) :
    (enclosed mark left right gap).IsChain Apart :=
  mark_apart (by decide) (apart_around solid first (apart_around (by decide) last .nil))

theorem entries_apart (condition : Condition) (gap : List Char) :
    (condition.entries gap).IsChain Apart := by
  induction condition generalizing gap with
  | integer value | field reference => exact .singleton _
  | negation operand inner => exact mark_apart (by decide) (inner gap)
  | relation comparison left right leftInner rightInner =>
      exact enclosed_apart (by simp) gap (leftInner [' ']) (rightInner [])
  | conjunction connective left right leftInner rightInner =>
      exact enclosed_apart (by cases connective <;> decide) gap (leftInner [' ']) (rightInner [])

/-- What is asked of a condition to have a text in the grammar: no sign before an integer, and
identifiers that are words. -/
structure Writable (condition : Condition) : Prop where
  natural : ∀ value ∈ condition.integers, 0 ≤ value.toInt
  named : ∀ reference ∈ condition.references, IsIdentifier reference.ident

/-- An entry with a gap that is one and a lexeme of its shape. -/
def Fits (entry : Grammar.Entry) : Prop := IsGap entry.gap ∧ entry.lexeme.Legal

theorem enclosed_fits {mark : Mark} {left right : List Grammar.Entry} (isGap : IsGap gap)
    (first : ∀ entry ∈ left, Fits entry) (last : ∀ entry ∈ right, Fits entry) :
    ∀ entry ∈ enclosed mark left right gap, Fits entry := by
  have blank : IsGap [' '] := .blank rfl .nil
  intro entry member
  simp only [enclosed, List.mem_cons, List.mem_append, List.not_mem_nil, or_false] at member
  rcases member with rfl | inside | rfl | inside | rfl
  · exact ⟨.nil, trivial⟩
  · exact first entry inside
  · exact ⟨blank, trivial⟩
  · exact last entry inside
  · exact ⟨isGap, trivial⟩

theorem Writable.parts {left right : Condition} (writable : condition.Writable)
    (integers : condition.integers = left.integers ++ right.integers)
    (references : condition.references = left.references ++ right.references) :
    left.Writable ∧ right.Writable := by
  obtain ⟨natural, named⟩ := writable
  rw [integers, List.forall_mem_append] at natural
  rw [references, List.forall_mem_append] at named
  exact ⟨⟨natural.1, named.1⟩, ⟨natural.2, named.2⟩⟩

theorem entries_fit (writable : condition.Writable) (isGap : IsGap gap) :
    ∀ entry ∈ condition.entries gap, Fits entry := by
  have blank : IsGap [' '] := .blank rfl .nil
  induction condition generalizing gap with
  | integer value =>
      have numeral : IsNumeral (toString value.toInt) := by
        rw [text_of_natural (writable.natural value (List.mem_singleton_self _))]
        exact numeral_of_text _
      exact List.forall_mem_singleton.mpr ⟨isGap, numeral⟩
  | field reference =>
      have named := writable.named reference (List.mem_singleton_self _)
      exact List.forall_mem_singleton.mpr ⟨isGap, named⟩
  | negation operand inner =>
      have within : operand.Writable := ⟨writable.natural, writable.named⟩
      exact List.forall_mem_cons.mpr ⟨⟨.nil, trivial⟩, inner within isGap⟩
  | relation comparison left right leftInner rightInner =>
      obtain ⟨first, last⟩ := writable.parts rfl rfl
      exact enclosed_fits isGap (leftInner first blank) (rightInner last .nil)
  | conjunction connective left right leftInner rightInner =>
      obtain ⟨first, last⟩ := writable.parts rfl rfl
      exact enclosed_fits isGap (leftInner first blank) (rightInner last .nil)

def writing (condition : Condition) : Writing := ⟨[], condition.entries []⟩

theorem writing_text (condition : Condition) :
    condition.writing.text = condition.referring.text.toList := by
  rw [Writing.text, writing, entries_text, List.nil_append, List.append_nil]

theorem writing_lexemes (condition : Condition) :
    condition.writing.lexemes = condition.draft.lexemes :=
  condition.entries_lexemes []

theorem Writable.legal (writable : condition.Writable) : condition.writing.Legal where
  margin := .nil
  gaps entry member := (entries_fit writable .nil entry member).1
  lexemes entry member := (entries_fit writable .nil entry member).2
  apart := condition.entries_apart []

variable {forest : ScopeForest} {scope : ScopeId}

theorem integer_resolves {value : Int64} (natural : 0 ≤ value.toInt) (location : Location) :
    Tree.signedNumber ⟨location, toString value.toInt⟩ = .accepted value := by
  rw [text_of_natural natural]
  refine (Tree.signed_eq_accepted _ _).mpr ⟨value.toInt.toNat, number_of_text _ _, ?_, ?_⟩
  · have small := value.toInt_lt
    have half : (signedSize : Int) = 2 ^ 63 := rfl
    omega
  · omega

/-- Wherever its lexemes stand, a condition as it is written resolves to itself. -/
theorem Writable.draft_resolves (writable : condition.Writable)
    (grounded : forest.Grounds scope condition.references) (place : Nat → Location) (index : Nat) :
    (condition.draft.tree place index).resolve forest scope = .accepted condition := by
  induction condition generalizing index with
  | integer value =>
      have natural := writable.natural value (List.mem_singleton_self _)
      have found := integer_resolves natural (place index)
      simp only [draft, Draft.Operand.tree, Draft.Value.tree, Tree.Operand.resolve,
        Tree.Value.resolveLeaf, found, Checked.map]
  | field reference =>
      have resolved := ScopeForest.grounds_singleton.mp grounded
      have found : Tree.resolveReference forest scope ⟨place index, reference.ident⟩ =
          .accepted reference := Tree.reference_eq_accepted.mpr resolved
      simp [draft, Draft.Operand.tree, Draft.Value.tree, Tree.Operand.resolve,
        Tree.Value.resolveLeaf, found, Checked.map]
  | negation operand inner =>
      have within : operand.Writable := ⟨writable.natural, writable.named⟩
      simp [draft, Draft.Operand.tree, Tree.Operand.resolve, inner within grounded, Checked.map]
  | relation comparison left right leftInner rightInner =>
      obtain ⟨first, last⟩ := writable.parts rfl rfl
      obtain ⟨near, far⟩ := ScopeForest.grounds_append.mp grounded
      simp [draft, Draft.Operand.tree, Draft.Disjunction.tree, Draft.alternativeTrees,
        Draft.Conjunction.tree, Draft.conjunctTrees, Draft.Relation.tree, Tree.Operand.resolve,
        Tree.Disjunction.resolve, Tree.Conjunction.resolve, Tree.Relation.resolve,
        leftInner first near, rightInner last far, Checked.both]
  | conjunction connective left right leftInner rightInner =>
      obtain ⟨first, last⟩ := writable.parts rfl rfl
      obtain ⟨near, far⟩ := ScopeForest.grounds_append.mp grounded
      cases connective
      all_goals
        simp [draft, Draft.Operand.tree, Draft.Disjunction.tree, Draft.alternativeTrees,
          Draft.Conjunction.tree, Draft.conjunctTrees, Draft.Relation.tree, Tree.Operand.resolve,
          Tree.Disjunction.resolve, Tree.Conjunction.resolve, Tree.Relation.resolve,
          leftInner first near, rightInner last far, Checked.both]

def tree (condition : Condition) : Tree.Disjunction :=
  .single (.single (.operand (condition.draft.tree condition.writing.place 0)))

theorem Writable.text_read (writable : condition.Writable) :
    (Grammar.Parser.condition (Grammar.boundOf condition.referring.text.toList)).run
        (.ofText condition.referring.text.toList) =
      some (condition.tree, ⟨Location.start.after condition.referring.text.toList, []⟩) := by
  have legal := writable.legal
  have few := legal.length_le_text
  have whole : condition.writing.lexemes = (Draft.Disjunction.only condition.draft).lexemes :=
    condition.writing_lexemes.trans (Draft.Disjunction.only_lexemes condition.draft).symm
  rw [whole, writing_text] at few
  have run := (Writing.whole_condition_reads legal whole (Nat.le_succ_of_le few)).whole rfl
  rw [writing_text, Draft.Disjunction.only_tree] at run
  exact run

/-- A condition whose integers are not negative and whose references resolve to themselves is
what its canonical text is read as, the whole of it, and resolves to. -/
theorem canonical_text_read_back (forest : ScopeForest) (scope : ScopeId) (condition : Condition)
    (natural : ∀ value ∈ condition.integers, 0 ≤ value.toInt)
    (named : ∀ reference ∈ condition.references, IsIdentifier reference.ident)
    (grounded : ∀ reference ∈ condition.references,
      forest.resolve scope reference.ident = .ok reference) :
    ∃ tree : Tree.Disjunction,
      (Grammar.Parser.condition (Grammar.boundOf condition.referring.text.toList)).run
          (.ofText condition.referring.text.toList) =
        some (tree, ⟨Location.start.after condition.referring.text.toList, []⟩) ∧
      (Grammar.Production.rule .disjunction).read condition.referring.text = .ok [tree.node] ∧
      tree.resolve forest scope = .accepted condition := by
  have writable : condition.Writable := ⟨natural, named⟩
  have read := writable.text_read
  refine ⟨condition.tree, read, ?_, ?_⟩
  · exact Grammar.read_front_of_run (Grammar.Parser.run_bind_some read)
  · exact writable.draft_resolves grounded _ 0

/-- Operators of each kind within one another, and the largest integer. -/
def nested : Condition :=
  .relation .equal
    (.conjunction .both (.field ⟨⟨0⟩, "n"⟩) (.negation (.negation (.integer 9223372036854775807))))
    (.conjunction .either (.relation .less (.integer 0) (.field ⟨⟨0⟩, "n"⟩)) (.integer 1))

/-- A scope with the field that the references name, and one below it. -/
def nestedForest : ScopeForest :=
  ⟨[⟨none, [.always "n" (.ofParts .unsigned none none)]⟩, ⟨some ⟨0⟩, []⟩]⟩

theorem nested_read_back :
    nested.referring.text = "((&n && !!9223372036854775807) == ((0 < &n) || 1))" ∧
      ∃ tree : Tree.Disjunction,
        (Grammar.Production.rule .disjunction).read nested.referring.text = .ok [tree.node] ∧
        tree.resolve nestedForest ⟨1⟩ = .accepted nested := by
  -- Over all machine integers this is no decision to make: it is one over the listed ones.
  have listed : nested.integers.all (fun value => decide (0 ≤ value.toInt)) = true := by decide
  obtain ⟨tree, _, read, resolved⟩ := canonical_text_read_back nestedForest ⟨1⟩ nested
    (fun value member => of_decide_eq_true (List.all_eq_true.mp listed value member))
    (by decide) (by decide)
  exact ⟨by decide +kernel, tree, read, resolved⟩

end Condition

end PacketSchema
