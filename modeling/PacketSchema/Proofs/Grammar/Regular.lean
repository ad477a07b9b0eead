import PacketSchema.Proofs.Formula
import PacketSchema.Proofs.Grammar.Yields

/-!
# What the grammar promises of a tree

A tree can hold more than a text can say: names that are no words, and arms in any order. What is
read from a text is regular. Every identifier and every label is a word, and the arms of a union
are its cases, followed by at most one arm for all other cases.
-/

namespace PacketSchema

namespace Grammar

/-- A text that starts like an identifier and goes on like one. -/
structure IsWord (text : String) : Prop where
  start : ∃ first others, text.toList = first :: others ∧ isWordStart first = true
  within : ∀ character ∈ text.toList, isWordCharacter character = true

theorem word_character_of_start {character : Char} (start : isWordStart character = true) :
    isWordCharacter character = true := by
  rw [isWordStart, Bool.or_eq_true] at start
  rw [isWordCharacter, Char.isAlphanum, Bool.or_eq_true, Bool.or_eq_true]
  rcases start with letter | underscore
  · exact .inl (.inl letter)
  · exact .inr underscore

end Grammar

namespace Tree

open Grammar (IsWord)

def Value.Regular : Value → Prop
  | .integer _ => True
  | .reference ident => IsWord ident.item

def Operand.Regular (operand : Operand) : Prop := ∀ leaf ∈ operand.leaves, leaf.Regular

def Relation.Regular (relation : Relation) : Prop := ∀ leaf ∈ relation.leaves, leaf.Regular

def Conjunction.Regular (conjunction : Conjunction) : Prop :=
  ∀ leaf ∈ conjunction.leaves, leaf.Regular

def Disjunction.Regular (condition : Disjunction) : Prop :=
  ∀ leaf ∈ condition.leaves, leaf.Regular

def Descriptor.Regular (descriptor : Descriptor) : Prop :=
  ∀ leaf ∈ descriptor.leaves, leaf.Regular

/-- Cases come first, then at most one arm for the others. -/
def CasesFirst (arms : List Arm) : Prop :=
  ∃ cases others, arms = cases ++ others ∧ others.length ≤ 1 ∧
    (∀ arm ∈ cases, arm.guard.isSome = true) ∧ ∀ arm ∈ others, arm.guard = none

mutual

def Statement.Regular : Statement → Prop
  | .always _ ident descriptor => IsWord ident.item ∧ descriptor.Regular
  | .optional _ ident condition body =>
      IsWord ident.item ∧ condition.Regular ∧ blockRegular body
  | .union _ ident arms => IsWord ident.item ∧ CasesFirst arms ∧ armsRegular arms

def Arm.Regular : Arm → Prop
  | .mk _ guard tag body =>
      (∀ condition ∈ guard, condition.Regular) ∧ IsWord tag.label.item ∧ blockRegular body

def blockRegular : List Statement → Prop
  | [] => True
  | statement :: rest => statement.Regular ∧ blockRegular rest

def armsRegular : List Arm → Prop
  | [] => True
  | arm :: rest => arm.Regular ∧ armsRegular rest

end

structure Inheritance.Regular (clause : Inheritance) : Prop where
  parent : IsWord clause.parent.item
  condition : ∀ condition ∈ clause.condition, condition.Regular

structure Packet.Regular (packet : Packet) : Prop where
  ident : IsWord packet.ident.item
  inheritance : ∀ clause ∈ packet.inheritance, clause.Regular
  body : blockRegular packet.body

def Module.Regular (tree : Module) : Prop := ∀ packet ∈ tree.packets, packet.Regular

theorem block_regular_iff {statements : List Statement} :
    blockRegular statements ↔ ∀ statement ∈ statements, statement.Regular := by
  induction statements with
  | nil => simp [blockRegular]
  | cons statement rest later => rw [blockRegular, later, List.forall_mem_cons]

theorem arms_regular_iff {arms : List Arm} :
    armsRegular arms ↔ ∀ arm ∈ arms, arm.Regular := by
  induction arms with
  | nil => simp [armsRegular]
  | cons arm rest later => rw [armsRegular, later, List.forall_mem_cons]

end Tree

namespace Grammar.Parser

open PacketSchema.Tree (Statement Disjunction Conjunction Relation Operand)

theorem bare_ident_word : bareIdent.Yields IsWord := by
  apply yields_after
  intro _
  apply (yields_satisfy isWordStart).bind
  intro first starts
  apply (yields_span isWordCharacter).bind
  intro others within
  apply yields_pure
  constructor
  · exact ⟨first, others, String.toList_ofList, starts⟩
  · rw [String.toList_ofList]
    intro character member
    rcases List.mem_cons.mp member with rfl | later
    · exact word_character_of_start starts
    · exact within character later

theorem ident_word : ident.Yields fun token => IsWord token.item :=
  (bare_ident_word.named .ident).located.before_gap

theorem reference_word : reference.Yields fun token => IsWord token.item := by
  apply Yields.before_gap
  apply Yields.located
  apply Yields.named
  apply yields_after
  intro _
  exact bare_ident_word.named .ident

theorem value_regular : value.Yields Tree.Value.Regular := by
  apply Yields.named
  apply Yields.or_else
  · apply yields_after
    intro numeral
    exact yields_pure trivial
  · apply reference_word.bind
    intro token word
    exact yields_pure word

theorem after_colon_yields {Item : Type} {property : Item → Prop} {parser : Parser Item}
    (holds : parser.Yields property) : (afterColon parser).Yields property := by
  apply yields_after
  intro _
  exact holds

theorem width_regular : width.Yields fun found => found.count.Regular := by
  apply Yields.named
  apply value_regular.bind
  intro count regular
  apply yields_after
  intro unit
  exact yields_pure regular

theorem descriptor_regular : descriptor.Yields Tree.Descriptor.Regular := by
  apply Yields.named
  apply yields_after
  intro scalar
  apply (after_colon_yields width_regular).option.bind
  intro width widthRegular
  apply (after_colon_yields value_regular).option.bind
  intro count countRegular
  apply yields_pure
  intro leaf member
  rcases List.mem_append.mp member with inWidth | inCount
  · rcases Option.map_eq_some_iff.mp (Option.mem_toList.mp inWidth) with ⟨written, same, rfl⟩
    exact widthRegular written same
  · exact countRegular leaf (Option.mem_toList.mp inCount)

section Conditions

variable {operand : Parser Operand}

theorem relation_regular (inner : operand.Yields Operand.Regular) :
    (relationOf operand).Yields Relation.Regular := by
  apply Yields.named
  apply inner.bind
  intro left leftRegular
  have compared : Yields (fun found : Tree.Located Comparison × Operand => found.2.Regular) (do
        let comparison ← comparison
        let right ← operand
        return (comparison, right)) := by
    apply yields_after
    intro comparison
    apply inner.bind
    intro right rightRegular
    exact yields_pure rightRegular
  apply compared.option.bind
  intro rest restRegular
  apply yields_pure
  cases rest with
  | none => exact leftRegular
  | some found =>
      intro leaf member
      rcases List.mem_append.mp member with first | last
      · exact leftRegular leaf first
      · exact restRegular found rfl leaf last

theorem conjunction_regular (bound : Nat) (inner : operand.Yields Operand.Regular) :
    (conjunctionOf bound operand).Yields Conjunction.Regular := by
  apply Yields.named
  apply (relation_regular inner).bind
  intro first firstRegular
  have conjunct : Yields Relation.Regular (do
      mark ['&', '&']
      relationOf operand) := by
    apply yields_after
    intro _
    exact relation_regular inner
  apply (conjunct.many bound).bind
  intro others othersRegular
  apply yields_pure
  apply List.foldlRecOn others Conjunction.and
  · exact firstRegular
  · intro left leftRegular next member leaf inside
    rcases List.mem_append.mp inside with before | here
    · exact leftRegular leaf before
    · exact othersRegular next member leaf here

theorem disjunction_regular (bound : Nat) (inner : operand.Yields Operand.Regular) :
    (disjunctionOf bound operand).Yields Disjunction.Regular := by
  apply Yields.named
  apply (conjunction_regular bound inner).bind
  intro first firstRegular
  have alternative : Yields Conjunction.Regular (do
      mark ['|', '|']
      conjunctionOf bound operand) := by
    apply yields_after
    intro _
    exact conjunction_regular bound inner
  apply (alternative.many bound).bind
  intro others othersRegular
  apply yields_pure
  apply List.foldlRecOn others Disjunction.or
  · exact firstRegular
  · intro left leftRegular next member leaf inside
    rcases List.mem_append.mp inside with before | here
    · exact leftRegular leaf before
    · exact othersRegular next member leaf here

end Conditions

theorem operand_regular (bound : Nat) : (operand bound).Yields Operand.Regular := by
  induction bound with
  | zero => exact yields_refuse
  | succ bound inner =>
      apply Yields.or_else
      · apply Yields.named
        apply yields_after
        intro location
        apply yields_after
        intro _
        apply inner.bind
        intro found regular
        exact yields_pure regular
      · apply Yields.or_else
        · apply yields_after
          intro location
          apply yields_after
          intro _
          apply (disjunction_regular bound inner).bind
          intro found regular
          apply yields_after
          intro _
          exact yields_pure regular
        · apply value_regular.bind
          intro written regular
          apply yields_pure
          intro leaf member
          cases List.mem_singleton.mp member
          exact regular

theorem guard_regular (bound : Nat) : (guard bound).Yields Disjunction.Regular := by
  apply yields_after
  intro _
  apply (disjunction_regular bound (operand_regular bound)).bind
  intro condition regular
  apply yields_after
  intro _
  exact yields_pure regular

theorem tag_regular : tag.Yields fun found => IsWord found.label.item := by
  apply Yields.named
  apply yields_after
  intro location
  apply yields_after
  intro _
  apply ident_word.bind
  intro label word
  apply yields_after
  intro _
  apply yields_after
  intro number
  apply yields_after
  intro _
  exact yields_pure word

theorem braced_yields {Item : Type} {property : Item → Prop} {parser : Parser Item}
    (holds : parser.Yields property) : (braced parser).Yields property := by
  apply yields_after
  intro _
  apply holds.bind
  intro item has
  apply yields_after
  intro _
  exact yields_pure has

theorem always_regular : alwaysStatement.Yields Statement.Regular := by
  apply Yields.named
  apply yields_after
  intro location
  apply yields_after
  intro _
  apply ident_word.bind
  intro name word
  apply descriptor_regular.bind
  intro descriptor regular
  apply yields_after
  intro _
  apply yields_pure
  rw [Statement.Regular]
  exact ⟨word, regular⟩

section Blocks

variable {block : Parser (List Statement)}

theorem optional_regular (bound : Nat) (inner : block.Yields Tree.blockRegular) :
    (optionalOf bound block).Yields Statement.Regular := by
  apply Yields.named
  apply yields_after
  intro location
  apply yields_after
  intro _
  apply ident_word.bind
  intro name word
  apply yields_after
  intro _
  apply (guard_regular bound).bind
  intro condition conditionRegular
  apply (braced_yields inner).bind
  intro body bodyRegular
  apply yields_pure
  rw [Statement.Regular]
  exact ⟨word, conditionRegular, bodyRegular⟩

theorem case_regular (bound : Nat) (inner : block.Yields Tree.blockRegular) :
    (caseOf bound block).Yields fun arm => arm.Regular ∧ arm.guard.isSome = true := by
  apply Yields.named
  apply yields_after
  intro location
  apply yields_after
  intro _
  apply (guard_regular bound).bind
  intro condition conditionRegular
  apply tag_regular.bind
  intro found word
  apply (braced_yields inner).bind
  intro body bodyRegular
  apply yields_pure
  constructor
  · rw [Tree.Arm.Regular]
    refine ⟨?_, word, bodyRegular⟩
    intro written same
    cases same
    exact conditionRegular
  · rfl

theorem otherwise_regular (inner : block.Yields Tree.blockRegular) :
    (otherwiseOf block).Yields fun arm => arm.Regular ∧ arm.guard = none := by
  apply Yields.named
  apply yields_after
  intro location
  apply yields_after
  intro _
  apply tag_regular.bind
  intro found word
  apply (braced_yields inner).bind
  intro body bodyRegular
  apply yields_pure
  constructor
  · rw [Tree.Arm.Regular]
    refine ⟨?_, word, bodyRegular⟩
    intro written same
    cases same
  · rfl

theorem union_regular (bound : Nat) (inner : block.Yields Tree.blockRegular) :
    (unionOf bound block).Yields Statement.Regular := by
  apply Yields.named
  apply yields_after
  intro location
  apply yields_after
  intro _
  apply ident_word.bind
  intro name word
  have arms : Yields (fun arms => Tree.CasesFirst arms ∧ Tree.armsRegular arms) (do
      let cases ← many bound (caseOf bound block)
      let otherwise ← option (otherwiseOf block)
      return cases ++ otherwise.toList) := by
    apply ((case_regular bound inner).many bound).bind
    intro cases casesRegular
    apply (otherwise_regular inner).option.bind
    intro otherwise otherwiseRegular
    apply yields_pure
    constructor
    · refine ⟨cases, otherwise.toList, rfl, ?_, fun arm member => (casesRegular arm member).2, ?_⟩
      · cases otherwise with
        | none => exact Nat.zero_le 1
        | some arm => exact Nat.le_refl 1
      · intro arm member
        exact (otherwiseRegular arm (Option.mem_toList.mp member)).2
    · rw [Tree.arms_regular_iff]
      intro arm member
      rcases List.mem_append.mp member with early | last
      · exact (casesRegular arm early).1
      · exact (otherwiseRegular arm (Option.mem_toList.mp last)).1
  apply (braced_yields arms).bind
  intro found regular
  apply yields_pure
  rw [Statement.Regular]
  exact ⟨word, regular⟩

theorem statement_regular (bound : Nat) (inner : block.Yields Tree.blockRegular) :
    (statementOf bound block).Yields fun found => ∀ statement ∈ found, statement.Regular := by
  have statement : Yields Statement.Regular
      (alwaysStatement <|> optionalOf bound block <|> unionOf bound block) :=
    always_regular.or_else ((optional_regular bound inner).or_else (union_regular bound inner))
  apply Yields.or_else
  · apply statement.bind
    intro found regular
    apply yields_pure
    intro other same
    cases same
    exact regular
  · apply yields_after
    intro _
    apply yields_pure
    intro other same
    cases same

end Blocks

theorem block_regular (bound : Nat) : (block bound).Yields Tree.blockRegular := by
  induction bound with
  | zero => exact yields_refuse
  | succ bound inner =>
      apply ((statement_regular bound inner).many bound).bind
      intro statements regular
      apply yields_pure
      rw [Tree.block_regular_iff]
      intro statement member
      rcases List.mem_filterMap.mp member with ⟨found, inside, same⟩
      exact regular found inside statement same

theorem inheritance_regular (bound : Nat) :
    (inheritance bound).Yields Tree.Inheritance.Regular := by
  apply Yields.named
  apply yields_after
  intro location
  apply yields_after
  intro _
  apply ident_word.bind
  intro parent word
  apply (guard_regular bound).option.bind
  intro condition regular
  exact yields_pure ⟨word, regular⟩

theorem packet_regular (bound : Nat) : (packet bound).Yields Tree.Packet.Regular := by
  apply Yields.named
  apply ident_word.bind
  intro name word
  apply (inheritance_regular bound).option.bind
  intro clause clauseRegular
  apply (braced_yields (block_regular bound)).bind
  intro body bodyRegular
  exact yields_pure ⟨word, clauseRegular, bodyRegular⟩

theorem module_regular (bound : Nat) : (module bound).Yields Tree.Module.Regular := by
  apply Yields.named
  apply yields_after
  intro _
  apply ((packet_regular bound).many bound).bind
  intro packets regular
  apply yields_after
  intro finish
  exact yields_pure regular

end Grammar.Parser

theorem Grammar.parse_regular {source : String} {tree : Tree.Module}
    (parsed : Grammar.parse source = .ok tree) : tree.Regular := by
  obtain ⟨after, accepted⟩ := Grammar.parse_eq_ok_iff.mp parsed
  exact (Parser.module_regular (boundOf source.toList)).holds _ tree after accepted

end PacketSchema
