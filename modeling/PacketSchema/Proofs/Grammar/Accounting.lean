import Mathlib
import PacketSchema.Proofs.Grammar.Accounts
import PacketSchema.Proofs.Grammar.Drafting

/-!
# The tree accounts for the text

Each production takes the lexemes of the draft of what it answers, and layout. Only a block takes
more: the semicolons of its empty statements, which leave nothing in the tree. So what a text is
read as tells the text, up to its layout and its empty statements.
-/

namespace PacketSchema

namespace Grammar.Parser

open PacketSchema.Draft

theorem value_writes : value.Writes fun found => [found.draft.lexeme] := by
  apply Accounts.named
  apply Accounts.or_else
  · apply integer_writes.bind
    intro numeral
    exact accounts_pure rfl
  · apply reference_writes.bind
    intro ident
    exact accounts_pure rfl

theorem meaning_accounts {Item : Type} {spelled : Item → List Lexeme → Prop} {keyword : Keyword}
    {item : Item} (holds : spelled item [.keyword keyword]) :
    (meaning keyword item).Accounts spelled := by
  apply (reserved_writes keyword).bind
  intro _
  exact accounts_pure holds

theorem scalar_writes : scalarType.Writes fun found => [scalarLexeme found.item] := by
  apply located_writes fun scalar => [scalarLexeme scalar]
  apply Accounts.named
  apply Accounts.or_else
  · apply (mark_writes .ignored).bind
    intro _
    exact accounts_pure rfl
  · apply Accounts.or_else
    · exact meaning_accounts rfl
    · exact meaning_accounts rfl

theorem order_writes :
    byteOrder.Writes fun found => [Lexeme.keyword (orderKeyword found.item)] := by
  apply located_writes fun order => [Lexeme.keyword (orderKeyword order)]
  apply Accounts.named
  apply Accounts.or_else
  · exact meaning_accounts rfl
  · exact meaning_accounts rfl

theorem unit_writes : unit.Writes fun found => unitLexemes found.item.draft := by
  apply located_writes fun unit : Tree.Measure => unitLexemes unit.draft
  apply Accounts.named
  apply Accounts.or_else
  · apply Accounts.named
    exact meaning_accounts rfl
  · apply Accounts.named
    apply (reserved_writes .bytes).bind
    intro _
    apply order_writes.option.bind
    intro order
    apply accounts_pure
    cases order <;> rfl

theorem width_writes : width.Writes fun found => found.draft.lexemes := by
  apply Accounts.named
  apply value_writes.bind
  intro count
  apply unit_writes.bind
  intro unit
  apply accounts_pure
  rw [List.append_nil]
  rfl

theorem after_colon_writes {Item : Type} {lexemes : Item → List Lexeme} {parser : Parser Item}
    (body : parser.Writes lexemes) :
    (afterColon parser).Writes fun item => annexed (lexemes item) := by
  apply (mark_writes .colon).bind
  intro _
  apply body.weaken
  rintro item _ rfl
  rfl

theorem descriptor_writes : descriptor.Writes fun found => found.draft.lexemes := by
  apply Accounts.named
  apply scalar_writes.bind
  intro scalar
  apply (after_colon_writes width_writes).option.bind
  intro width
  apply (after_colon_writes value_writes).option.bind
  intro count
  apply accounts_pure
  rw [List.append_nil]
  cases width <;> cases count <;> rfl

/-- The parts of a chain behind its first one, each with the mark before it. -/
theorem joined_writes {Item : Type} {lexemes : Item → List Lexeme} {parser : Parser Item}
    (body : parser.Writes lexemes) (join : Mark) (bound : Nat) :
    (many bound (do
      mark join.text
      parser)).Writes (joinedLexemes join lexemes) := by
  have part : (do
      mark join.text
      parser).Writes fun item => .mark join :: lexemes item := by
    apply (mark_writes join).bind
    intro _
    apply body.weaken
    rintro item _ rfl
    rfl
  apply Accounts.many part
  · rfl
  · rintro item items _ _ rfl rfl
    rfl

section Levels

variable {operand : Parser Tree.Operand} (inner : operand.Writes fun found => found.draft.lexemes)

include inner

theorem relation_writes : (relationOf operand).Writes fun found => found.draft.lexemes := by
  apply Accounts.named
  apply inner.bind
  intro left
  have compared : (do
      let comparison ← comparison
      let right ← operand
      return (comparison, right) : Parser (Tree.Located Comparison × Tree.Operand)).Writes
      fun found => .mark (.comparison found.1.item) :: found.2.draft.lexemes := by
    apply comparison_writes.bind
    intro comparison
    apply inner.bind
    intro right
    apply accounts_pure
    rw [List.append_nil]
    rfl
  apply compared.option.bind
  intro rest
  apply accounts_pure
  rw [List.append_nil]
  cases rest with
  | none => exact List.append_nil _
  | some found => rfl

theorem conjunction_writes (bound : Nat) :
    (conjunctionOf bound operand).Writes fun found => found.draft.lexemes := by
  apply Accounts.named
  apply (relation_writes inner).bind
  intro first
  apply (joined_writes (relation_writes inner) .both bound).bind
  intro others
  apply accounts_pure
  beta_reduce
  rw [List.append_nil, Tree.conjunction_chain_draft, Conjunction.lexemes, conjunct_lexemes_eq,
    joined_lexemes_map]

theorem disjunction_writes (bound : Nat) :
    (disjunctionOf bound operand).Writes fun found => found.draft.lexemes := by
  apply Accounts.named
  apply (conjunction_writes inner bound).bind
  intro first
  apply (joined_writes (conjunction_writes inner bound) .either bound).bind
  intro others
  apply accounts_pure
  beta_reduce
  rw [List.append_nil, Tree.disjunction_chain_draft, Disjunction.lexemes, alternative_lexemes_eq,
    joined_lexemes_map]

end Levels

theorem operand_writes (bound : Nat) : (operand bound).Writes fun found => found.draft.lexemes := by
  induction bound with
  | zero => exact accounts_refuse
  | succ bound inner =>
      apply Accounts.or_else
      · apply Accounts.named
        apply accounts_here
        intro location
        apply (mark_writes .negation).bind
        intro _
        apply inner.bind
        intro operand
        apply accounts_pure
        rw [List.append_nil]
        rfl
      · apply Accounts.or_else
        · apply accounts_here
          intro location
          apply (mark_writes .openGroup).bind
          intro _
          apply (disjunction_writes inner bound).bind
          intro condition
          apply (mark_writes .closeGroup).bind
          intro _
          exact accounts_pure rfl
        · apply value_writes.bind
          intro written
          exact accounts_pure rfl

theorem guard_writes (bound : Nat) :
    (guard bound).Writes fun found => parenthesized found.draft.lexemes := by
  apply (mark_writes .openGroup).bind
  intro _
  apply (disjunction_writes (operand_writes bound) bound).bind
  intro condition
  apply (mark_writes .closeGroup).bind
  intro _
  exact accounts_pure rfl

theorem tag_writes : tag.Writes fun found => found.draft.lexemes := by
  apply Accounts.named
  apply accounts_here
  intro location
  apply (mark_writes .bar).bind
  intro _
  apply ident_writes.bind
  intro label
  apply (mark_writes .colon).bind
  intro _
  apply integer_writes.bind
  intro value
  apply (mark_writes .bar).bind
  intro _
  exact accounts_pure rfl

theorem braced_accounts {Item : Type} {spelled : Item → List Lexeme → Prop} {parser : Parser Item}
    (body : parser.Accounts spelled) :
    (Parser.braced parser).Accounts fun item taken =>
      ∃ inside, spelled item inside ∧ taken = Draft.braced inside := by
  apply (mark_writes .openBrace).bind
  intro _
  apply body.bind
  intro item inside relation
  apply (mark_writes .closeBrace).bind
  intro _
  exact accounts_pure ⟨inside, relation, rfl⟩

/-- Lexemes of a statement that, condensed, says what a tree says. -/
def StatementSays (statement : Tree.Statement) (taken : List Lexeme) : Prop :=
  ∃ draft : Draft.Statement, condensedBlock [draft] = [statement.draft] ∧ taken = draft.lexemes

/-- Lexemes of a block that, without its empty statements, says what trees say. -/
def BlockSays (statements : List Tree.Statement) (taken : List Lexeme) : Prop :=
  ∃ drafts : List Draft.Statement, condensedBlock drafts = Tree.blockDraft statements ∧
    taken = blockLexemes drafts

def CaseSays (arm : Tree.Arm) (taken : List Lexeme) : Prop :=
  arm.guard.isSome = true ∧ ∃ draft : Draft.Case,
    condensedCases [draft] = Tree.caseDrafts [arm] ∧ taken = draft.lexemes

def OtherwiseSays (arm : Tree.Arm) (taken : List Lexeme) : Prop :=
  arm.guard = none ∧ ∃ draft : Draft.Otherwise,
    condensedOtherwise (some draft) = Tree.otherwiseDraft [arm] ∧ taken = draft.lexemes

def ArmsSay (arms : List Tree.Arm) (taken : List Lexeme) : Prop :=
  ∃ cases otherwise, condensedCases cases = Tree.caseDrafts arms ∧
    condensedOtherwise otherwise = Tree.otherwiseDraft arms ∧
    taken = caseLexemes cases ++ otherwiseLexemes otherwise

theorem always_accounts : alwaysStatement.Accounts StatementSays := by
  apply Accounts.named
  apply accounts_here
  intro location
  apply (reserved_writes .always).bind
  intro _
  apply ident_writes.bind
  intro ident
  apply descriptor_writes.bind
  intro descriptor
  apply (mark_writes .semicolon).bind
  intro _
  exact accounts_pure ⟨.always ident.item descriptor.draft, rfl, rfl⟩

section Blocks

variable {block : Parser (List Tree.Statement)} (inner : block.Accounts BlockSays)

include inner

theorem optional_accounts (bound : Nat) : (optionalOf bound block).Accounts StatementSays := by
  apply Accounts.named
  apply accounts_here
  intro location
  apply (reserved_writes .optional).bind
  intro _
  apply ident_writes.bind
  intro ident
  apply (reserved_writes .when).bind
  intro _
  apply (guard_writes bound).bind
  intro condition
  apply (braced_accounts inner).bind
  rintro body _ ⟨_, ⟨drafts, same, rfl⟩, rfl⟩
  apply accounts_pure
  refine ⟨.optional ident.item condition.draft drafts, ?_, ?_⟩
  · rw [condensedBlock, condensedBlock, Statement.condensed, same, Tree.Statement.draft]
    intro empty
    cases empty
  · rw [List.append_nil]
    rfl

theorem case_accounts (bound : Nat) : (caseOf bound block).Accounts CaseSays := by
  apply Accounts.named
  apply accounts_here
  intro location
  apply (reserved_writes .case).bind
  intro _
  apply (guard_writes bound).bind
  intro condition
  apply tag_writes.bind
  intro tag
  apply (braced_accounts inner).bind
  rintro body _ ⟨_, ⟨drafts, same, rfl⟩, rfl⟩
  apply accounts_pure
  refine ⟨rfl, .mk condition.draft tag.draft drafts, ?_, ?_⟩
  · rw [condensedCases, condensedCases, same]
    rfl
  · rw [List.append_nil]
    rfl

theorem otherwise_accounts : (otherwiseOf block).Accounts OtherwiseSays := by
  apply Accounts.named
  apply accounts_here
  intro location
  apply (reserved_writes .otherwise).bind
  intro _
  apply tag_writes.bind
  intro tag
  apply (braced_accounts inner).bind
  rintro body _ ⟨_, ⟨drafts, same, rfl⟩, rfl⟩
  apply accounts_pure
  refine ⟨rfl, .mk tag.draft drafts, ?_, ?_⟩
  · rw [condensedOtherwise, same]
    rfl
  · rw [List.append_nil]
    rfl

theorem cases_account (bound : Nat) :
    (many bound (caseOf bound block)).Accounts fun cases taken =>
      (∀ arm ∈ cases, arm.guard.isSome = true) ∧ ∃ drafts : List Draft.Case,
        condensedCases drafts = Tree.caseDrafts cases ∧ taken = caseLexemes drafts := by
  apply Accounts.many (case_accounts inner bound)
  · exact ⟨List.forall_mem_nil _, [], rfl, rfl⟩
  · rintro arm cases _ _ ⟨guarded, draft, first, rfl⟩ ⟨allGuarded, drafts, rest, rfl⟩
    refine ⟨List.forall_mem_cons.mpr ⟨guarded, allGuarded⟩, draft :: drafts, ?_, rfl⟩
    have one : ∀ found ∈ [arm], found.guard.isSome = true :=
      List.forall_mem_singleton.mpr guarded
    have arms : Tree.caseDrafts (arm :: cases) = Tree.caseDrafts [arm] ++ Tree.caseDrafts cases :=
      Tree.case_drafts_append one cases
    rw [arms, ← first, ← rest]
    obtain ⟨condition, tag, body⟩ := draft
    rfl

theorem arms_account (bound : Nat) :
    (do
      let cases ← many bound (caseOf bound block)
      let otherwise ← option (otherwiseOf block)
      return cases ++ otherwise.toList : Parser (List Tree.Arm)).Accounts ArmsSay := by
  apply (cases_account inner bound).bind
  rintro cases _ ⟨guarded, drafts, same, rfl⟩
  apply (otherwise_accounts inner).option.bind
  intro otherwise taken relation
  apply accounts_pure
  unfold ArmsSay
  rw [Tree.case_drafts_append guarded, Tree.otherwise_draft_append guarded, ← same]
  cases otherwise with
  | none =>
      cases relation
      exact ⟨drafts, none, (List.append_nil _).symm, rfl, rfl⟩
  | some arm =>
      obtain ⟨unguarded, last, ends, rfl⟩ := relation
      obtain ⟨location, guard, tag, body⟩ := arm
      cases unguarded
      refine ⟨drafts, some last, (List.append_nil _).symm, ends, ?_⟩
      rw [List.append_nil]
      rfl

theorem union_accounts (bound : Nat) : (unionOf bound block).Accounts StatementSays := by
  apply Accounts.named
  apply accounts_here
  intro location
  apply (reserved_writes .union).bind
  intro _
  apply ident_writes.bind
  intro ident
  apply (braced_accounts (arms_account inner bound)).bind
  rintro arms _ ⟨_, ⟨cases, otherwise, sameCases, sameLast, rfl⟩, rfl⟩
  apply accounts_pure
  refine ⟨.union ident.item cases otherwise, ?_, ?_⟩
  · rw [condensedBlock, condensedBlock, Statement.condensed, sameCases, sameLast,
      Tree.Statement.draft]
    intro empty
    cases empty
  · rw [List.append_nil]
    rfl

/-- An empty statement answers nothing, and its semicolon is that of a draft which condenses to
nothing. -/
theorem statement_accounts (bound : Nat) :
    (statementOf bound block).Accounts fun answer taken =>
      ∃ draft : Draft.Statement,
        condensedBlock [draft] = Tree.blockDraft answer.toList ∧ taken = draft.lexemes := by
  apply Accounts.or_else
  · have statement := always_accounts.or_else
      ((optional_accounts inner bound).or_else (union_accounts inner bound))
    apply statement.bind
    rintro found _ ⟨draft, same, rfl⟩
    apply accounts_pure
    exact ⟨draft, same, List.append_nil _⟩
  · apply (mark_writes .semicolon).bind
    intro _
    exact accounts_pure ⟨.empty, rfl, rfl⟩

end Blocks

theorem block_accounts (bound : Nat) : (block bound).Accounts BlockSays := by
  induction bound with
  | zero => exact accounts_refuse
  | succ bound inner =>
      have all : (many bound (statementOf bound (block bound))).Accounts fun answers taken =>
          BlockSays (answers.filterMap id) taken := by
        apply Accounts.many (statement_accounts inner bound)
        · exact ⟨[], rfl, rfl⟩
        · rintro answer answers _ _ ⟨draft, first, rfl⟩ ⟨drafts, rest, rfl⟩
          refine ⟨draft :: drafts, ?_, rfl⟩
          rw [condensed_block_cons, first, rest, ← Tree.block_draft_append]
          cases answer <;> rfl
      apply all.bind
      intro answers taken relation
      apply accounts_pure
      rw [List.append_nil]
      exact relation

theorem inheritance_writes (bound : Nat) :
    (inheritance bound).Writes fun clause => clause.draft.lexemes := by
  apply Accounts.named
  apply accounts_here
  intro location
  apply (mark_writes .colon).bind
  intro _
  apply ident_writes.bind
  intro parent
  apply (guard_writes bound).option.bind
  intro condition
  apply accounts_pure
  rw [List.append_nil]
  cases condition <;> rfl

def PacketSays (packet : Tree.Packet) (taken : List Lexeme) : Prop :=
  ∃ draft : Draft.Packet, draft.condensed = packet.draft ∧ taken = draft.lexemes

theorem packet_accounts (bound : Nat) : (packet bound).Accounts PacketSays := by
  apply Accounts.named
  apply ident_writes.bind
  intro ident
  apply (inheritance_writes bound).option.bind
  intro clause
  apply (braced_accounts (block_accounts bound)).bind
  rintro body _ ⟨_, ⟨drafts, same, rfl⟩, rfl⟩
  apply accounts_pure
  refine ⟨⟨ident.item, clause.map Tree.Inheritance.draft, drafts⟩, ?_, ?_⟩
  · rw [Packet.condensed, same]
    rfl
  · rw [List.append_nil]
    cases clause <;> rfl

theorem packets_account (bound : Nat) :
    (many bound (packet bound)).Accounts fun packets taken => ∃ drafts : List Draft.Packet,
      drafts.map Packet.condensed = packets.map Tree.Packet.draft ∧
        taken = packetLexemes drafts := by
  apply Accounts.many (packet_accounts bound)
  · exact ⟨[], rfl, rfl⟩
  · rintro packet packets _ _ ⟨draft, first, rfl⟩ ⟨drafts, rest, rfl⟩
    refine ⟨draft :: drafts, ?_, rfl⟩
    rw [List.map_cons, List.map_cons, first, rest]

/-- A module that is read reaches the end of its text. -/
theorem module_accounts {bound : Nat} {text : List Char} {tree : Tree.Module} {after : Cursor}
    (accepted : (module bound).run (.ofText text) = some (tree, after)) :
    ∃ schema : Draft.Module, schema.condensed = tree.draft ∧ Spells text schema.lexemes [] := by
  obtain ⟨read, ended, -⟩ := module_iff.mp accepted
  obtain ⟨_, ⟨drafts, same, rfl⟩, spells⟩ := (packets_account bound).holds _ _ after read
  rw [ended] at spells
  exact ⟨⟨drafts⟩, congrArg Draft.Module.mk same, (spells_after_gap (.ofText text)).append spells⟩

end Grammar.Parser

/-- A tree tells a text by a schema: the text spells the lexemes of the schema, so that without its
layout it is their texts, character for character, and the schema without its empty statements is
what the tree says. The draft of a regular tree leaves nothing of it out but the places. -/
structure Grammar.Accounted (tree : Tree.Module) (schema : Draft.Module) (text : List Char) :
    Prop where
  regular : tree.Regular
  condensed : schema.condensed = tree.draft
  spells : Spells text schema.lexemes []
  characters : stripped text = schema.lexemes.flatMap Lexeme.text

theorem Grammar.exists_accounted {source : String} {tree : Tree.Module}
    (parsed : Grammar.parse source = .ok tree) : ∃ schema, Accounted tree schema source.toList := by
  obtain ⟨after, accepted⟩ := Grammar.parse_eq_ok_iff.mp parsed
  obtain ⟨schema, condensed, spells⟩ := Parser.module_accounts accepted
  have characters := spells.stripped_eq
  rw [stripped, List.append_nil] at characters
  exact ⟨schema, Grammar.parse_regular parsed, condensed, spells, characters⟩

/-- Whatever is read accounts for the whole of its text, and two texts of which trees say the same
spell schemas that differ in empty statements only. -/
theorem Grammar.parse_accounts {source : String} {tree : Tree.Module}
    (parsed : Grammar.parse source = .ok tree) :
    (∃ schema, Accounted tree schema source.toList) ∧
      ∀ other otherTree, Grammar.parse other = .ok otherTree → otherTree.draft = tree.draft →
        ∃ schema otherSchema, Accounted tree schema source.toList ∧
          Accounted otherTree otherSchema other.toList ∧
          otherSchema.condensed = schema.condensed := by
  obtain ⟨schema, accounted⟩ := exists_accounted parsed
  refine ⟨⟨schema, accounted⟩, ?_⟩
  intro other otherTree otherParsed same
  obtain ⟨otherSchema, otherAccounted⟩ := exists_accounted otherParsed
  refine ⟨schema, otherSchema, accounted, otherAccounted, ?_⟩
  rw [otherAccounted.condensed, same, accounted.condensed]

def looseText : String := "/**/p \x7b;optional o//\nwhen((1)&&&o)\x7b;\x7d\x7d"

def tightText : String := "p\x7boptional o when((1)&&&o)\x7b\x7d\x7d"

def optionalSchema : Draft.Module where
  packets := [
    { ident := "p"
      inheritance := none
      body := [
        .optional "o"
          (.mk (.mk (.operand (.group (.mk (.mk (.operand (.value (.integer "1"))) []) [])))
              [.operand (.value (.reference "o"))]) [])
          []] }]

theorem loose_text_draft :
    (Grammar.parse looseText).toOption.map Tree.Module.draft = some optionalSchema := by cbv

theorem tight_text_draft :
    (Grammar.parse tightText).toOption.map Tree.Module.draft = some optionalSchema := by cbv

theorem parsed_of_draft {source : String} {schema : Draft.Module}
    (drafted : (Grammar.parse source).toOption.map Tree.Module.draft = some schema) :
    ∃ tree, Grammar.parse source = .ok tree ∧ tree.draft = schema := by
  cases parsed : Grammar.parse source with
  | error error =>
      rw [parsed] at drafted
      cases drafted
  | ok tree =>
      rw [parsed] at drafted
      cases drafted
      exact ⟨tree, rfl, rfl⟩

open Grammar in
theorem loose_text_accounted :
    ∃ tree otherTree, Grammar.parse looseText = .ok tree ∧
      Grammar.parse tightText = .ok otherTree ∧
      (∃ schema, Accounted tree schema looseText.toList) ∧
      ∃ schema otherSchema, Accounted tree schema looseText.toList ∧
        Accounted otherTree otherSchema tightText.toList ∧
        otherSchema.condensed = schema.condensed := by
  obtain ⟨tree, parsed, draft⟩ := parsed_of_draft loose_text_draft
  obtain ⟨otherTree, otherParsed, otherDraft⟩ := parsed_of_draft tight_text_draft
  have accounts := Grammar.parse_accounts parsed
  have same : otherTree.draft = tree.draft := otherDraft.trans draft.symm
  exact ⟨tree, otherTree, parsed, otherParsed, accounts.1,
    accounts.2 tightText otherTree otherParsed same⟩

end PacketSchema
