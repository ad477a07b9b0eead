import PacketSchema.Proofs.Grammar.Draft

/-!
# What a tree says

The draft of a tree is what the tree says without the places it says it at. A chain that leans to
the left is a list again, and the arm for all other cases is the last of its union. A tree holds no
empty statements; a draft that may hold some says the same as the draft condensed.
-/

namespace PacketSchema

namespace Tree

def Value.draft : Value → Draft.Value
  | .integer numeral => .integer numeral.item
  | .reference ident => .reference ident.item

def Measure.draft : Measure → WidthUnit
  | .bits => .bits
  | .bytes order => .bytes (order.map Located.item)

def Width.draft (width : Width) : Draft.Width := ⟨width.count.draft, width.unit.item.draft⟩

def Descriptor.draft (descriptor : Descriptor) : Draft.Descriptor :=
  ⟨descriptor.scalar.item, descriptor.width.map Width.draft, descriptor.count.map Value.draft⟩

mutual

def Disjunction.draft : Disjunction → Draft.Disjunction
  | .single item => .mk item.draft []
  | .or left right => left.draft.extend right.draft

def Conjunction.draft : Conjunction → Draft.Conjunction
  | .single item => .mk item.draft []
  | .and left right => left.draft.extend right.draft

def Relation.draft : Relation → Draft.Relation
  | .operand only => .operand only.draft
  | .compare left comparison right => .compare left.draft comparison.item right.draft

def Operand.draft : Operand → Draft.Operand
  | .value written => .value written.draft
  | .negation _ operand => .negation operand.draft
  | .group _ inner => .group inner.draft

end

def Tag.draft (tag : Tag) : Draft.Tag := ⟨tag.label.item, tag.value.item⟩

mutual

def Statement.draft : Statement → Draft.Statement
  | .always _ ident descriptor => .always ident.item descriptor.draft
  | .optional _ ident condition body => .optional ident.item condition.draft (blockDraft body)
  | .union _ ident arms => .union ident.item (caseDrafts arms) (otherwiseDraft arms)

def blockDraft : List Statement → List Draft.Statement
  | [] => []
  | statement :: rest => statement.draft :: blockDraft rest

def caseDrafts : List Arm → List Draft.Case
  | [] => []
  | .mk _ (some guard) tag body :: rest =>
      .mk guard.draft tag.draft (blockDraft body) :: caseDrafts rest
  | .mk _ none _ _ :: _ => []

def otherwiseDraft : List Arm → Option Draft.Otherwise
  | [] => none
  | .mk _ (some _) _ _ :: rest => otherwiseDraft rest
  | .mk _ none tag body :: _ => some (.mk tag.draft (blockDraft body))

end

def Inheritance.draft (clause : Inheritance) : Draft.Inheritance :=
  ⟨clause.parent.item, clause.condition.map Disjunction.draft⟩

def Packet.draft (packet : Packet) : Draft.Packet :=
  ⟨packet.ident.item, packet.inheritance.map Inheritance.draft, blockDraft packet.body⟩

def Module.draft (tree : Module) : Draft.Module := ⟨tree.packets.map Packet.draft⟩

end Tree

namespace Draft

mutual

/-- A statement without the empty statements in its blocks. -/
def Statement.condensed : Statement → Statement
  | .always ident descriptor => .always ident descriptor
  | .optional ident condition body => .optional ident condition (condensedBlock body)
  | .union ident cases otherwise =>
      .union ident (condensedCases cases) (condensedOtherwise otherwise)
  | .empty => .empty

def condensedBlock : List Statement → List Statement
  | [] => []
  | .empty :: rest => condensedBlock rest
  | statement :: rest => statement.condensed :: condensedBlock rest

def condensedCases : List Case → List Case
  | [] => []
  | .mk condition tag body :: rest =>
      .mk condition tag (condensedBlock body) :: condensedCases rest

def condensedOtherwise : Option Otherwise → Option Otherwise
  | none => none
  | some (.mk tag body) => some (.mk tag (condensedBlock body))

end

def Packet.condensed (packet : Packet) : Packet :=
  ⟨packet.ident, packet.inheritance, condensedBlock packet.body⟩

def Module.condensed (schema : Module) : Module := ⟨schema.packets.map Packet.condensed⟩

theorem foldl_extend_disjunction (first : Conjunction) (others later : List Conjunction) :
    later.foldl Disjunction.extend (.mk first others) = .mk first (others ++ later) := by
  induction later generalizing others with
  | nil => rw [List.foldl_nil, List.append_nil]
  | cons next rest folded =>
      rw [List.foldl_cons, Disjunction.extend, folded, List.append_assoc, List.singleton_append]

theorem foldl_extend_conjunction (first : Relation) (others later : List Relation) :
    later.foldl Conjunction.extend (.mk first others) = .mk first (others ++ later) := by
  induction later generalizing others with
  | nil => rw [List.foldl_nil, List.append_nil]
  | cons next rest folded =>
      rw [List.foldl_cons, Conjunction.extend, folded, List.append_assoc, List.singleton_append]

end Draft

namespace Tree

theorem block_draft_append (first second : List Statement) :
    blockDraft (first ++ second) = blockDraft first ++ blockDraft second := by
  induction first with
  | nil => rfl
  | cons statement rest later => rw [List.cons_append, blockDraft, later, blockDraft,
      List.cons_append]

/-- Behind arms with a guard the arms go on. -/
theorem case_drafts_append {cases : List Arm} (guarded : ∀ arm ∈ cases, arm.guard.isSome = true)
    (rest : List Arm) : caseDrafts (cases ++ rest) = caseDrafts cases ++ caseDrafts rest := by
  induction cases with
  | nil => rfl
  | cons arm cases later =>
      obtain ⟨location, guard, tag, body⟩ := arm
      rw [List.forall_mem_cons] at guarded
      obtain ⟨guard, rfl⟩ := Option.isSome_iff_exists.mp guarded.1
      rw [List.cons_append, caseDrafts, later guarded.2, caseDrafts, List.cons_append]

theorem otherwise_draft_append {cases : List Arm}
    (guarded : ∀ arm ∈ cases, arm.guard.isSome = true) (rest : List Arm) :
    otherwiseDraft (cases ++ rest) = otherwiseDraft rest := by
  induction cases with
  | nil => rfl
  | cons arm cases later =>
      obtain ⟨location, guard, tag, body⟩ := arm
      rw [List.forall_mem_cons] at guarded
      obtain ⟨guard, rfl⟩ := Option.isSome_iff_exists.mp guarded.1
      rw [List.cons_append, otherwiseDraft, later guarded.2]

theorem disjunction_chain_draft (first : Conjunction) (others : List Conjunction) :
    (others.foldl Disjunction.or (.single first)).draft =
      .mk first.draft (others.map Conjunction.draft) := by
  have folded : ∀ left : Disjunction, (others.foldl Disjunction.or left).draft =
      (others.map Conjunction.draft).foldl Draft.Disjunction.extend left.draft := by
    intro left
    rw [List.foldl_map]
    exact (List.foldl_hom Disjunction.draft fun _ _ => rfl).symm
  rw [folded, Disjunction.draft, Draft.foldl_extend_disjunction, List.nil_append]

theorem conjunction_chain_draft (first : Relation) (others : List Relation) :
    (others.foldl Conjunction.and (.single first)).draft =
      .mk first.draft (others.map Relation.draft) := by
  have folded : ∀ left : Conjunction, (others.foldl Conjunction.and left).draft =
      (others.map Relation.draft).foldl Draft.Conjunction.extend left.draft := by
    intro left
    rw [List.foldl_map]
    exact (List.foldl_hom Conjunction.draft fun _ _ => rfl).symm
  rw [folded, Conjunction.draft, Draft.foldl_extend_conjunction, List.nil_append]

end Tree

namespace Draft

variable (place : Nat → Location)

theorem option_draft_tree {Part Item : Type} {tree : Part → Item} {draft : Item → Part}
    (back : ∀ part, draft (tree part) = part) (written : Option Part) :
    (written.map tree).map draft = written := by
  cases written with
  | none => rfl
  | some part => rw [Option.map_some, Option.map_some, back part]

theorem Value.draft_tree (value : Value) (index : Nat) :
    (value.tree place index).draft = value := by
  cases value <;> rfl

theorem Width.draft_tree (width : Width) (index : Nat) :
    (width.tree place index).draft = width := by
  obtain ⟨count, unit⟩ := width
  rw [Width.tree, Tree.Width.draft, Value.draft_tree, Width.mk.injEq]
  refine ⟨rfl, ?_⟩
  cases unit with
  | bits => rfl
  | bytes order => cases order <;> rfl

theorem Descriptor.draft_tree (descriptor : Descriptor) (index : Nat) :
    (descriptor.tree place index).draft = descriptor := by
  rw [Descriptor.tree, Tree.Descriptor.draft,
    option_draft_tree fun width => Width.draft_tree place width _,
    option_draft_tree fun count => Value.draft_tree place count _]

mutual

theorem Disjunction.draft_tree : (condition : Disjunction) → (index : Nat) →
    (condition.tree place index).draft = condition
  | .mk first others, index => by
      rw [Disjunction.tree, Tree.disjunction_chain_draft, Conjunction.draft_tree first,
        alternatives_draft_tree others]

theorem alternatives_draft_tree : (rest : List Conjunction) → (index : Nat) →
    (alternativeTrees place index rest).map Tree.Conjunction.draft = rest
  | [], _ => rfl
  | next :: rest, index => by
      rw [alternativeTrees, List.map_cons, Conjunction.draft_tree next,
        alternatives_draft_tree rest]

theorem Conjunction.draft_tree : (conjunction : Conjunction) → (index : Nat) →
    (conjunction.tree place index).draft = conjunction
  | .mk first others, index => by
      rw [Conjunction.tree, Tree.conjunction_chain_draft, Relation.draft_tree first,
        conjuncts_draft_tree others]

theorem conjuncts_draft_tree : (rest : List Relation) → (index : Nat) →
    (conjunctTrees place index rest).map Tree.Relation.draft = rest
  | [], _ => rfl
  | next :: rest, index => by
      rw [conjunctTrees, List.map_cons, Relation.draft_tree next, conjuncts_draft_tree rest]

theorem Relation.draft_tree : (relation : Relation) → (index : Nat) →
    (relation.tree place index).draft = relation
  | .operand only, index => by
      rw [Relation.tree, Tree.Relation.draft, Operand.draft_tree only]
  | .compare left comparison right, index => by
      rw [Relation.tree, Tree.Relation.draft, Operand.draft_tree left, Operand.draft_tree right]

theorem Operand.draft_tree : (operand : Operand) → (index : Nat) →
    (operand.tree place index).draft = operand
  | .value written, index => by
      rw [Operand.tree, Tree.Operand.draft, Value.draft_tree]
  | .negation operand, index => by
      rw [Operand.tree, Tree.Operand.draft, Operand.draft_tree operand]
  | .group inner, index => by
      rw [Operand.tree, Tree.Operand.draft, Disjunction.draft_tree inner]

end

theorem condensed_block_cons (statement : Statement) (rest : List Statement) :
    condensedBlock (statement :: rest) = condensedBlock [statement] ++ condensedBlock rest := by
  cases statement <;> rfl

theorem cases_guarded (cases : List Case) (index : Nat) :
    ∀ arm ∈ caseTrees place index cases, arm.guard.isSome = true := by
  induction cases generalizing index with
  | nil =>
      intro arm member
      cases member
  | cons next rest later =>
      obtain ⟨condition, tag, body⟩ := next
      rw [caseTrees, List.forall_mem_cons]
      exact ⟨rfl, later _⟩

theorem Tag.draft_tree (tag : Tag) (index : Nat) : (tag.tree place index).draft = tag := rfl

mutual

theorem Statement.draft_tree : (statement : Statement) → (index : Nat) →
    Tree.blockDraft (statement.tree place index).toList = condensedBlock [statement]
  | .always ident descriptor, index => by
      rw [Statement.tree, Option.toList_some, Tree.blockDraft, Tree.Statement.draft,
        Descriptor.draft_tree]
      rfl
  | .optional ident condition body, index => by
      rw [Statement.tree, Option.toList_some, Tree.blockDraft, Tree.Statement.draft,
        Disjunction.draft_tree, block_draft_tree body]
      rfl
  | .union ident cases otherwise, index => by
      have guarded := cases_guarded place cases (index + 3)
      rw [Statement.tree, Option.toList_some, Tree.blockDraft, Tree.Statement.draft,
        Tree.case_drafts_append guarded, Tree.otherwise_draft_append guarded,
        cases_draft_tree cases, (otherwise_draft_tree otherwise _).1,
        (otherwise_draft_tree otherwise _).2, List.append_nil]
      rfl
  | .empty, _ => rfl

theorem block_draft_tree : (body : List Statement) → (index : Nat) →
    Tree.blockDraft (blockTree place index body) = condensedBlock body
  | [], _ => rfl
  | statement :: rest, index => by
      rw [blockTree, Tree.block_draft_append, Statement.draft_tree statement,
        block_draft_tree rest, ← condensed_block_cons]

theorem cases_draft_tree : (cases : List Case) → (index : Nat) →
    Tree.caseDrafts (caseTrees place index cases) = condensedCases cases
  | [], _ => rfl
  | .mk condition tag body :: rest, index => by
      rw [caseTrees, Case.tree, Tree.caseDrafts, Disjunction.draft_tree, Tag.draft_tree,
        block_draft_tree body, cases_draft_tree rest, condensedCases]

theorem otherwise_draft_tree : (otherwise : Option Otherwise) → (index : Nat) →
    Tree.caseDrafts (otherwiseTree place index otherwise).toList = [] ∧
      Tree.otherwiseDraft (otherwiseTree place index otherwise).toList =
        condensedOtherwise otherwise
  | none, _ => ⟨rfl, rfl⟩
  | some (.mk tag body), index => by
      refine ⟨rfl, ?_⟩
      rw [otherwiseTree, Otherwise.tree, Option.toList_some, Tree.otherwiseDraft, Tag.draft_tree,
        block_draft_tree body, condensedOtherwise]

end

theorem Inheritance.draft_tree (clause : Inheritance) (index : Nat) :
    (clause.tree place index).draft = clause := by
  rw [Inheritance.tree, Tree.Inheritance.draft,
    option_draft_tree fun condition => Disjunction.draft_tree place condition _]

theorem Packet.draft_tree (packet : Packet) (index : Nat) :
    (packet.tree place index).draft = packet.condensed := by
  rw [Packet.tree, Tree.Packet.draft, block_draft_tree, Packet.condensed,
    option_draft_tree fun clause => Inheritance.draft_tree place clause _]

/-- The tree of a schema says what the schema says, wherever its lexemes are placed. -/
theorem Module.draft_tree (schema : Module) :
    (schema.tree place).draft = schema.condensed := by
  have packets : ∀ (packets : List Packet) (index : Nat),
      (packetTrees place index packets).map Tree.Packet.draft = packets.map Packet.condensed := by
    intro packets
    induction packets with
    | nil => exact fun _ => rfl
    | cons packet rest later =>
        intro index
        rw [packetTrees, List.map_cons, List.map_cons, Packet.draft_tree, later]
  rw [Module.tree, Tree.Module.draft, packets, Module.condensed]

end Draft

end PacketSchema
