import PacketSchema.Proofs.Dump.Listing

/-!
# Outlines of regular trees

Where identifiers are words, each heading of a tree can be read, so that the listing of the tree's
outline tells the outline.
-/

namespace PacketSchema

namespace Tree

theorem Value.legible {value : Value} (regular : value.Regular) : value.formula.IsSize := by
  cases value with
  | integer numeral => exact ⟨.integer _, trivial⟩
  | reference ident => exact ⟨.field _, regular⟩

mutual

theorem Disjunction.legible : ∀ (condition : Disjunction),
    (∀ leaf ∈ condition.leaves, leaf.Regular) → condition.formula.Legible
  | .single item, regular => by
      rw [Disjunction.formula]
      exact item.legible regular
  | .or left right, regular => by
      rw [Disjunction.leaves, List.forall_mem_append] at regular
      rw [Disjunction.formula]
      exact ⟨left.legible regular.1, right.legible regular.2⟩

theorem Conjunction.legible : ∀ (conjunction : Conjunction),
    (∀ leaf ∈ conjunction.leaves, leaf.Regular) → conjunction.formula.Legible
  | .single item, regular => by
      rw [Conjunction.formula]
      exact item.legible regular
  | .and left right, regular => by
      rw [Conjunction.leaves, List.forall_mem_append] at regular
      rw [Conjunction.formula]
      exact ⟨left.legible regular.1, right.legible regular.2⟩

theorem Relation.legible : ∀ (relation : Relation),
    (∀ leaf ∈ relation.leaves, leaf.Regular) → relation.formula.Legible
  | .operand only, regular => by
      rw [Relation.formula]
      exact only.legible regular
  | .compare left comparison right, regular => by
      rw [Relation.leaves, List.forall_mem_append] at regular
      rw [Relation.formula]
      exact ⟨left.legible regular.1, right.legible regular.2⟩

theorem Operand.legible : ∀ (operand : Operand),
    (∀ leaf ∈ operand.leaves, leaf.Regular) → operand.formula.Legible
  | .value written, regular => by
      rw [Operand.leaves, List.forall_mem_singleton] at regular
      exact (Value.legible regular).legible
  | .negation _ operand, regular => by
      rw [Operand.formula]
      exact operand.legible regular
  | .group _ inner, regular => by
      rw [Operand.formula]
      exact inner.legible regular

end

theorem Descriptor.legible {descriptor : Descriptor} (regular : descriptor.Regular) :
    descriptor.layout.Legible := by
  have one : Formula.IsSize (.integer (some 1)) := ⟨.integer _, trivial⟩
  rw [Descriptor.Regular, Descriptor.leaves, List.forall_mem_append] at regular
  constructor
  · cases written : descriptor.width with
    | none =>
        rw [Descriptor.layout, written]
        exact one
    | some width =>
        rw [written] at regular
        rw [Descriptor.layout, written]
        exact Value.legible (regular.1 width.count List.mem_cons_self)
  · cases written : descriptor.count with
    | none =>
        rw [Descriptor.layout, written]
        exact one
    | some count =>
        rw [written] at regular
        rw [Descriptor.layout, written]
        exact Value.legible (regular.2 count List.mem_cons_self)

theorem selection_legible {condition : Option Disjunction}
    (regular : ∀ written ∈ condition, written.Regular) :
    ∀ formula ∈ selectionFormula condition, formula.Legible := by
  intro formula member
  rcases Option.map_eq_some_iff.mp member with ⟨written, present, rfl⟩
  exact written.legible (regular written present)

end Tree

def AllLegible (entries : List Entry) : Prop := ∀ entry ∈ entries, entry.heading.Legible

theorem all_legible_append {first second : List Entry} :
    AllLegible (first ++ second) ↔ AllLegible first ∧ AllLegible second :=
  List.forall_mem_append

theorem all_legible_node {heading : Heading} {inner : List Outline} {depth : Nat} :
    AllLegible ((Outline.node heading inner).entries depth) ↔
      heading.Legible ∧ AllLegible (outlineEntries (depth + 1) inner) := by
  rw [Outline.entries]
  exact List.forall_mem_cons

namespace Tree

mutual

theorem Statement.all_legible : ∀ (statement : Statement) (depth : Nat), statement.Regular →
    AllLegible (statement.outline.entries depth)
  | .always _ ident descriptor, depth, regular => by
      rw [Statement.Regular] at regular
      rw [Statement.outline, all_legible_node]
      refine ⟨⟨regular.1, Descriptor.legible regular.2⟩, ?_⟩
      intro entry member
      cases member
  | .optional _ ident condition body, depth, regular => by
      rw [Statement.Regular] at regular
      rw [Statement.outline, all_legible_node]
      exact ⟨⟨regular.1, condition.legible regular.2.1⟩, block_legible body _ regular.2.2⟩
  | .union _ ident arms, depth, regular => by
      rw [Statement.Regular] at regular
      rw [Statement.outline, all_legible_node]
      exact ⟨regular.1, arms_legible arms _ regular.2.2⟩

theorem Arm.all_legible : ∀ (arm : Arm) (depth : Nat), arm.Regular →
    AllLegible (arm.outline.entries depth)
  | .mk _ guard tag body, depth, regular => by
      rw [Arm.Regular] at regular
      rw [Arm.outline, all_legible_node]
      exact ⟨⟨selection_legible regular.1, regular.2.1⟩, block_legible body _ regular.2.2⟩

theorem block_legible : ∀ (statements : List Statement) (depth : Nat), blockRegular statements →
    AllLegible (outlineEntries depth (blockOutlines statements))
  | [], _, _ => by
      intro entry member
      cases member
  | statement :: rest, depth, regular => by
      rw [blockRegular] at regular
      rw [blockOutlines, outlineEntries, all_legible_append]
      exact ⟨statement.all_legible depth regular.1, block_legible rest depth regular.2⟩

theorem arms_legible : ∀ (arms : List Arm) (depth : Nat), armsRegular arms →
    AllLegible (outlineEntries depth (armOutlines arms))
  | [], _, _ => by
      intro entry member
      cases member
  | arm :: rest, depth, regular => by
      rw [armsRegular] at regular
      rw [armOutlines, outlineEntries, all_legible_append]
      exact ⟨arm.all_legible depth regular.1, arms_legible rest depth regular.2⟩

end

theorem Packet.all_legible {packet : Packet} (regular : packet.Regular) :
    AllLegible (packet.outline.entries 0) := by
  rw [Packet.outline, all_legible_node]
  refine ⟨⟨regular.ident, ?_, ?_⟩, block_legible packet.body _ regular.body⟩
  · intro name member
    rcases Option.map_eq_some_iff.mp member with ⟨clause, written, rfl⟩
    exact (regular.inheritance clause written).parent
  · intro formula member
    rcases Option.bind_eq_some_iff.mp member with ⟨clause, written, selects⟩
    exact selection_legible (regular.inheritance clause written).condition formula selects

theorem Module.all_legible {tree : Module} (regular : tree.Regular) :
    AllLegible (outlineEntries 0 tree.outlines) := by
  unfold Module.outlines
  rw [Module.Regular] at regular
  generalize tree.packets = packets at regular ⊢
  induction packets with
  | nil =>
      intro entry member
      cases member
  | cons packet rest later =>
      rw [List.forall_mem_cons] at regular
      rw [List.map_cons, outlineEntries, all_legible_append]
      exact ⟨Packet.all_legible regular.1, later regular.2⟩

end Tree

end PacketSchema
