import PacketSchema.Proofs.Dump.Outline
import PacketSchema.Proofs.Dump.Reading

/-!
# Images of one outline

Images of two trees of one outline read alike: the fields they are built as, and every scope from
the first block to the last. Numbers of scopes are no part of an outline; they agree because both
images are numbered in the order of their blocks, and an outline tells how many there are.
-/

namespace PacketSchema

/-- The scopes with these numbers read alike in both forests. -/
def SameScopes (forest grown : ScopeForest) (low high : Nat) : Prop :=
  ∀ id, low ≤ id → id < high →
    (forest.scope? ⟨id⟩).map Scope.reading = (grown.scope? ⟨id⟩).map Scope.reading

namespace SameScopes

variable {forest grown : ScopeForest} {low middle high : Nat}

theorem none (forest grown : ScopeForest) (low : Nat) : SameScopes forest grown low low := by
  intro id above below
  omega

theorem append (first : SameScopes forest grown low middle)
    (last : SameScopes forest grown middle high) : SameScopes forest grown low high := by
  intro id above below
  by_cases early : id < middle
  · exact first id above early
  · exact last id (by omega) below

theorem block {parent : Option ScopeId} {fields presents : List Field} {next blocks : Nat}
    (found : forest.scope? ⟨next⟩ = some ⟨parent, fields⟩)
    (present : grown.scope? ⟨next⟩ = some ⟨parent, presents⟩)
    (same : fields.map Field.reading = presents.map Field.reading)
    (inner : SameScopes forest grown (next + 1) (next + 1 + blocks)) :
    SameScopes forest grown next (next + (blocks + 1)) := by
  intro id above below
  by_cases first : id = next
  · rw [first, found, present, Option.map_some, Option.map_some, Scope.reading, Scope.reading, same]
  · exact inner id (by omega) (by omega)

end SameScopes

def Heading.opens : Heading → Nat
  | .packet _ _ _ => 1
  | .always _ _ => 0
  | .optional _ _ => 1
  | .union _ => 0
  | .arm _ _ _ => 1

mutual

def Outline.blocks : Outline → Nat
  | .node heading inner => outlineBlocks inner + heading.opens

def outlineBlocks : List Outline → Nat
  | [] => 0
  | outline :: rest => outline.blocks + outlineBlocks rest

end

namespace Tree

mutual

theorem Statement.blocks_eq : ∀ (statement : Statement),
    statement.blocks = statement.outline.blocks
  | .always _ _ _ => rfl
  | .optional _ ident condition body => by
      rw [Statement.blocks, Statement.outline, Outline.blocks, block_blocks_eq body]
      rfl
  | .union _ ident arms => by
      rw [Statement.blocks, Statement.outline, Outline.blocks, arm_blocks_eq arms]
      rfl

theorem Arm.blocks_eq : ∀ (arm : Arm), arm.blocks = arm.outline.blocks
  | .mk _ guard tag body => by
      rw [Arm.blocks, Arm.outline, Outline.blocks, block_blocks_eq body]
      rfl

theorem block_blocks_eq : ∀ (statements : List Statement),
    blockBlocks statements = outlineBlocks (blockOutlines statements)
  | [] => rfl
  | statement :: rest => by
      rw [blockBlocks, blockOutlines, outlineBlocks, statement.blocks_eq, block_blocks_eq rest]

theorem arm_blocks_eq : ∀ (arms : List Arm), armBlocks arms = outlineBlocks (armOutlines arms)
  | [] => rfl
  | arm :: rest => by
      rw [armBlocks, armOutlines, outlineBlocks, arm.blocks_eq, arm_blocks_eq rest]

end

theorem Packet.blocks_eq (packet : Packet) : packet.blocks = packet.outline.blocks := by
  rw [Packet.blocks, Packet.outline, Outline.blocks, block_blocks_eq]
  rfl

theorem packet_blocks_eq (packets : List Packet) :
    packetBlocks packets = outlineBlocks (packets.map Packet.outline) := by
  induction packets with
  | nil => rfl
  | cons packet rest later =>
      rw [packetBlocks, List.map_cons, outlineBlocks, packet.blocks_eq, later]

variable {forest grown : ScopeForest}

theorem Arm.same_reading (arm other : Arm) {present twin : PacketSchema.Arm}
    (guards : selectionFormula arm.guard = selectionFormula other.guard)
    (labels : arm.tag.label.item = other.tag.label.item)
    (values : (number? arm.tag.value).map Int.ofNat = (number? other.tag.value).map Int.ofNat)
    (means : arm.Means present) (twinMeans : other.Means twin)
    (scopes : present.scope = twin.scope) : present.reading = twin.reading := by
  have condition : present.condition.map Condition.formula =
      twin.condition.map Condition.formula := by
    rw [means.condition, twinMeans.condition, guards]
  have label : present.tag.label = twin.tag.label := by
    rw [means.label, twinMeans.label, labels]
  have number : some present.tag.value.toInt = some twin.tag.value.toInt := by
    rw [← means.value, ← twinMeans.value, values]
  have value : present.tag.value = twin.tag.value := Int64.toInt.inj (Option.some.inj number)
  have tag : present.tag = twin.tag := by
    cases written : present.tag
    cases also : twin.tag
    rw [written, also] at label value
    simp only at label value
    rw [label, value]
  rw [PacketSchema.Arm.reading, PacketSchema.Arm.reading, condition, tag, scopes]

mutual

theorem Statement.twins : ∀ (statement other : Statement) {scope : ScopeId} {next : Nat}
    {field present : Field}, statement.outline = other.outline →
      statement.BuiltAs forest scope next field → other.BuiltAs grown scope next present →
      field.reading = present.reading ∧
        SameScopes forest grown next (next + statement.blocks)
  | .always _ _ _, other, _, next, _, _, same, built, also => by
      cases other with
      | optional | union =>
          simp only [Statement.outline, Outline.node.injEq, reduceCtorEq, false_and] at same
      | always =>
          simp only [Statement.outline, Outline.node.injEq, Heading.always.injEq] at same
          obtain ⟨encoding, rfl, layout⟩ := always_built_iff.mp built
          obtain ⟨twin, rfl, twinLayout⟩ := always_built_iff.mp also
          refine ⟨?_, .none forest grown next⟩
          rw [Field.reading, Field.reading, layout, twinLayout, same.1.1, same.1.2]
  | .optional _ _ _ body, other, _, _, _, _, same, built, also => by
      cases other with
      | always | union =>
          simp only [Statement.outline, Outline.node.injEq, reduceCtorEq, false_and] at same
      | optional _ _ _ block =>
          simp only [Statement.outline, Outline.node.injEq, Heading.optional.injEq] at same
          obtain ⟨resolved, fields, rfl, reads, here, inside⟩ := optional_built_iff.mp built
          obtain ⟨twin, presents, rfl, twinReads, there, within⟩ := optional_built_iff.mp also
          obtain ⟨alike, scopes⟩ := block_twins body block same.2 inside within
          refine ⟨?_, scopes.block here there alike⟩
          rw [Field.reading, Field.reading, reads, twinReads, same.1.1, same.1.2]
  | .union _ _ arms, other, _, _, _, _, same, built, also => by
      cases other with
      | always | optional =>
          simp only [Statement.outline, Outline.node.injEq, reduceCtorEq, false_and] at same
      | union _ _ others =>
          simp only [Statement.outline, Outline.node.injEq, Heading.union.injEq] at same
          obtain ⟨presents, rfl, inside⟩ := union_built_iff.mp built
          obtain ⟨twins, rfl, within⟩ := union_built_iff.mp also
          obtain ⟨alike, scopes⟩ := arms_twins arms others same.2 inside within
          refine ⟨?_, scopes⟩
          rw [Field.reading, Field.reading, same.1, alike]

theorem Arm.twins : ∀ (arm other : Arm) {scope : ScopeId} {next : Nat}
    {present twin : PacketSchema.Arm}, arm.outline = other.outline →
      arm.BuiltAs forest scope next present → other.BuiltAs grown scope next twin →
      present.reading = twin.reading ∧ SameScopes forest grown next (next + arm.blocks)
  | .mk place guard tag body, .mk other condition mark block, _, _, _, _, same, built, also => by
      simp only [Arm.outline, Outline.node.injEq, Heading.arm.injEq] at same
      rw [Arm.BuiltAs] at built also
      rcases built with ⟨means, numbered, fields, here, inside⟩
      rcases also with ⟨twinMeans, twinNumbered, presents, there, within⟩
      rcases block_twins body block same.2 inside within with ⟨alike, scopes⟩
      refine ⟨?_, scopes.block here there alike⟩
      exact Arm.same_reading (.mk place guard tag body) (.mk other condition mark block) same.1.1
        same.1.2.1 same.1.2.2 means twinMeans (numbered.trans twinNumbered.symm)

theorem block_twins : ∀ (statements others : List Statement) {scope : ScopeId} {next : Nat}
    {fields presents : List Field}, blockOutlines statements = blockOutlines others →
      blockBuiltAs forest scope next statements fields →
      blockBuiltAs grown scope next others presents →
      fields.map Field.reading = presents.map Field.reading ∧
        SameScopes forest grown next (next + blockBlocks statements)
  | [], others, _, next, _, _, same, built, also => by
      cases others with
      | cons => cases same
      | nil =>
          rw [block_built_nil_iff.mp built, block_built_nil_iff.mp also]
          exact ⟨rfl, .none forest grown next⟩
  | statement :: rest, others, _, _, _, _, same, built, also => by
      cases others with
      | nil => cases same
      | cons other more =>
          rw [blockOutlines, blockOutlines, List.cons.injEq] at same
          obtain ⟨field, fields, rfl, here, inside⟩ := block_built_cons_iff.mp built
          obtain ⟨present, presents, rfl, there, within⟩ := block_built_cons_iff.mp also
          obtain ⟨reads, scopes⟩ := statement.twins other same.1 here there
          rw [other.blocks_eq, ← same.1, ← statement.blocks_eq] at within
          obtain ⟨alike, moreScopes⟩ := block_twins rest more same.2 inside within
          constructor
          · rw [List.map_cons, List.map_cons, reads, alike]
          · rw [blockBlocks, ← Nat.add_assoc]
            exact scopes.append moreScopes

theorem arms_twins : ∀ (arms others : List Arm) {scope : ScopeId} {next : Nat}
    {presents twins : List PacketSchema.Arm}, armOutlines arms = armOutlines others →
      armsBuiltAs forest scope next arms presents →
      armsBuiltAs grown scope next others twins →
      presents.map PacketSchema.Arm.reading = twins.map PacketSchema.Arm.reading ∧
        SameScopes forest grown next (next + armBlocks arms)
  | [], others, _, next, _, _, same, built, also => by
      cases others with
      | cons => cases same
      | nil =>
          rw [arms_built_nil_iff.mp built, arms_built_nil_iff.mp also]
          exact ⟨rfl, .none forest grown next⟩
  | arm :: rest, others, _, _, _, _, same, built, also => by
      cases others with
      | nil => cases same
      | cons other more =>
          rw [armOutlines, armOutlines, List.cons.injEq] at same
          obtain ⟨present, presents, rfl, here, inside⟩ := arms_built_cons_iff.mp built
          obtain ⟨twin, twins, rfl, there, within⟩ := arms_built_cons_iff.mp also
          obtain ⟨reads, scopes⟩ := arm.twins other same.1 here there
          rw [other.blocks_eq, ← same.1, ← arm.blocks_eq] at within
          obtain ⟨alike, moreScopes⟩ := arms_twins rest more same.2 inside within
          constructor
          · rw [List.map_cons, List.map_cons, reads, alike]
          · rw [armBlocks, ← Nat.add_assoc]
            exact scopes.append moreScopes

end

end Tree

end PacketSchema
