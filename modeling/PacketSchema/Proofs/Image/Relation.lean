import PacketSchema.Model.Schema
import PacketSchema.Proofs.Formula

/-!
# The image of a tree

A statement is built as a field, a body as the fields of a scope, a tree as a schema. The relation
says all of it: kinds and identifiers in order, what each descriptor and each condition says, the
label and the number of each tag, and the scope of each block. Scopes are numbered in the order in
which their blocks begin in the text, so the relation also fixes the number of every scope: no
scope stands for two blocks, and none for no block.
-/

namespace PacketSchema.Tree

mutual

/-- How many blocks a statement has, those inside its blocks counted as well. -/
def Statement.blocks : Statement → Nat
  | .always _ _ _ => 0
  | .optional _ _ _ body => blockBlocks body + 1
  | .union _ _ arms => armBlocks arms

def Arm.blocks : Arm → Nat
  | .mk _ _ _ body => blockBlocks body + 1

def blockBlocks : List Statement → Nat
  | [] => 0
  | statement :: rest => statement.blocks + blockBlocks rest

def armBlocks : List Arm → Nat
  | [] => 0
  | arm :: rest => arm.blocks + armBlocks rest

end

mutual

/-- The statement is built as the field, in a scope of the forest; `next` is the number of the
statement's first block. -/
def Statement.BuiltAs (forest : ScopeForest) (scope : ScopeId) (next : Nat) :
    Statement → Field → Prop
  | .always _ ident descriptor, .always name encoding =>
      name = ident.item ∧ encoding.layout = descriptor.layout
  | .optional _ ident condition body, .optional name resolved child =>
      name = ident.item ∧ resolved.formula = condition.formula ∧ child = ⟨next⟩ ∧
        ∃ fields, forest.scope? ⟨next⟩ = some ⟨some scope, fields⟩ ∧
          blockBuiltAs forest ⟨next⟩ (next + 1) body fields
  | .union _ ident arms, .union choice =>
      choice.ident = ident.item ∧ armsBuiltAs forest scope next arms choice.arms
  | _, _ => False

def Arm.BuiltAs (forest : ScopeForest) (scope : ScopeId) (next : Nat) :
    Arm → PacketSchema.Arm → Prop
  | .mk location guard tag body, arm =>
      (Arm.mk location guard tag body).Means arm ∧ arm.scope = ⟨next⟩ ∧
        ∃ fields, forest.scope? ⟨next⟩ = some ⟨some scope, fields⟩ ∧
          blockBuiltAs forest ⟨next⟩ (next + 1) body fields

def blockBuiltAs (forest : ScopeForest) (scope : ScopeId) (next : Nat) :
    List Statement → List Field → Prop
  | [], [] => True
  | statement :: rest, field :: fields =>
      statement.BuiltAs forest scope next field ∧
        blockBuiltAs forest scope (next + statement.blocks) rest fields
  | _, _ => False

def armsBuiltAs (forest : ScopeForest) (scope : ScopeId) (next : Nat) :
    List Arm → List PacketSchema.Arm → Prop
  | [], [] => True
  | arm :: rest, present :: others =>
      arm.BuiltAs forest scope next present ∧
        armsBuiltAs forest scope (next + arm.blocks) rest others
  | _, _ => False

end

def Packet.blocks (packet : Packet) : Nat := blockBlocks packet.body + 1

def packetBlocks : List Packet → Nat
  | [] => 0
  | packet :: rest => packet.blocks + packetBlocks rest

/-- The packet derives from the packet that its clause names, under the clause's condition, or
without a clause from none. -/
def Packet.LinkedAs (schema : Schema) (packet : Packet) (record : PacketSchema.Packet) : Prop :=
  match packet.inheritance with
  | none => record.parent = none ∧ record.condition = none
  | some clause => ∃ id parent, record.parent = some id ∧ schema.packet? id = some parent ∧
      parent.ident = clause.parent.item ∧
      record.condition.map Condition.formula = selectionFormula clause.condition

/-- The packet is built as the record; `next` is the number of its scope. -/
structure Packet.BuiltAs (schema : Schema) (next : Nat) (packet : Packet)
    (record : PacketSchema.Packet) : Prop where
  ident : record.ident = packet.ident.item
  linked : packet.LinkedAs schema record
  scope : record.scope = ⟨next⟩
  body : ∃ fields, schema.forest.scope? ⟨next⟩ =
      some ⟨(record.parent.bind schema.packet?).map PacketSchema.Packet.scope, fields⟩ ∧
    blockBuiltAs schema.forest ⟨next⟩ (next + 1) packet.body fields

def packetsBuiltAs (schema : Schema) (next : Nat) :
    List Packet → List PacketSchema.Packet → Prop
  | [], [] => True
  | packet :: rest, record :: others =>
      packet.BuiltAs schema next record ∧ packetsBuiltAs schema (next + packet.blocks) rest others
  | _, _ => False

structure Module.BuiltAs (tree : Module) (schema : Schema) : Prop where
  packets : packetsBuiltAs schema 0 tree.packets schema.packets
  distinct : (schema.packets.map PacketSchema.Packet.ident).Nodup
  size : schema.forest.size = packetBlocks tree.packets

section Shapes

variable {forest : ScopeForest} {scope : ScopeId} {next : Nat} {location : Location}
  {ident : Token}

theorem always_built_iff {descriptor : Descriptor} {field : Field} :
    (Statement.always location ident descriptor).BuiltAs forest scope next field ↔
      ∃ encoding, field = .always ident.item encoding ∧ encoding.layout = descriptor.layout := by
  cases field with
  | always name encoding =>
      rw [Statement.BuiltAs]
      constructor
      · intro built
        exact ⟨encoding, by rw [built.1], built.2⟩
      · intro shape
        rcases shape with ⟨_, same, layout⟩
        cases same
        exact ⟨rfl, layout⟩
  | optional | union => simp only [Statement.BuiltAs, reduceCtorEq, false_and, exists_false]

theorem optional_built_iff {condition : Disjunction} {body : List Statement} {field : Field} :
    (Statement.optional location ident condition body).BuiltAs forest scope next field ↔
      ∃ resolved fields, field = .optional ident.item resolved ⟨next⟩ ∧
        resolved.formula = condition.formula ∧
        forest.scope? ⟨next⟩ = some ⟨some scope, fields⟩ ∧
        blockBuiltAs forest ⟨next⟩ (next + 1) body fields := by
  cases field with
  | optional name resolved child =>
      rw [Statement.BuiltAs]
      constructor
      · intro built
        rcases built with ⟨named, reads, numbered, fields, found, inside⟩
        exact ⟨resolved, fields, by rw [named, numbered], reads, found, inside⟩
      · intro shape
        rcases shape with ⟨_, fields, same, reads, found, inside⟩
        cases same
        exact ⟨rfl, reads, rfl, fields, found, inside⟩
  | always | union => simp only [Statement.BuiltAs, reduceCtorEq, false_and, exists_false]

theorem union_built_iff {arms : List Arm} {field : Field} :
    (Statement.union location ident arms).BuiltAs forest scope next field ↔
      ∃ presents, field = .union ⟨ident.item, presents⟩ ∧
        armsBuiltAs forest scope next arms presents := by
  cases field with
  | union choice =>
      rw [Statement.BuiltAs]
      constructor
      · intro built
        exact ⟨choice.arms, by rw [← built.1], built.2⟩
      · intro shape
        rcases shape with ⟨presents, same, inside⟩
        cases same
        exact ⟨rfl, inside⟩
  | always | optional => simp only [Statement.BuiltAs, reduceCtorEq, false_and, exists_false]

theorem block_built_nil_iff {fields : List Field} :
    blockBuiltAs forest scope next [] fields ↔ fields = [] := by
  cases fields with
  | nil => simp only [blockBuiltAs]
  | cons => simp only [blockBuiltAs, reduceCtorEq]

theorem block_built_cons_iff {statement : Statement} {rest : List Statement}
    {fields : List Field} :
    blockBuiltAs forest scope next (statement :: rest) fields ↔
      ∃ field others, fields = field :: others ∧ statement.BuiltAs forest scope next field ∧
        blockBuiltAs forest scope (next + statement.blocks) rest others := by
  cases fields with
  | nil => simp only [blockBuiltAs, reduceCtorEq, false_and, exists_false]
  | cons field others =>
      rw [blockBuiltAs]
      constructor
      · intro built
        exact ⟨field, others, rfl, built⟩
      · intro shape
        rcases shape with ⟨_, _, same, built⟩
        cases same
        exact built

theorem arms_built_nil_iff {presents : List PacketSchema.Arm} :
    armsBuiltAs forest scope next [] presents ↔ presents = [] := by
  cases presents with
  | nil => simp only [armsBuiltAs]
  | cons => simp only [armsBuiltAs, reduceCtorEq]

theorem arms_built_cons_iff {arm : Arm} {rest : List Arm} {presents : List PacketSchema.Arm} :
    armsBuiltAs forest scope next (arm :: rest) presents ↔
      ∃ present others, presents = present :: others ∧ arm.BuiltAs forest scope next present ∧
        armsBuiltAs forest scope (next + arm.blocks) rest others := by
  cases presents with
  | nil => simp only [armsBuiltAs, reduceCtorEq, false_and, exists_false]
  | cons present others =>
      rw [armsBuiltAs]
      constructor
      · intro built
        exact ⟨present, others, rfl, built⟩
      · intro shape
        rcases shape with ⟨_, _, same, built⟩
        cases same
        exact built

variable {schema : Schema}

theorem packets_built_nil_iff {records : List PacketSchema.Packet} :
    packetsBuiltAs schema next [] records ↔ records = [] := by
  cases records with
  | nil => simp only [packetsBuiltAs]
  | cons => simp only [packetsBuiltAs, reduceCtorEq]

theorem packets_built_cons_iff {packet : Packet} {rest : List Packet}
    {records : List PacketSchema.Packet} :
    packetsBuiltAs schema next (packet :: rest) records ↔
      ∃ record others, records = record :: others ∧ packet.BuiltAs schema next record ∧
        packetsBuiltAs schema (next + packet.blocks) rest others := by
  cases records with
  | nil => simp only [packetsBuiltAs, reduceCtorEq, false_and, exists_false]
  | cons record others =>
      rw [packetsBuiltAs]
      constructor
      · intro built
        exact ⟨record, others, rfl, built⟩
      · intro shape
        rcases shape with ⟨_, _, same, built⟩
        cases same
        exact built

end Shapes

variable {forest grown : ScopeForest}

mutual

/-- The image of a statement is about the scopes of its blocks and no other scope. -/
theorem Statement.built_as_kept : ∀ (statement : Statement) {scope : ScopeId} {next : Nat}
    {field : Field}, (∀ id, next ≤ id → id < next + statement.blocks →
      grown.scope? ⟨id⟩ = forest.scope? ⟨id⟩) →
      statement.BuiltAs forest scope next field → statement.BuiltAs grown scope next field
  | .always _ _ _, _, _, _, _, built => always_built_iff.mpr (always_built_iff.mp built)
  | .optional _ _ _ body, _, next, _, agree, built => by
      obtain ⟨resolved, fields, shape, reads, found, inside⟩ := optional_built_iff.mp built
      rw [Statement.blocks] at agree
      have same := agree next (Nat.le_refl _) (by omega)
      apply optional_built_iff.mpr
      refine ⟨resolved, fields, shape, reads, same.trans found, ?_⟩
      apply block_built_as_kept body _ inside
      intro id low high
      exact agree id (by omega) (by omega)
  | .union _ _ arms, _, _, _, agree, built => by
      obtain ⟨presents, shape, inside⟩ := union_built_iff.mp built
      rw [Statement.blocks] at agree
      exact union_built_iff.mpr ⟨presents, shape, arms_built_as_kept arms agree inside⟩

theorem Arm.built_as_kept : ∀ (arm : Arm) {scope : ScopeId} {next : Nat}
    {present : PacketSchema.Arm}, (∀ id, next ≤ id → id < next + arm.blocks →
      grown.scope? ⟨id⟩ = forest.scope? ⟨id⟩) →
      arm.BuiltAs forest scope next present → arm.BuiltAs grown scope next present
  | .mk _ _ _ body, _, next, _, agree, built => by
      rw [Arm.blocks] at agree
      rw [Arm.BuiltAs] at built ⊢
      rcases built with ⟨means, numbered, fields, found, inside⟩
      have same := agree next (Nat.le_refl _) (by omega)
      refine ⟨means, numbered, fields, same.trans found, ?_⟩
      apply block_built_as_kept body _ inside
      intro id low high
      exact agree id (by omega) (by omega)

theorem block_built_as_kept : ∀ (statements : List Statement) {scope : ScopeId} {next : Nat}
    {fields : List Field}, (∀ id, next ≤ id → id < next + blockBlocks statements →
      grown.scope? ⟨id⟩ = forest.scope? ⟨id⟩) →
      blockBuiltAs forest scope next statements fields →
        blockBuiltAs grown scope next statements fields
  | [], _, _, _, _, built => block_built_nil_iff.mpr (block_built_nil_iff.mp built)
  | statement :: rest, _, _, _, agree, built => by
      obtain ⟨field, others, shape, here, later⟩ := block_built_cons_iff.mp built
      rw [blockBlocks] at agree
      refine block_built_cons_iff.mpr ⟨field, others, shape, ?_, ?_⟩
      · apply statement.built_as_kept _ here
        intro id low high
        exact agree id low (by omega)
      · apply block_built_as_kept rest _ later
        intro id low high
        exact agree id (by omega) (by omega)

theorem arms_built_as_kept : ∀ (arms : List Arm) {scope : ScopeId} {next : Nat}
    {presents : List PacketSchema.Arm}, (∀ id, next ≤ id → id < next + armBlocks arms →
      grown.scope? ⟨id⟩ = forest.scope? ⟨id⟩) →
      armsBuiltAs forest scope next arms presents → armsBuiltAs grown scope next arms presents
  | [], _, _, _, _, built => arms_built_nil_iff.mpr (arms_built_nil_iff.mp built)
  | arm :: rest, _, _, _, agree, built => by
      obtain ⟨present, others, shape, here, later⟩ := arms_built_cons_iff.mp built
      rw [armBlocks] at agree
      refine arms_built_cons_iff.mpr ⟨present, others, shape, ?_, ?_⟩
      · apply arm.built_as_kept _ here
        intro id low high
        exact agree id low (by omega)
      · apply arms_built_as_kept rest _ later
        intro id low high
        exact agree id (by omega) (by omega)

end

end PacketSchema.Tree
