import Mathlib.Logic.Relation
import PacketSchema.Proofs.Formula
import PacketSchema.Proofs.Walk.Mutation

/-!
# The steps by which a schema grows

Everything that a walk does to a schema is one of six steps, and a step is only taken under what
the walk has made sure of by then. The guards are part of the step, so that what holds of every
schema that a walk builds is proved by cases on the step and not on the walk. Faults are no
steps: a refused declaration or a refused packet leaves the schema as it is.
-/

namespace PacketSchema

def Field.blocks : Field → List ScopeId
  | .always _ _ => []
  | .optional _ _ scope => [scope]
  | .union choice => choice.arms.map Arm.scope

namespace Schema

open ScopeForest (Grounds)

def Registered (schema : Schema) (id : PacketId) : Prop := id.index < schema.packets.length

/-- A packet that is about to be registered has the scope, the parent and the condition of a
derivation: its scope is below its parent's, and its condition is about the parent's fields. -/
def Derives (schema : Schema) (packet : Packet) : Prop :=
  match packet.parent with
  | none => packet.condition = none ∧ schema.forest.parent? packet.scope = none
  | some id => ∃ parent, schema.packet? id = some parent ∧
      schema.forest.parent? packet.scope = some parent.scope ∧
      schema.forest.Grounds parent.scope (selectionReferences packet.condition)

inductive Step : Schema → Schema → Prop
  | openBlock {schema : Schema} {scope : ScopeId} (issued : schema.forest.Issued scope) :
      Step schema (schema.createScope (some scope)).2
  | openPacket {schema : Schema} {parent : Option PacketId}
      (known : ∀ id ∈ parent, ∃ packet, schema.packet? id = some packet) :
      Step schema (schema.createPacketScope parent).2
  | declare {schema grown : Schema} {scope : ScopeId} {field : Field}
      (accepted : schema.appendField scope field = .ok grown)
      (grounded : schema.forest.Grounds scope field.references)
      (inside : ∀ block ∈ field.blocks, schema.forest.parent? block = some scope) :
      Step schema grown
  | addArm {schema grown : Schema} {scope : ScopeId} {ident : String} {arm : Arm}
      (accepted : schema.appendArm scope ident arm = .ok grown)
      (grounded : schema.forest.Grounds scope (selectionReferences arm.condition))
      (inside : schema.forest.parent? arm.scope = some scope) :
      Step schema grown
  | register {schema grown : Schema} {packet : Packet} {id : PacketId}
      (accepted : schema.appendPacket packet = .ok (id, grown))
      (issued : schema.forest.Issued packet.scope) (derives : schema.Derives packet)
      (childless : packet.children = []) :
      Step schema grown
  | link {schema grown : Schema} {id child : PacketId} {parent derived : Packet}
      {condition : Option Condition}
      (accepted : schema.appendChild id child condition = .ok grown)
      (parentFound : schema.packet? id = some parent)
      (childFound : schema.packet? child = some derived)
      (agrees : derived.parent = some id ∧ derived.condition = condition)
      (grounded : schema.forest.Grounds parent.scope (selectionReferences condition)) :
      Step schema grown

abbrev Reaches : Schema → Schema → Prop := Relation.ReflTransGen Step

/-- Scopes stand below scopes that were there before, and packets have scopes that are there. -/
structure Formed (schema : Schema) : Prop where
  ordered : schema.forest.Ordered
  issued : ∀ packet ∈ schema.packets, schema.forest.Issued packet.scope

theorem formed_empty : Formed .empty where
  ordered := by
    intro id parent linked
    simp [ScopeForest.parent?, ScopeForest.scope?, Schema.empty, ScopeForest.empty] at linked
  issued := by simp [Schema.empty]

variable {schema before after grown : Schema} {id child : PacketId} {packet : Packet}
  {scope : ScopeId} {field : Field}

/-- The four things that a step may do to the forest. -/
theorem Step.forest_cases (step : Step before after) (formed : Formed before) :
    (∃ parent, (∀ above ∈ parent, before.forest.Issued above) ∧
        after.forest = (before.forest.create parent).2) ∨
      (∃ scope field, before.forest.append scope field = .ok after.forest) ∨
      (∃ scope ident arm, before.forest.appendArm scope ident arm = .ok after.forest) ∨
      after.forest = before.forest := by
  cases step with
  | openBlock issued => exact .inl ⟨_, by simpa using issued, rfl⟩
  | @openPacket parent known =>
      refine .inl ⟨_, ?_, rfl⟩
      intro above member
      obtain ⟨packet, found, rfl⟩ := Option.map_eq_some_iff.mp member
      obtain ⟨id, _, located⟩ := Option.bind_eq_some_iff.mp found
      exact formed.issued packet (mem_of_packet located)
  | declare accepted => exact .inr (.inl ⟨_, _, (append_field_eq_ok accepted).1⟩)
  | addArm accepted => exact .inr (.inr (.inl ⟨_, _, _, (append_arm_eq_ok accepted).1⟩))
  | register accepted =>
      obtain ⟨_, _, rfl⟩ := append_packet_eq_ok accepted
      exact .inr (.inr (.inr rfl))
  | link accepted =>
      obtain ⟨_, _, _, rfl⟩ := append_child_eq_ok accepted
      exact .inr (.inr (.inr rfl))

theorem Step.ordered (step : Step before after) (formed : Formed before) :
    after.forest.Ordered := by
  rcases step.forest_cases formed with ⟨parent, issued, same⟩ | ⟨scope, field, appended⟩ |
    ⟨scope, ident, arm, appended⟩ | same
  · rw [same]
    exact formed.ordered.create issued
  · rw [(ScopeForest.append_eq_ok appended).2]
    exact formed.ordered.update_fields _ _
  · obtain ⟨_, _, _, _, same⟩ := ScopeForest.append_arm_eq_ok appended
    rw [same]
    exact formed.ordered.update_fields _ _
  · rw [same]
    exact formed.ordered

/-- A resolved reference stays resolved. -/
theorem Step.resolve_kept (step : Step before after) (formed : Formed before) {ident : String}
    {reference : FieldRef} (resolved : before.forest.resolve scope ident = .ok reference) :
    after.forest.resolve scope ident = .ok reference := by
  rcases step.forest_cases formed with ⟨parent, issued, same⟩ | ⟨_, field, appended⟩ |
    ⟨_, name, arm, appended⟩ | same
  · rw [same]
    exact formed.ordered.resolve_create issued resolved
  · exact formed.ordered.resolve_append appended resolved
  · exact formed.ordered.resolve_append_arm appended resolved
  · rw [same, resolved]

theorem Step.grounds_kept (step : Step before after) (formed : Formed before)
    {references : List FieldRef} (grounded : before.forest.Grounds scope references) :
    after.forest.Grounds scope references :=
  fun reference member => step.resolve_kept formed (grounded reference member)

/-- A scope keeps its number and its parent. -/
theorem Step.parent_kept (step : Step before after) (formed : Formed before)
    (issued : before.forest.Issued scope) :
    after.forest.Issued scope ∧ after.forest.parent? scope = before.forest.parent? scope := by
  rcases step.forest_cases formed with ⟨parent, _, same⟩ | ⟨_, field, appended⟩ |
    ⟨_, name, arm, appended⟩ | same
  · rw [same]
    refine ⟨ScopeForest.issued_create issued parent, ?_⟩
    rw [ScopeForest.parent?, ScopeForest.scope_create_old issued, ← ScopeForest.parent?]
  · rw [(ScopeForest.append_eq_ok appended).2]
    exact ⟨by rwa [ScopeForest.Issued, ScopeForest.size_update_fields],
      ScopeForest.parent_update_fields _ _ _ _⟩
  · obtain ⟨_, _, _, _, same⟩ := ScopeForest.append_arm_eq_ok appended
    rw [same]
    exact ⟨by rwa [ScopeForest.Issued, ScopeForest.size_update_fields],
      ScopeForest.parent_update_fields _ _ _ _⟩
  · rw [same]
    exact ⟨issued, rfl⟩

/-- A packet keeps its number and all but its edges. -/
theorem Step.packet_kept (step : Step before after) (found : before.packet? id = some packet) :
    ∃ children, after.packet? id = some { packet with children } := by
  cases step with
  | openBlock | openPacket => exact ⟨packet.children, found⟩
  | declare accepted =>
      exact ⟨packet.children, by rwa [packet?, (append_field_eq_ok accepted).2]⟩
  | addArm accepted =>
      exact ⟨packet.children, by rwa [packet?, (append_arm_eq_ok accepted).2]⟩
  | register accepted =>
      obtain ⟨_, _, rfl⟩ := append_packet_eq_ok accepted
      refine ⟨packet.children, ?_⟩
      obtain ⟨bound, _⟩ := List.getElem?_eq_some_iff.mp found
      rwa [packet?, List.getElem?_append_left bound]
  | @link grown other _ _ _ _ accepted =>
      obtain ⟨parent, parentFound, _, rfl⟩ := append_child_eq_ok accepted
      rw [packet?] at found parentFound
      rw [packet?, List.getElem?_set]
      by_cases same : other.index = id.index
      · rw [same, found] at parentFound
        cases parentFound
        obtain ⟨bound, _⟩ := List.getElem?_eq_some_iff.mp found
        rw [same, if_pos rfl, if_pos bound]
        exact ⟨_, rfl⟩
      · rw [if_neg same]
        exact ⟨packet.children, found⟩

theorem registered_of_packet {id : PacketId} (found : schema.packet? id = some packet) :
    schema.Registered id :=
  (List.getElem?_eq_some_iff.mp found).1

/-- What a step does to the list of packets: nothing, one more packet, or one more edge. -/
theorem Step.packets_cases (step : Step before after) :
    after.packets = before.packets ∨
      (∃ record, after.packets = before.packets ++ [record] ∧ before.Derives record ∧
        record.children = []) ∨
      ∃ id parent child condition, before.packet? id = some parent ∧ before.Registered child ∧
        after.packets = before.packets.set id.index
          { parent with children := parent.children ++ [⟨child, condition⟩] } := by
  cases step with
  | openBlock | openPacket => exact .inl rfl
  | declare accepted => exact .inl (append_field_eq_ok accepted).2
  | addArm accepted => exact .inl (append_arm_eq_ok accepted).2
  | @register grown record _ accepted _ derives childless =>
      obtain ⟨_, _, rfl⟩ := append_packet_eq_ok accepted
      exact .inr (.inl ⟨record, rfl, derives, childless⟩)
  | @link grown id child _ _ condition accepted _ childFound =>
      obtain ⟨parent, found, _, rfl⟩ := append_child_eq_ok accepted
      exact .inr (.inr ⟨id, parent, child, condition, found, registered_of_packet childFound, rfl⟩)

/-- Every packet was there before, up to its edges, or is the one that is registered. -/
theorem Step.packet_origin (step : Step before after) (member : packet ∈ after.packets) :
    (∃ children, { packet with children } ∈ before.packets) ∨
      before.forest.Issued packet.scope ∧ after.forest = before.forest ∧
        before.Derives packet ∧ packet.children = [] := by
  cases step with
  | openBlock | openPacket => exact .inl ⟨packet.children, member⟩
  | declare accepted =>
      exact .inl ⟨packet.children, by rwa [(append_field_eq_ok accepted).2] at member⟩
  | addArm accepted =>
      exact .inl ⟨packet.children, by rwa [(append_arm_eq_ok accepted).2] at member⟩
  | register accepted issued derives childless =>
      obtain ⟨_, _, rfl⟩ := append_packet_eq_ok accepted
      rcases List.mem_append.mp member with old | fresh
      · exact .inl ⟨packet.children, old⟩
      · cases List.mem_singleton.mp fresh
        exact .inr ⟨issued, rfl, derives, childless⟩
  | link accepted =>
      obtain ⟨parent, parentFound, _, rfl⟩ := append_child_eq_ok accepted
      rcases List.mem_or_eq_of_mem_set member with old | rfl
      · exact .inl ⟨packet.children, old⟩
      · exact .inl ⟨parent.children, mem_of_packet parentFound⟩

/-- Every field of a scope was there before, is the one that is declared, or is the union that
takes an arm. -/
theorem Step.field_origin (step : Step before after) {present : Scope}
    (found : after.forest.scope? scope = some present) (member : field ∈ present.fields) :
    (∃ old, before.forest.scope? scope = some old ∧ field ∈ old.fields) ∨
      (before.forest.Grounds scope field.references ∧
        ∀ block ∈ field.blocks, before.forest.parent? block = some scope) ∨
      ∃ choice arm old, before.forest.scope? scope = some old ∧ .union choice ∈ old.fields ∧
        field = .union ⟨choice.ident, choice.arms ++ [arm]⟩ ∧
        before.forest.Grounds scope (selectionReferences arm.condition) ∧
        before.forest.parent? arm.scope = some scope := by
  have created : ∀ parent, (before.forest.create parent).2.scope? scope = some present →
      ∃ old, before.forest.scope? scope = some old ∧ field ∈ old.fields := by
    intro parent located
    by_cases old : before.forest.Issued scope
    · rw [ScopeForest.scope_create_old old] at located
      exact ⟨present, located, member⟩
    · have fresh := ScopeForest.eq_new_of_issued_create old (ScopeForest.issued_of_scope located)
      rw [fresh, ScopeForest.scope_create_new] at located
      cases located
      cases member
  cases step with
  | openBlock | openPacket => exact .inl (created _ found)
  | declare accepted grounded inside =>
      rw [(ScopeForest.append_eq_ok (append_field_eq_ok accepted).1).2,
        ScopeForest.scope_update_fields] at found
      obtain ⟨old, located, rfl⟩ := Option.map_eq_some_iff.mp found
      split at member
      next here =>
        subst here
        rcases List.mem_append.mp member with earlier | last
        · exact .inl ⟨old, located, earlier⟩
        · cases List.mem_singleton.mp last
          exact .inr (.inl ⟨grounded, inside⟩)
      · exact .inl ⟨old, located, member⟩
  | @addArm _ opened ident arm accepted grounded inside =>
      obtain ⟨choice, _, declared, _, same⟩ :=
        ScopeForest.append_arm_eq_ok (append_arm_eq_ok accepted).1
      rw [same, ScopeForest.scope_update_fields] at found
      obtain ⟨old, located, rfl⟩ := Option.map_eq_some_iff.mp found
      split at member
      next here =>
        subst here
        obtain ⟨earlier, listed, rfl⟩ := List.mem_map.mp member
        unfold ScopeForest.exchange
        split
        · rw [ScopeForest.field_of_scope located] at declared
          exact .inr (.inr ⟨choice, arm, old, located, List.mem_of_find?_eq_some declared, rfl,
            grounded, inside⟩)
        · exact .inl ⟨old, located, listed⟩
      · exact .inl ⟨old, located, member⟩
  | register accepted =>
      obtain ⟨_, _, rfl⟩ := append_packet_eq_ok accepted
      exact .inl ⟨present, found, member⟩
  | link accepted =>
      obtain ⟨_, _, _, rfl⟩ := append_child_eq_ok accepted
      exact .inl ⟨present, found, member⟩

theorem Step.formed (step : Step before after) (formed : Formed before) : Formed after where
  ordered := step.ordered formed
  issued := by
    intro packet member
    rcases step.packet_origin member with ⟨children, old⟩ | ⟨issued, same, _⟩
    · exact (step.parent_kept formed (formed.issued _ old)).1
    · rwa [same]

namespace Reaches

theorem formed (reaches : Reaches before after) (formed : Formed before) : Formed after := by
  induction reaches with
  | refl => exact formed
  | tail _ step inner => exact step.formed inner

theorem grounds_kept (reaches : Reaches before after) (formed : Formed before)
    {references : List FieldRef} (grounded : before.forest.Grounds scope references) :
    after.forest.Grounds scope references := by
  induction reaches with
  | refl => exact grounded
  | tail earlier step inner => exact step.grounds_kept (Reaches.formed earlier formed) inner

theorem parent_kept (reaches : Reaches before after) (formed : Formed before)
    (issued : before.forest.Issued scope) :
    after.forest.Issued scope ∧ after.forest.parent? scope = before.forest.parent? scope := by
  induction reaches with
  | refl => exact ⟨issued, rfl⟩
  | tail earlier step inner =>
      obtain ⟨kept, same⟩ := step.parent_kept (Reaches.formed earlier formed) inner.1
      exact ⟨kept, same.trans inner.2⟩

theorem packet_kept (reaches : Reaches before after) (found : before.packet? id = some packet) :
    ∃ children, after.packet? id = some { packet with children } := by
  induction reaches with
  | refl => exact ⟨packet.children, found⟩
  | tail _ step inner =>
      obtain ⟨children, kept⟩ := inner
      obtain ⟨next, found⟩ := step.packet_kept kept
      exact ⟨next, found⟩

end Reaches

end Schema

end PacketSchema
