import PacketSchema.Proofs.ReferenceIntegrity

/-!
# Stored numbers

Every number of a scope or of a packet that a built schema stores was issued. Links to parents go
down: a parent has a smaller number than what is below it. Links to blocks go up: the scope of a
block has a larger number than the scope that declares its field. Nothing that is refused on the
way can break this, because a refusal is no step.
-/

namespace PacketSchema.Schema

structure WellNumbered (schema : Schema) : Prop where
  parents : ∀ id parent, schema.forest.parent? id = some parent → parent.index < id.index
  blocks : ∀ id scope, schema.forest.scope? id = some scope → ∀ field ∈ scope.fields,
    ∀ block ∈ field.blocks, id.index < block.index ∧ schema.forest.Issued block
  owners : ∀ id scope, schema.forest.scope? id = some scope → ∀ field ∈ scope.fields,
    ∀ reference ∈ field.references, schema.forest.Issued reference.scope
  packetScopes : ∀ packet ∈ schema.packets, schema.forest.Issued packet.scope
  packetParents : ∀ id packet, schema.packet? id = some packet →
    ∀ parent ∈ packet.parent, parent.index < id.index
  packetOwners : ∀ packet ∈ schema.packets, ∀ reference ∈ selectionReferences packet.condition,
    schema.forest.Issued reference.scope
  children : ∀ packet ∈ schema.packets, ∀ child ∈ packet.children,
    schema.Registered child.packet
  childOwners : ∀ packet ∈ schema.packets, ∀ child ∈ packet.children,
    ∀ reference ∈ selectionReferences child.condition, schema.forest.Issued reference.scope

/-- What the steps keep of this beside `Formed` and `Grounded`: the scope of a block is right
below the scope of its field, packets derive from earlier ones, and edges lead to packets that
are there. -/
structure Numbered (schema : Schema) : Prop where
  blocks : ∀ id scope, schema.forest.scope? id = some scope → ∀ field ∈ scope.fields,
    ∀ block ∈ field.blocks, schema.forest.parent? block = some id
  parents : ∀ id packet, schema.packet? id = some packet →
    ∀ parent ∈ packet.parent, parent.index < id.index
  children : ∀ packet ∈ schema.packets, ∀ child ∈ packet.children,
    schema.Registered child.packet

theorem numbered_empty : Numbered .empty where
  blocks := by
    intro id scope found
    cases found
  parents := by
    intro id packet found
    cases found
  children := by
    intro packet member
    cases member

variable {schema before after : Schema} {packet : Packet}

/-- The blocks of the fields after a step stood below their scope already before it. -/
theorem Step.blocks_below (step : Step before after) (numbered : before.Numbered) {id : ScopeId}
    {scope : Scope} (found : after.forest.scope? id = some scope) {field : Field}
    (member : field ∈ scope.fields) :
    ∀ block ∈ field.blocks, before.forest.parent? block = some id := by
  rcases step.field_origin found member with ⟨old, present, inside⟩ | ⟨_, below⟩ |
    ⟨choice, arm, old, present, inside, rfl, _, below⟩
  · exact numbered.blocks id old present field inside
  · exact below
  · intro block listed
    rw [Field.blocks, List.map_append] at listed
    rcases List.mem_append.mp listed with earlier | last
    · exact numbered.blocks id old present _ inside block earlier
    · cases List.mem_singleton.mp last
      exact below

theorem Step.registered_kept (step : Step before after) {id : PacketId}
    (registered : before.Registered id) : after.Registered id := by
  rw [Registered] at registered ⊢
  rcases step.packets_cases with same | ⟨record, same, _⟩ | ⟨_, parent, _, _, _, _, same⟩
  · rwa [same]
  · rw [same, List.length_append]
    exact Nat.lt_add_right _ registered
  · rwa [same, List.length_set]

theorem Step.parents_earlier (step : Step before after) (numbered : before.Numbered)
    {id : PacketId} (found : after.packet? id = some packet) :
    ∀ parent ∈ packet.parent, parent.index < id.index := by
  rw [packet?] at found
  rcases step.packets_cases with same | ⟨record, same, derives, _⟩ |
    ⟨changed, parent, _, _, present, _, same⟩
  · rw [same] at found
    exact numbered.parents id packet found
  · rw [same] at found
    rcases Nat.lt_or_ge id.index before.packets.length with old | new
    · rw [List.getElem?_append_left old] at found
      exact numbered.parents id packet found
    · rw [List.getElem?_append_right new] at found
      cases List.mem_singleton.mp (List.mem_of_getElem? found)
      intro parent linked
      unfold Derives at derives
      rw [Option.mem_def.mp linked] at derives
      obtain ⟨_, known, _⟩ := derives
      exact Nat.lt_of_lt_of_le (registered_of_packet known) new
  · rw [same, List.getElem?_set] at found
    split at found
    next here =>
      split at found
      · cases found
        have kept := numbered.parents changed parent present
        rwa [here] at kept
      · cases found
    · exact numbered.parents id packet found

theorem Step.children_registered (step : Step before after) (numbered : before.Numbered)
    (member : packet ∈ after.packets) :
    ∀ child ∈ packet.children, before.Registered child.packet := by
  rcases step.packets_cases with same | ⟨record, same, _, childless⟩ |
    ⟨_, parent, added, condition, present, registered, same⟩
  · rw [same] at member
    exact numbered.children packet member
  · rw [same] at member
    rcases List.mem_append.mp member with old | last
    · exact numbered.children packet old
    · cases List.mem_singleton.mp last
      rw [childless]
      intro child edge
      cases edge
  · rw [same] at member
    rcases List.mem_or_eq_of_mem_set member with old | rfl
    · exact numbered.children packet old
    · intro child edge
      rcases List.mem_append.mp edge with earlier | last
      · exact numbered.children parent (mem_of_packet present) child earlier
      · cases List.mem_singleton.mp last
        exact registered

theorem Step.numbered (step : Step before after) (formed : Formed before)
    (numbered : before.Numbered) : after.Numbered where
  blocks id scope found field member block listed := by
    have below := step.blocks_below numbered found member block listed
    rw [(step.parent_kept formed (ScopeForest.issued_of_parent below)).2, below]
  parents _ _ found := step.parents_earlier numbered found
  children _ member child edge :=
    step.registered_kept (step.children_registered numbered member child edge)

theorem Reaches.numbered (reaches : Reaches before after) (formed : Formed before)
    (numbered : before.Numbered) : after.Numbered := by
  induction reaches with
  | refl => exact numbered
  | tail earlier step inner => exact step.numbered (Reaches.formed earlier formed) inner

end Schema

namespace ScopeForest

/-- The owner of a grounded reference declares it, so it was issued. -/
theorem Grounds.issued {forest : ScopeForest} {id : ScopeId} {references : List FieldRef}
    (grounded : forest.Grounds id references) :
    ∀ reference ∈ references, forest.Issued reference.scope := by
  intro reference member
  obtain ⟨_, _, encoding, _, _, declared⟩ := nearest_of_resolve (grounded reference member)
  obtain ⟨scope, found, _⟩ := Option.bind_eq_some_iff.mp declared
  exact issued_of_scope found

end ScopeForest

namespace Schema

theorem Numbered.well_numbered {schema : Schema} (numbered : schema.Numbered)
    (formed : schema.Formed) (grounded : schema.Grounded) : schema.WellNumbered where
  parents := formed.ordered
  blocks id scope found field member block listed := by
    have below := numbered.blocks id scope found field member block listed
    exact ⟨formed.ordered block id below, ScopeForest.issued_of_parent below⟩
  owners id scope found field member := (grounded.fields id scope found field member).issued
  packetScopes := formed.issued
  packetParents := numbered.parents
  packetOwners packet member := by
    cases written : packet.condition with
    | none =>
        intro reference listed
        cases listed
    | some condition =>
        obtain ⟨_, _, _, _, holds⟩ := grounded.packets packet member condition written
        exact holds.issued
  children := numbered.children
  childOwners packet member child edge := (grounded.edges packet member child edge).issued

end Schema

theorem compile_formed {failFast : Bool} {source : String} {compilation : Compilation}
    (compiled : compile failFast source = .ok compilation) : compilation.schema.Formed :=
  Schema.Reaches.formed (compile_reaches compiled) Schema.formed_empty

theorem compile_well_numbered {failFast : Bool} {source : String} {compilation : Compilation}
    (compiled : compile failFast source = .ok compilation) : compilation.schema.WellNumbered := by
  have numbered : compilation.schema.Numbered :=
    Schema.Reaches.numbered (compile_reaches compiled) Schema.formed_empty Schema.numbered_empty
  exact numbered.well_numbered (compile_formed compiled) (compile_grounded compiled)

end PacketSchema
