import PacketSchema.Proofs.Walk.Reach

/-!
# Reference integrity

Every reference that a built schema stores still resolves to itself in the finished forest: the
references of a field from the scope that declares it, those of a packet's condition and of its
edges from the scope of the parent packet. The forest keeps growing after a reference was
resolved, so this is an invariant of the steps: a step keeps what was grounded and brings in only
what is. Scopes of refused packets and of refused blocks are scopes like any other here.
-/

namespace PacketSchema

namespace ScopeForest

/-- A reference means the always field that its identifier names: it resolves to itself, its
owner is in the lineage and declares that field, and no nearer scope declares the name. -/
structure Refers (forest : ScopeForest) (id : ScopeId) (reference : FieldRef) : Prop where
  resolves : forest.resolve id reference.ident = .ok reference
  nearest : ∃ nearer farther encoding, forest.lineage id = nearer ++ reference.scope :: farther ∧
    (∀ closer ∈ nearer, forest.field? closer reference.ident = none) ∧
    forest.field? reference.scope reference.ident = some (.always reference.ident encoding)

theorem Grounds.refers {forest : ScopeForest} {id : ScopeId} {references : List FieldRef}
    (grounded : forest.Grounds id references) {reference : FieldRef}
    (member : reference ∈ references) : forest.Refers id reference where
  resolves := grounded reference member
  nearest := nearest_of_resolve (grounded reference member)

end ScopeForest

namespace Schema

/-- Every reference that is stored anywhere means the field that it names. -/
structure ReferencesHold (schema : Schema) : Prop where
  fields : ∀ id scope, schema.forest.scope? id = some scope →
    ∀ field ∈ scope.fields, ∀ reference ∈ field.references, schema.forest.Refers id reference
  packets : ∀ packet ∈ schema.packets, ∀ condition, packet.condition = some condition →
    ∃ id parent, packet.parent = some id ∧ schema.packet? id = some parent ∧
      ∀ reference ∈ condition.references, schema.forest.Refers parent.scope reference
  edges : ∀ packet ∈ schema.packets, ∀ child ∈ packet.children,
    ∀ reference ∈ selectionReferences child.condition,
      schema.forest.Refers packet.scope reference

/-- The invariant behind it, place by place. -/
structure Grounded (schema : Schema) : Prop where
  fields : ∀ id scope, schema.forest.scope? id = some scope →
    ∀ field ∈ scope.fields, schema.forest.Grounds id field.references
  packets : ∀ packet ∈ schema.packets, ∀ condition, packet.condition = some condition →
    ∃ id parent, packet.parent = some id ∧ schema.packet? id = some parent ∧
      schema.forest.Grounds parent.scope condition.references
  edges : ∀ packet ∈ schema.packets, ∀ child ∈ packet.children,
    schema.forest.Grounds packet.scope (selectionReferences child.condition)

theorem grounded_empty : Grounded .empty where
  fields := by
    intro id scope found
    simp [ScopeForest.scope?, Schema.empty, ScopeForest.empty] at found
  packets := by simp [Schema.empty]
  edges := by simp [Schema.empty]

theorem Grounded.references_hold {schema : Schema} (grounded : schema.Grounded) :
    schema.ReferencesHold where
  fields id scope found field member _ held :=
    (grounded.fields id scope found field member).refers held
  packets packet member condition written := by
    obtain ⟨id, parent, linked, found, held⟩ := grounded.packets packet member condition written
    exact ⟨id, parent, linked, found, fun _ inside => held.refers inside⟩
  edges packet member child edge _ held := (grounded.edges packet member child edge).refers held

variable {before after : Schema}

/-- The references of a union that takes an arm are those it had and those of the arm. -/
theorem union_extended_references (choice : Union) (arm : Arm) :
    (Field.union ⟨choice.ident, choice.arms ++ [arm]⟩).references =
      (Field.union choice).references ++ selectionReferences arm.condition := by
  change (choice.arms ++ [arm]).flatMap _ = _
  rw [List.flatMap_append, List.flatMap_singleton]
  rfl

/-- The fields after a step hold only references that were grounded before it. -/
theorem Step.fields_were_grounded (step : Step before after) (grounded : before.Grounded)
    {id : ScopeId} {scope : Scope} {field : Field} (found : after.forest.scope? id = some scope)
    (member : field ∈ scope.fields) : before.forest.Grounds id field.references := by
  rcases step.field_origin found member with ⟨old, located, earlier⟩ | ⟨held, -⟩ |
    ⟨choice, arm, old, located, declared, rfl, held, -⟩
  · exact grounded.fields id old located field earlier
  · exact held
  · rw [union_extended_references]
    exact ScopeForest.grounds_append.mpr ⟨grounded.fields id old located _ declared, held⟩

theorem Step.packets_grounded (step : Step before after) (formed : Formed before)
    (grounded : before.Grounded) {packet : Packet} (member : packet ∈ after.packets)
    {condition : Condition} (written : packet.condition = some condition) :
    ∃ id parent, packet.parent = some id ∧ after.packet? id = some parent ∧
      after.forest.Grounds parent.scope condition.references := by
  rcases step.packet_origin member with ⟨children, old⟩ | ⟨_, _, derives, _⟩
  · obtain ⟨id, parent, linked, found, holds⟩ := grounded.packets _ old condition written
    obtain ⟨edges, kept⟩ := step.packet_kept found
    exact ⟨id, _, linked, kept, step.grounds_kept formed holds⟩
  · unfold Derives at derives
    split at derives
    next => simp [derives.1] at written
    next id linked =>
      obtain ⟨parent, found, _, holds⟩ := derives
      obtain ⟨edges, kept⟩ := step.packet_kept found
      rw [written] at holds
      exact ⟨id, _, linked, kept, step.grounds_kept formed holds⟩

/-- The edges after a step hold only references that were grounded before it. -/
theorem Step.edges_were_grounded (step : Step before after) (grounded : before.Grounded)
    {packet : Packet} (member : packet ∈ after.packets) {child : Child}
    (edge : child ∈ packet.children) :
    before.forest.Grounds packet.scope (selectionReferences child.condition) := by
  cases step with
  | openBlock | openPacket => exact grounded.edges packet member child edge
  | declare accepted =>
      rw [(append_field_eq_ok accepted).2] at member
      exact grounded.edges packet member child edge
  | addArm accepted =>
      rw [(append_arm_eq_ok accepted).2] at member
      exact grounded.edges packet member child edge
  | register accepted _ _ childless =>
      obtain ⟨_, _, rfl⟩ := append_packet_eq_ok accepted
      rcases List.mem_append.mp member with old | fresh
      · exact grounded.edges packet old child edge
      · cases List.mem_singleton.mp fresh
        simp [childless] at edge
  | link accepted parentFound _ _ holds =>
      obtain ⟨parent, located, _, rfl⟩ := append_child_eq_ok accepted
      rw [parentFound] at located
      cases located
      rcases List.mem_or_eq_of_mem_set member with old | rfl
      · exact grounded.edges packet old child edge
      · rcases List.mem_append.mp edge with earlier | fresh
        · exact grounded.edges _ (mem_of_packet parentFound) child earlier
        · cases List.mem_singleton.mp fresh
          exact holds

theorem Step.grounded (step : Step before after) (formed : Formed before)
    (grounded : before.Grounded) : after.Grounded where
  fields _ _ found _ member :=
    step.grounds_kept formed (step.fields_were_grounded grounded found member)
  packets _ member _ written := step.packets_grounded formed grounded member written
  edges _ member _ edge := step.grounds_kept formed (step.edges_were_grounded grounded member edge)

theorem Reaches.grounded (reaches : Reaches before after) (formed : Formed before)
    (grounded : before.Grounded) : after.Grounded := by
  induction reaches with
  | refl => exact grounded
  | tail earlier step inner => exact step.grounded (Reaches.formed earlier formed) inner

end Schema

theorem compile_grounded {failFast : Bool} {source : String} {compilation : Compilation}
    (compiled : compile failFast source = .ok compilation) : compilation.schema.Grounded :=
  Schema.Reaches.grounded (compile_reaches compiled) Schema.formed_empty Schema.grounded_empty

/-- Whatever is compiled, fast or not and with whatever faults, each stored reference means the
field that it names. -/
theorem compile_references_hold {failFast : Bool} {source : String} {compilation : Compilation}
    (compiled : compile failFast source = .ok compilation) :
    compilation.schema.ReferencesHold :=
  (compile_grounded compiled).references_hold

/-- A field, a packet and a scalar's width are refused in this text, each in its own way. -/
def refusedText : String :=
  "A" ++ braced ("always n uint:1 bytes;optional o when(&n)" ++
    braced "always n uint:1 bits;always m uint:&n bits;always w uint:&o bits;") ++
  "A:A(&n==2)" ++ braced "always x uint:&n bits;" ++
  "B:A(&n==3)" ++ braced ""

theorem refused_text_parsed : ∃ tree, Grammar.parse refusedText = .ok tree := by
  have readable : (Grammar.parse refusedText).toOption.isSome = true := by decide +kernel
  cases parsed : Grammar.parse refusedText with
  | error error =>
      rw [parsed] at readable
      cases readable
  | ok tree => exact ⟨tree, rfl⟩

theorem refused_references_hold :
    ∃ compilation, compile false refusedText = .ok compilation ∧
      compilation.diagnostics.length = 3 ∧ compilation.schema.forest.size = 4 ∧
      compilation.schema.ReferencesHold := by
  have passed : (compile false refusedText).toOption.any (fun compilation =>
      compilation.diagnostics.length = 3 ∧ compilation.schema.forest.size = 4) = true := by
    decide +kernel
  have found := exists_compiled passed
  rcases found with ⟨compilation, compiled, counted⟩
  have counts := of_decide_eq_true counted
  exact ⟨compilation, compiled, counts.1, counts.2, compile_references_hold compiled⟩

end PacketSchema
