import PacketSchema.Proofs.Layout.Naming

/-!
# One chain of packets and scopes

Packets are linked to their parents by packet numbers, and their scopes by scope numbers. The two
kinds of link are set at different times, and both walks up end by themselves. They are one chain:
a step from a packet to its parent is a step from the scope of the one to the scope of the other.
What a packet sees is therefore what it and its ancestors declare themselves, the nearest first.
-/

namespace PacketSchema

namespace Schema

variable {schema : Schema} {id : PacketId} {packet : Packet} {above : List PacketId}

def scopeOf (schema : Schema) (id : PacketId) : Option ScopeId :=
  (schema.packet? id).map Packet.scope

/-- The direct field of a packet under an identifier, and the scope that it is declared in. -/
def declared? (schema : Schema) (ident : String) (id : PacketId) : Option (ScopeId × Field) :=
  (schema.packet? id).bind fun packet =>
    (schema.forest.field? packet.scope ident).map fun field => (packet.scope, field)

theorem scope_of_packet (found : schema.packet? id = some packet) :
    schema.scopeOf id = some packet.scope := by
  rw [scopeOf, found, Option.map_some]

theorem declared_of_packet (found : schema.packet? id = some packet) (ident : String) :
    schema.declared? ident id =
      (schema.forest.field? packet.scope ident).map fun field => (packet.scope, field) := by
  rw [declared?, found, Option.bind_some]

theorem field_names_of_packet (found : schema.packet? id = some packet) :
    schema.fieldNames id = schema.forest.identsOf packet.scope := by
  rw [fieldNames, found, Option.map_some, Option.getD_some]

/-- A packet with an identifier among its direct fields has a field to find under it. -/
theorem declared_iff_named (ident : String) (id : PacketId) :
    (schema.declared? ident id).isSome ↔ ident ∈ schema.fieldNames id := by
  cases found : schema.packet? id with
  | none => simp [declared?, fieldNames, found]
  | some packet =>
      rw [declared_of_packet found, field_names_of_packet found, Option.isSome_map,
        ScopeForest.identsOf, ScopeForest.fieldsOf, ScopeForest.field?]
      cases schema.forest.scope? packet.scope with
      | none => simp
      | some scope => simp [Scope.find?, List.find?_isSome]

/-- The packets above a packet, link by link, with the scopes linked the same way. -/
inductive Chain (schema : Schema) : PacketId → Packet → List PacketId → Prop
  | root {id : PacketId} {packet : Packet} (found : schema.packet? id = some packet)
      (free : packet.parent = none) (top : schema.forest.parent? packet.scope = none) :
      Chain schema id packet []
  | derived {id parent : PacketId} {packet record : Packet} {above : List PacketId}
      (found : schema.packet? id = some packet) (written : packet.parent = some parent)
      (earlier : parent.index < id.index)
      (below : schema.forest.parent? packet.scope = some record.scope)
      (higher : Chain schema parent record above) : Chain schema id packet (parent :: above)

/-- The walk up from a packet goes along its chain. -/
theorem chain_of_ancestors (numbered : schema.Numbered)
    (derive : ∀ packet ∈ schema.packets, schema.Derives packet) (steps : Nat)
    (found : schema.packet? id = some packet)
    (answered : schema.ancestorsWithin steps id = .ok above) : schema.Chain id packet above := by
  induction steps generalizing id packet above with
  | zero => cases answered
  | succ steps further =>
      have derives := derive packet (mem_of_packet found)
      unfold Derives at derives
      rw [ancestorsWithin, found] at answered
      simp only at answered
      split at answered
      next free =>
        cases answered
        rw [free] at derives
        exact .root found free derives.2
      next parent written =>
        split at answered
        next => cases answered
        next rest deeper =>
          cases answered
          rw [written] at derives
          obtain ⟨record, known, below, _⟩ := derives
          exact .derived found written (numbered.parents id packet found parent written) below
            (further known deeper)

theorem Chain.lineage (chain : schema.Chain id packet above) (ordered : schema.forest.Ordered) :
    (schema.forest.lineage packet.scope).map some = (id :: above).map schema.scopeOf := by
  induction chain with
  | root found _ top =>
      rw [ordered.lineage_eq, top, List.map_singleton, scope_of_packet found]
      rfl
  | @derived id parent packet record above found _ _ below _ higher =>
      calc (schema.forest.lineage packet.scope).map some
          = some packet.scope :: (schema.forest.lineage record.scope).map some := by
            rw [ordered.lineage_eq, below]
            rfl
        _ = schema.scopeOf id :: (parent :: above).map schema.scopeOf := by
            rw [higher, scope_of_packet found]
        _ = (id :: parent :: above).map schema.scopeOf := List.map_cons.symm

theorem Chain.falling (chain : schema.Chain id packet above) :
    (id :: above).Pairwise fun lower higher => higher.index < lower.index := by
  induction chain with
  | root => exact List.pairwise_singleton _ _
  | @derived id parent _ _ above _ _ earlier _ _ falling =>
      refine List.pairwise_cons.mpr ⟨?_, falling⟩
      intro higher member
      rcases List.mem_cons.mp member with rfl | farther
      · exact earlier
      · exact Nat.lt_trans (List.rel_of_pairwise_cons falling farther) earlier

theorem Chain.ends (chain : schema.Chain id packet above) : ∃ top record,
    (id :: above).getLast? = some top ∧ schema.packet? top = some record ∧
      record.parent = none ∧ schema.forest.parent? record.scope = none := by
  induction chain with
  | @root id packet found free top => exact ⟨id, packet, rfl, found, free, top⟩
  | derived _ _ _ _ _ higher =>
      obtain ⟨top, record, last, rest⟩ := higher
      exact ⟨top, record, by rw [List.getLast?_cons_cons, last], rest⟩

/-- A look-up asks the packets of the chain one by one. -/
theorem Chain.lookup (chain : schema.Chain id packet above) (formed : schema.Formed)
    (ident : String) :
    schema.forest.lookup packet.scope ident =
      .ok ((id :: above).findSome? (schema.declared? ident)) := by
  induction chain with
  | @root id packet found _ top =>
      have issued := formed.issued packet (mem_of_packet found)
      obtain ⟨scope, present⟩ := ScopeForest.issued_iff_scope.mp issued
      rw [ScopeForest.parent_of_scope present] at top
      rw [formed.ordered.lookup_eq present, top, List.findSome?_cons, declared_of_packet found,
        ScopeForest.field_of_scope present]
      cases scope.find? ident <;> rfl
  | @derived id parent packet record above found _ _ below _ higher =>
      have issued := formed.issued packet (mem_of_packet found)
      obtain ⟨scope, present⟩ := ScopeForest.issued_iff_scope.mp issued
      rw [ScopeForest.parent_of_scope present] at below
      rw [formed.ordered.lookup_eq present, below, List.findSome?_cons, declared_of_packet found,
        ScopeForest.field_of_scope present]
      cases scope.find? ident with
      | some field => rfl
      | none => exact higher

/-- What is said of a packet and of the packets above it: their scopes are the lineage of its
scope, numbers fall, the last of them is underived and its scope a root, and what the packet sees
is what they declare, each name where it is declared nearest. -/
structure Descent (schema : Schema) (id : PacketId) (packet : Packet) (above : List PacketId) :
    Prop where
  lineage : (schema.forest.lineage packet.scope).map some = (id :: above).map schema.scopeOf
  falling : (id :: above).Pairwise fun lower higher => higher.index < lower.index
  ends : ∃ top record, (id :: above).getLast? = some top ∧ schema.packet? top = some record ∧
    record.parent = none ∧ schema.forest.parent? record.scope = none
  visible : ∀ ident,
    (∃ binding, schema.forest.lookup packet.scope ident = .ok (some binding)) ↔
      ∃ other ∈ id :: above, ident ∈ schema.fieldNames other
  nearest : ∀ ident, schema.forest.lookup packet.scope ident =
    .ok ((id :: above).findSome? (schema.declared? ident))

theorem Chain.descent (chain : schema.Chain id packet above) (formed : schema.Formed) :
    schema.Descent id packet above where
  lineage := chain.lineage formed.ordered
  falling := chain.falling
  ends := chain.ends
  visible ident := by
    rw [chain.lookup formed ident]
    simp only [Except.ok.injEq, ← Option.isSome_iff_exists, List.findSome?_isSome_iff,
      declared_iff_named]
  nearest := chain.lookup formed

/-- Packets and their scopes are one hierarchy. -/
structure OneHierarchy (schema : Schema) : Prop where
  scopes : (schema.packets.map Packet.scope).Nodup
  packets : ∀ id packet, schema.packet? id = some packet →
    ∃ above, schema.ancestors id = .ok above ∧ schema.Descent id packet above

end Schema

namespace Build

variable {build after : Build} {record : Packet} {location : Location}
  {derivation : Option Derivation}

/-- What is said of packets without their edges is said, after one is registered, of the same
packets, if one of them has the name of that one, and otherwise of that one as well. -/
theorem Registers.packets_map {Item : Type}
    (registers : Registers build record location derivation after) (part : Packet → Item)
    (blind : ∀ packet children, part { packet with children } = part packet) :
    (∃ present ∈ build.schema.packets, present.ident = record.ident) ∧
        after.schema.packets.map part = build.schema.packets.map part ∨
      (∀ present ∈ build.schema.packets, present.ident ≠ record.ident) ∧
        after.schema.packets.map part = (build.schema.packets ++ [record]).map part := by
  cases registers with
  | refused rejected =>
      refine .inl ⟨?_, rfl⟩
      unfold Schema.appendPacket at rejected
      split at rejected
      next repeated => simpa using repeated
      next => cases rejected
  | unlinked accepted | conflicting accepted =>
      obtain ⟨fresh, _, rfl⟩ := Schema.append_packet_eq_ok accepted
      exact .inr ⟨fresh, rfl⟩
  | linked accepted _ joined =>
      obtain ⟨fresh, _, rfl⟩ := Schema.append_packet_eq_ok accepted
      exact .inr ⟨fresh, Schema.packets_map_linked part blind joined⟩

end Build

/-- A visit opens a scope that no packet has, and only the packet that is visited can get it. -/
theorem Visit.scopes_distinct (visit : Visit) (failFast : Bool)
    (coherent : visit.before.schema.Coherent)
    (distinct : (visit.before.schema.packets.map Packet.scope).Nodup) :
    ((visit.after failFast).schema.packets.map Packet.scope).Nodup := by
  have packets : (visit.walked failFast).schema.packets = visit.before.schema.packets :=
    (Tree.buildBlock_confined visit.packet.body visit.scope visit.opened).packets
  have outcome := (visit.registers failFast).packets_map Packet.scope (fun _ _ => rfl)
  rw [packets] at outcome
  rcases outcome with ⟨_, same⟩ | ⟨_, added⟩
  · rw [same]
    exact distinct
  · rw [added]
    refine nodup_map_concat distinct fun packet member same => ?_
    have issued := coherent.formed.issued packet member
    rw [same, visit.record_scope] at issued
    exact visit.new_scope issued

/-- Whatever is compiled, fast or not and with whatever faults, packets and their scopes are one
hierarchy. -/
theorem compile_one_hierarchy (failFast : Bool) {source : String} {tree : Tree.Module}
    (parsed : Grammar.parse source = .ok tree) :
    ∃ compilation, compile failFast source = .ok compilation ∧
      compilation.schema.OneHierarchy := by
  have compiled : compile failFast source = .ok ⟨_, _⟩ := compile_eq_build parsed
  refine ⟨_, compiled, ?_, ?_⟩
  · exact tree.induction
      (motive := fun _ build => (build.schema.packets.map Packet.scope).Nodup)
      failFast List.nodup_nil fun _ visit coherent => visit.scopes_distinct failFast coherent
  · intro id packet found
    have reaches := compile_reaches compiled
    have coherent := Schema.coherent_empty.reached reaches
    have numbered := coherent.numbered.well_numbered coherent.formed coherent.grounded
    obtain ⟨above, answered⟩ :=
      numbered.answers.ancestors id (Schema.registered_of_packet found)
    have chain := Schema.chain_of_ancestors coherent.numbered
      (Schema.Reaches.all_derive reaches) _ found answered
    exact ⟨above, answered, chain.descent coherent.formed⟩

/-- In this text one packet is refused and the packet that is registered after it is derived. -/
theorem refused_text_one_hierarchy :
    ∃ compilation, compile false refusedText = .ok compilation ∧
      compilation.schema.packets.map Packet.parent = [none, some ⟨0⟩] ∧
      compilation.schema.packets.map Packet.scope = [⟨0⟩, ⟨3⟩] ∧
      compilation.schema.OneHierarchy := by
  obtain ⟨tree, parsed⟩ := refused_text_parsed
  obtain ⟨compilation, compiled, hierarchy⟩ := compile_one_hierarchy false parsed
  have registered : (compile false refusedText).toOption.any (fun compilation =>
      compilation.schema.packets.map Packet.parent = [none, some ⟨0⟩] ∧
        compilation.schema.packets.map Packet.scope = [⟨0⟩, ⟨3⟩]) = true := by decide +kernel
  rw [compiled] at registered
  have counted := of_decide_eq_true registered
  exact ⟨compilation, compiled, counted.1, counted.2, hierarchy⟩

end PacketSchema
