import PacketSchema.Proofs.Rules.Statements
import PacketSchema.Proofs.Walk.Valid

/-!
# Packets and their names

A schema that is built without faults declares the packets that were walked: their identifiers
are distinct, the scope of each sees the statements of the packet and of its ancestors, and the
edges of each are the clauses that name it. Registering a packet and linking it to its parent are
told apart, since between the two a packet is declared that no edge leads to.
-/

namespace PacketSchema

namespace Schema

variable {schema grown : Schema} {id other : PacketId} {packet second : Packet} {name : String}
  {earlier linked : List Tree.Packet}

def idents (schema : Schema) : List String := schema.packets.map Packet.ident

theorem ident_at (found : schema.packet? id = some packet) :
    schema.idents[id.index]? = some packet.ident := by
  rw [packet?] at found
  rw [idents, List.getElem?_map, found, Option.map_some]

theorem mem_idents (found : schema.packet? id = some packet) : packet.ident ∈ schema.idents :=
  List.mem_map.mpr ⟨packet, mem_of_packet found, rfl⟩

/-- Where identifiers are distinct, packets of one identifier have one number. -/
theorem id_eq_of_ident (distinct : schema.idents.Nodup)
    (found : schema.packet? id = some packet) (also : schema.packet? other = some second)
    (same : packet.ident = second.ident) : id = other := by
  have first := ident_at found
  have bound := (List.getElem?_eq_some_iff.mp first).1
  rw [same, ← ident_at also] at first
  have index := (List.getElem?_inj bound distinct).mp first
  cases id
  cases other
  exact congrArg PacketId.mk index

theorem exists_named_iff :
    (∃ found, schema.named? name = some found) ↔ name ∈ schema.idents := by
  constructor
  · intro answered
    rcases answered with ⟨⟨id, packet⟩, named⟩
    rcases named_eq_some named with ⟨found, rfl⟩
    exact mem_idents found
  · intro member
    rcases List.mem_map.mp member with ⟨packet, inside, same⟩
    have some : (schema.packets.findIdx? fun packet => packet.ident == name).isSome = true := by
      rw [List.findIdx?_isSome, List.any_eq_true]
      exact ⟨packet, inside, beq_iff_eq.mpr same⟩
    rcases Option.isSome_iff_exists.mp some with ⟨index, first⟩
    have bound := (List.findIdx?_eq_some_iff_getElem.mp first).1
    refine ⟨(⟨index⟩, schema.packets[index]), ?_⟩
    simp only [named?, packetId?, first, Option.map_some, Option.bind_some, packet?,
      List.getElem?_eq_getElem bound]

end Schema

def Tree.Packet.Derives (packet : Tree.Packet) (name : String) (formula : Option Formula) : Prop :=
  ∃ clause, packet.inheritance = some clause ∧ clause.parent.item = name ∧
    Tree.selectionFormula clause.condition = formula

namespace Schema

variable {schema grown : Schema} {id child : PacketId} {record : Packet} {name : String}
  {earlier linked : List Tree.Packet} {packet : Tree.Packet}

structure Declares (schema : Schema) (earlier : List Tree.Packet) : Prop where
  distinct : schema.idents.Nodup
  named : ∀ name, name ∈ schema.idents ↔ ∃ packet ∈ earlier, packet.ident.item = name
  sees : ∀ id record, schema.packet? id = some record →
    schema.forest.Sees record.scope (Tree.ancestral earlier record.ident)
  parents : ∀ packet ∈ earlier, ∀ clause, packet.inheritance = some clause →
    clause.parent.item ∈ schema.idents

/-- The edges of each packet are the clauses that name it. -/
def Links (schema : Schema) (linked : List Tree.Packet) : Prop :=
  ∀ id record, schema.packet? id = some record → ∀ formula,
    (∃ child ∈ record.children, child.condition.map Condition.formula = formula) ↔
      ∃ packet ∈ linked, packet.Derives record.ident formula

theorem declares_empty : Declares .empty [] where
  distinct := .nil
  named := by simp [idents, Schema.empty]
  sees := by simp [packet?, Schema.empty]
  parents := by simp

theorem links_empty : Links .empty [] := by simp [Links, packet?, Schema.empty]

/-- A walk of a body in a newer scope leaves all packets as they are and what their scopes see. -/
theorem Declares.walked {after : Schema} (declares : schema.Declares earlier)
    (packets : after.packets = schema.packets)
    (kept : ∀ id record, schema.packet? id = some record → ∀ visible,
      schema.forest.Sees record.scope visible → after.forest.Sees record.scope visible) :
    after.Declares earlier where
  distinct := by
    rw [idents, packets]
    exact declares.distinct
  named name := by
    rw [idents, packets]
    exact declares.named name
  sees id record found := by
    rw [packet?, packets] at found
    exact kept id record found _ (declares.sees id record found)
  parents member inside clause written := by
    rw [idents, packets]
    exact declares.parents member inside clause written

theorem packet_registered (schema : Schema) (record : Packet) {found : Packet}
    (located : (⟨schema.packets ++ [record], schema.forest⟩ : Schema).packet? id = some found) :
    schema.packet? id = some found ∨ id = ⟨schema.packets.length⟩ ∧ found = record := by
  rw [packet?, List.getElem?_append] at located
  split at located
  · exact .inl located
  next outside =>
    right
    rcases List.getElem?_eq_some_iff.mp located with ⟨bound, here⟩
    rw [List.length_singleton] at bound
    have zero : id.index - schema.packets.length = 0 := by omega
    refine ⟨?_, ?_⟩
    · have index : id.index = schema.packets.length := by omega
      cases id
      exact congrArg PacketId.mk index
    · simp only [zero] at here
      exact here.symm

theorem Declares.registered (declares : schema.Declares earlier)
    (accepted : schema.appendPacket record = .ok (id, grown))
    (ident : record.ident = packet.ident.item)
    (sees : schema.forest.Sees record.scope (Tree.ancestral (packet :: earlier) record.ident))
    (parents : ∀ clause, packet.inheritance = some clause →
      clause.parent.item ∈ schema.idents) :
    grown.Declares (packet :: earlier) := by
  rcases append_packet_eq_ok accepted with ⟨fresh, rfl, rfl⟩
  have names : idents ⟨schema.packets ++ [record], schema.forest⟩ =
      schema.idents ++ [record.ident] := by
    rw [idents, List.map_append, List.map_singleton, idents]
  have unused : record.ident ∉ schema.idents := by
    intro member
    rcases List.mem_map.mp member with ⟨present, inside, same⟩
    exact fresh present inside same
  constructor
  · exact nodup_map_concat declares.distinct fresh
  · intro name
    rw [names, List.mem_append, List.mem_singleton, declares.named, List.exists_mem_cons_iff, ident,
      or_comm, eq_comm]
  · intro number found located
    rcases packet_registered schema record located with old | ⟨_, rfl⟩
    · have different : packet.ident.item ≠ found.ident := by
        intro same
        rw [← ident] at same
        rw [same] at unused
        exact unused (mem_idents old)
      rw [Tree.ancestral, if_neg different]
      exact declares.sees number found old
    · exact sees
  · intro member inside clause written
    rw [names]
    apply List.mem_append_left
    rcases List.mem_cons.mp inside with rfl | old
    · exact parents clause written
    · exact declares.parents member old clause written

/-- A packet that is new has no edges, and no clause so far can have named it. -/
theorem Links.registered (links : schema.Links linked) (declares : schema.Declares linked)
    (accepted : schema.appendPacket record = .ok (id, grown)) (childless : record.children = []) :
    grown.Links linked := by
  rcases append_packet_eq_ok accepted with ⟨fresh, rfl, rfl⟩
  intro number found located formula
  rcases packet_registered schema record located with old | ⟨_, rfl⟩
  · exact links number found old formula
  · rw [childless]
    constructor
    · intro edge
      rcases edge with ⟨child, member, _⟩
      cases member
    · intro derived
      rcases derived with ⟨packet, member, clause, written, parent, _⟩
      have known := declares.parents packet member clause written
      rcases List.mem_map.mp known with ⟨present, inside, same⟩
      exact absurd (same.trans parent) (fresh present inside)

end Schema

end PacketSchema
