import PacketSchema.Proofs.Rules.Packets

/-!
# Edges of valid schemas

In a schema that is built without faults the edges of a packet are the packets that derive from
it, in order of declaration and with their conditions. So the edges are determined by the parents
and conditions of all packets, and hold nothing else.
-/

namespace PacketSchema

abbrev Derived : Type := Option PacketId × Option Condition

/-- The edges to those that derive from a packet, numbered from `start`. -/
def edgesFrom (id : PacketId) (start : Nat) : List Derived → List Child
  | [] => []
  | (parent, condition) :: rest =>
      if parent = some id then ⟨⟨start⟩, condition⟩ :: edgesFrom id (start + 1) rest
      else edgesFrom id (start + 1) rest

theorem edges_from_append (id : PacketId) (start : Nat) (first second : List Derived) :
    edgesFrom id start (first ++ second) =
      edgesFrom id start first ++ edgesFrom id (start + first.length) second := by
  induction first generalizing start with
  | nil => rfl
  | cons derived rest later =>
      rcases derived with ⟨parent, condition⟩
      have shift : start + 1 + rest.length = start + (rest.length + 1) := by omega
      rw [List.cons_append, edgesFrom, edgesFrom, later, shift, List.length_cons]
      split
      · rw [List.cons_append]
      · rfl

theorem edges_from_other {id : PacketId} {start : Nat} {derived : List Derived}
    (others : ∀ pair ∈ derived, pair.1 ≠ some id) : edgesFrom id start derived = [] := by
  induction derived generalizing start with
  | nil => rfl
  | cons pair rest later =>
      rw [List.forall_mem_cons] at others
      rcases pair with ⟨parent, condition⟩
      rw [edgesFrom, if_neg others.1]
      exact later others.2

namespace Schema

variable {schema registered grown : Schema} {id child : PacketId} {record parent : Packet}

def derived (schema : Schema) : List Derived :=
  schema.packets.map fun packet => (packet.parent, packet.condition)

/-- The edges of each packet are the packets derived from it, and parents are registered. -/
structure Edged (schema : Schema) : Prop where
  parents : ∀ pair ∈ schema.derived, ∀ above ∈ pair.1, above.index < schema.packets.length
  children : ∀ id record, schema.packet? id = some record →
    record.children = edgesFrom id 0 schema.derived

theorem edged_empty : Edged .empty where
  parents := by
    intro pair member
    cases member
  children := by
    intro id record found
    cases found

theorem derived_registered (accepted : schema.appendPacket record = .ok (id, registered)) :
    registered.derived = schema.derived ++ [(record.parent, record.condition)] := by
  rcases append_packet_eq_ok accepted with ⟨_, _, rfl⟩
  rw [derived, List.map_append, List.map_singleton, derived]

theorem derived_linked {condition : Option Condition}
    (accepted : schema.appendChild id child condition = .ok grown) :
    grown.derived = schema.derived :=
  packets_map_linked (fun packet => (packet.parent, packet.condition)) (fun _ _ => rfl) accepted

/-- Nothing derives from a packet that is not registered yet. -/
theorem Edged.edges_unissued (edged : schema.Edged) :
    edgesFrom ⟨schema.packets.length⟩ 0 schema.derived = [] := by
  apply edges_from_other
  intro pair member above
  exact Nat.lt_irrefl _ (edged.parents pair member _ above)

theorem Edged.parents_registered (edged : schema.Edged)
    (accepted : schema.appendPacket record = .ok (id, registered))
    (parentIssued : ∀ above ∈ record.parent, above.index < schema.packets.length) :
    ∀ pair ∈ registered.derived, ∀ above ∈ pair.1, above.index < registered.packets.length := by
  have derived := derived_registered accepted
  rcases append_packet_eq_ok accepted with ⟨_, _, rfl⟩
  rw [derived, List.length_append, List.length_singleton]
  intro pair member above written
  rcases List.mem_append.mp member with old | new
  · exact Nat.lt_succ_of_lt (edged.parents pair old above written)
  · cases List.mem_singleton.mp new
    exact Nat.lt_succ_of_lt (parentIssued above written)

/-- Registering a packet adds one edge where the packet has a parent, and this edge is still
missing. -/
theorem Edged.children_registered (edged : schema.Edged)
    (accepted : schema.appendPacket record = .ok (child, registered))
    (parentIssued : ∀ above ∈ record.parent, above.index < schema.packets.length)
    (childless : record.children = []) {found : Packet}
    (located : registered.packet? id = some found) :
    edgesFrom id 0 registered.derived =
      found.children ++ (if record.parent = some id then [⟨child, record.condition⟩] else []) := by
  have derived := derived_registered accepted
  rcases append_packet_eq_ok accepted with ⟨_, rfl, rfl⟩
  rw [derived, edges_from_append, Nat.zero_add, Schema.derived, List.length_map,
    ← Schema.derived]
  have last : edgesFrom id schema.packets.length [(record.parent, record.condition)] =
      if record.parent = some id then [⟨⟨schema.packets.length⟩, record.condition⟩] else [] := by
    rw [edgesFrom, edgesFrom]
  rw [last]
  rcases packet_registered schema record located with old | ⟨rfl, rfl⟩
  · rw [edged.children id found old]
  · rw [edged.edges_unissued, childless]

theorem Edged.registered_root (edged : schema.Edged)
    (accepted : schema.appendPacket record = .ok (child, registered))
    (free : record.parent = none) (childless : record.children = []) : registered.Edged := by
  have parentIssued : ∀ above ∈ record.parent, above.index < schema.packets.length := by
    intro above member
    rw [free] at member
    cases member
  constructor
  · exact edged.parents_registered accepted parentIssued
  · intro id found located
    have edges := edged.children_registered accepted parentIssued childless located
    rw [edges, free, if_neg (by simp), List.append_nil]

theorem Edged.registered_derived (edged : schema.Edged)
    (accepted : schema.appendPacket record = .ok (child, registered))
    (known : schema.packet? id = some parent) (derives : record.parent = some id)
    (childless : record.children = [])
    (linked : registered.appendChild id child record.condition = .ok grown) : grown.Edged := by
  have bound := (List.getElem?_eq_some_iff.mp known).1
  have parentIssued : ∀ above ∈ record.parent, above.index < schema.packets.length := by
    intro above member
    rw [derives] at member
    cases member
    exact bound
  have parentFound : registered.packet? id = some parent := by
    rcases append_packet_eq_ok accepted with ⟨_, _, rfl⟩
    rw [packet?, List.getElem?_append_left bound]
    exact known
  have same := derived_linked linked
  rcases link_spec linked parentFound with ⟨_, length, parentLinked, others⟩
  constructor
  · rw [same, length]
    exact edged.parents_registered accepted parentIssued
  · intro other found located
    rw [same]
    by_cases target : other = id
    · rw [target, parentLinked] at located
      cases located
      rw [target, edged.children_registered accepted parentIssued childless parentFound, derives,
        if_pos rfl]
    · rw [others other target] at located
      have elsewhere : ¬record.parent = some other := by
        rw [derives]
        intro equal
        exact target (Option.some.inj equal).symm
      rw [edged.children_registered accepted parentIssued childless located, if_neg elsewhere,
        List.append_nil]

/-- A walk that leaves the packets leaves their edges. -/
theorem Edged.of_packets (edged : schema.Edged) (packets : grown.packets = schema.packets) :
    grown.Edged where
  parents := by
    rw [derived, packets]
    exact edged.parents
  children id record found := by
    rw [packet?, packets] at found
    rw [derived, packets]
    exact edged.children id record found

end Schema

namespace Tree

variable {schema grown : Schema} {packet : Packet}

theorem Packet.edged (answered : packet.faultless schema = some grown) (edged : schema.Edged) :
    grown.Edged := by
  cases written : packet.inheritance with
  | none =>
      rcases (faultless_root_eq_some written).mp answered with ⟨walked, inside, id, accepted⟩
      have inner := edged.of_packets (block_walked inside).confined.packets
      exact inner.registered_root accepted rfl rfl
  | some clause =>
      rcases (faultless_derived_eq_some written).mp answered with
        ⟨id, parent, condition, followed, walked, inside, child, registered, accepted, linked⟩
      have packets := (block_walked inside).confined.packets
      have inner := edged.of_packets packets
      have found := (Schema.named_eq_some (faultless_clause_eq_some.mp followed).1).1
      have known : walked.packet? id = some parent := by
        rw [Schema.packet?, packets]
        exact found
      exact inner.registered_derived accepted known rfl rfl linked

theorem packets_edged (packets : List Packet) (edged : schema.Edged)
    (answered : faultlessPackets packets schema = some grown) : grown.Edged := by
  induction packets generalizing schema with
  | nil =>
      cases answered
      exact edged
  | cons packet rest later =>
      rcases faultless_packets_cons_eq_some.mp answered with ⟨middle, first, remaining⟩
      exact later (Packet.edged first edged) remaining

end Tree

theorem compile_edged {failFast : Bool} {source : String} {schema : Schema}
    (valid : compile failFast source = .ok ⟨schema, []⟩) : schema.Edged := by
  rcases exists_faultless valid with ⟨tree, _, answered⟩
  exact Tree.packets_edged tree.packets Schema.edged_empty answered

end PacketSchema
