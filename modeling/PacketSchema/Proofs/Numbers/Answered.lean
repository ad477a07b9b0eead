import PacketSchema.Dump
import PacketSchema.Proofs.Numbers.Stored

/-!
# Questions that are always answered

A schema whose numbers are in order can be asked anything: its dump, the line and the ancestors of
each of its packets, and what an identifier means from each of its scopes. Every walk behind such
a question ends by itself, because it only goes down through parents or only up through blocks;
the bounds that the walks carry are never what stops them.
-/

namespace PacketSchema

/-- What can be asked of a schema, and that there is an answer. An identifier is looked up to the
number of a packet that is there. A lineage carries no sign of its bound, so that it ends by
itself is said of its last scope. -/
structure Schema.Answers (schema : Schema) : Prop where
  idents : ∀ ident id, schema.packetId? ident = some id → schema.Registered id
  dump : ∃ text, schema.dump = .ok text
  headers : ∀ packet ∈ schema.packets, ∃ line, schema.header packet = .ok line
  ancestors : ∀ id, schema.Registered id → ∃ above, schema.ancestors id = .ok above
  lineages : ∀ id, schema.forest.Issued id → ∃ root,
    (schema.forest.lineage id).getLast? = some root ∧ schema.forest.parent? root = none
  lookups : ∀ id, schema.forest.Issued id → ∀ ident,
    ∃ binding, schema.forest.lookup id ident = .ok binding
  resolutions : ∀ id, schema.forest.Issued id → ∀ ident,
    (∃ reference, schema.forest.resolve id ident = .ok reference) ∨
      ∃ reason, schema.forest.resolve id ident = .error (.unresolvedReference ident reason)

theorem gather_lines_ok {parts : List (Except SchemaError (List DumpLine))}
    (each : ∀ part ∈ parts, ∃ lines, part = .ok lines) :
    ∃ lines, gatherLines parts = .ok lines := by
  induction parts with
  | nil => exact ⟨[], rfl⟩
  | cons part rest later =>
      rw [List.forall_mem_cons] at each
      obtain ⟨first, rfl⟩ := each.1
      obtain ⟨others, gathered⟩ := later each.2
      exact ⟨first ++ others, by rw [gatherLines, gathered]⟩

theorem under_line_ok (line : DumpLine) {part : Except SchemaError (List DumpLine)}
    (answered : ∃ lines, part = .ok lines) : ∃ lines, underLine line part = .ok lines := by
  obtain ⟨lines, rfl⟩ := answered
  exact ⟨line :: lines, rfl⟩

/-- A field has lines where each of its blocks has. -/
theorem Field.lines_ok {block : Nat → ScopeId → Except SchemaError (List DumpLine)}
    (field : Field) (depth : Nat)
    (each : ∀ scope ∈ field.blocks, ∀ depth, ∃ lines, block depth scope = .ok lines) :
    ∃ lines, field.lines block depth = .ok lines := by
  cases field with
  | always ident encoding => exact ⟨_, rfl⟩
  | optional ident condition scope =>
      exact under_line_ok _ (each scope (List.mem_singleton_self scope) _)
  | union choice =>
      apply under_line_ok
      apply gather_lines_ok
      intro part member
      obtain ⟨arm, listed, rfl⟩ := List.mem_map.mp member
      exact under_line_ok _ (each arm.scope (List.mem_map_of_mem listed) _)

namespace Schema

variable {schema : Schema} {packet : Packet}

theorem packet_of_registered {id : PacketId} (registered : schema.Registered id) :
    ∃ packet, schema.packet? id = some packet :=
  ⟨_, List.getElem?_eq_getElem registered⟩

theorem registered_of_ident {ident : String} {id : PacketId}
    (named : schema.packetId? ident = some id) : schema.Registered id := by
  obtain ⟨index, found, rfl⟩ := Option.map_eq_some_iff.mp named
  exact (List.findIdx?_eq_some_iff_getElem.mp found).1

/-- As blocks go up, more levels than there are scopes from here on are never used up. -/
theorem WellNumbered.scope_lines (numbered : schema.WellNumbered) (levels depth : Nat)
    (id : ScopeId) (issued : schema.forest.Issued id)
    (enough : schema.forest.size < id.index + levels) :
    ∃ lines, schema.forest.lines levels depth id = .ok lines := by
  induction levels generalizing depth id with
  | zero =>
      rw [ScopeForest.Issued] at issued
      omega
  | succ levels inner =>
      obtain ⟨scope, found⟩ := ScopeForest.issued_iff_scope.mp issued
      rw [ScopeForest.lines, found]
      apply gather_lines_ok
      intro part member
      obtain ⟨field, inside, rfl⟩ := List.mem_map.mp member
      apply field.lines_ok
      intro block listed deeper
      obtain ⟨larger, blockIssued⟩ := numbered.blocks id scope found field inside block listed
      exact inner deeper block blockIssued (by omega)

theorem WellNumbered.header_ok (numbered : schema.WellNumbered) (member : packet ∈ schema.packets) :
    ∃ line, schema.header packet = .ok line := by
  unfold header
  cases linked : packet.parent with
  | none => exact ⟨_, rfl⟩
  | some parent =>
      obtain ⟨index, bound, found⟩ := List.getElem_of_mem member
      have present : schema.packet? ⟨index⟩ = some packet := by
        rw [packet?, List.getElem?_eq_getElem bound, found]
      have earlier := numbered.packetParents ⟨index⟩ packet present parent linked
      obtain ⟨record, known⟩ := packet_of_registered (Nat.lt_trans earlier bound)
      simp only [known]
      exact ⟨_, rfl⟩

theorem WellNumbered.dump_ok (numbered : schema.WellNumbered) :
    ∃ text, schema.dump = .ok text := by
  have lines : ∃ lines, schema.dumpLines = .ok lines := by
    apply gather_lines_ok
    intro part member
    obtain ⟨packet, inside, rfl⟩ := List.mem_map.mp member
    obtain ⟨line, headed⟩ := numbered.header_ok inside
    rw [packetLines, headed]
    exact under_line_ok _ (numbered.scope_lines _ _ _ (numbered.packetScopes packet inside)
      (by omega))
  obtain ⟨found, answered⟩ := lines
  exact ⟨_, by rw [dump, answered]⟩

theorem WellNumbered.ancestors_within_ok (numbered : schema.WellNumbered) (steps : Nat)
    (id : PacketId) (registered : schema.Registered id) (enough : id.index < steps) :
    ∃ above, schema.ancestorsWithin steps id = .ok above := by
  induction steps generalizing id with
  | zero => omega
  | succ steps inner =>
      obtain ⟨packet, found⟩ := packet_of_registered registered
      rw [ancestorsWithin, found]
      simp only
      cases linked : packet.parent with
      | none => exact ⟨[], rfl⟩
      | some parent =>
          have earlier := numbered.packetParents id packet found parent linked
          obtain ⟨above, answered⟩ := inner parent (Nat.lt_trans earlier registered) (by omega)
          exact ⟨parent :: above, by simp only [answered]⟩

theorem WellNumbered.answers (numbered : schema.WellNumbered) : schema.Answers where
  idents _ _ named := registered_of_ident named
  dump := numbered.dump_ok
  headers _ member := numbered.header_ok member
  ancestors id registered :=
    numbered.ancestors_within_ok _ id registered (Nat.lt_succ_of_lt registered)
  lineages id _ := ScopeForest.Ordered.lineage_ends numbered.parents id
  lookups _ issued ident := ScopeForest.Ordered.lookup_ok numbered.parents issued ident
  resolutions _ issued ident :=
    ScopeForest.resolve_answers (ScopeForest.Ordered.lookup_ok numbered.parents issued ident)

end Schema

end PacketSchema
