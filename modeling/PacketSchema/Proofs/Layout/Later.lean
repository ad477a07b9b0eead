import PacketSchema.Proofs.Dispatch.Agreement
import PacketSchema.Proofs.Grammar.Joining
import PacketSchema.Proofs.Walk.Steady

/-!
# Later packets change nothing

The visit of a packet writes to scopes that it opens itself, and to the packets before it no more
than an edge to its own packet. So what is built when a text has been walked stays as it is when
packets follow in the text, up to edges to these.
-/

namespace PacketSchema

namespace Schema

/-- The scopes of the one schema are the first scopes of the other, fields and arms included, and
so are its packets, up to edges to later packets behind their own. -/
structure Extends (before after : Schema) : Prop where
  scopes : before.forest.scopes <+: after.forest.scopes
  packets : ∀ id record, before.packet? id = some record → ∃ later,
    after.packet? id = some { record with children := record.children ++ later } ∧
      ∀ edge ∈ later, ¬before.Registered edge.packet ∧ after.Registered edge.packet

variable {before middle after : Schema}

theorem Extends.refl (schema : Schema) : Extends schema schema where
  scopes := List.prefix_refl _
  packets id record found := ⟨[], by rwa [List.append_nil], List.forall_mem_nil _⟩

theorem Extends.registered (extended : Extends before after) {id : PacketId}
    (registered : before.Registered id) : after.Registered id := by
  obtain ⟨record, found⟩ := packet_of_registered registered
  obtain ⟨later, kept, -⟩ := extended.packets id record found
  exact registered_of_packet kept

theorem Extends.trans (first : Extends before middle) (second : Extends middle after) :
    Extends before after where
  scopes := first.scopes.trans second.scopes
  packets id record found := by
    obtain ⟨early, kept, fresh⟩ := first.packets id record found
    obtain ⟨late, still, newer⟩ := second.packets id _ kept
    refine ⟨early ++ late, ?_, ?_⟩
    · rw [still, List.append_assoc]
    · intro edge member
      rcases List.mem_append.mp member with old | new
      · exact ⟨(fresh edge old).1, second.registered (fresh edge old).2⟩
      · exact ⟨fun registered => (newer edge new).1 (first.registered registered),
          (newer edge new).2⟩

end Schema

namespace Visit

variable (visit : Visit) {failFast : Bool}

/-- A visit leaves all scopes as they are that were there before it. -/
theorem scopes_kept (coherent : visit.before.schema.Coherent) :
    visit.before.schema.forest.scopes <+: (visit.after failFast).schema.forest.scopes := by
  have spares := (visit.walk_nests failFast coherent).spares
    (coherent.reached visit.opened_reaches) visit.opened_issued
  rw [visit.after_forest]
  apply ScopeForest.scopes_prefix_of_kept
  intro id issued
  have other : id ≠ visit.scope := by
    rintro rfl
    exact visit.new_scope issued
  have opened : visit.opened.schema.forest.scope? id = visit.before.schema.forest.scope? id :=
    ScopeForest.scope_create_old issued _
  have still := (Schema.Reaches.parent_kept visit.opened_reaches coherent.formed issued).1
  exact (spares.others id still other).trans opened

/-- A visit leaves all packets that were there before it as they are, and adds no more than an edge
to its own packet to one of them. -/
theorem packets_kept (coherent : visit.before.schema.Coherent) {id : PacketId} {record : Packet}
    (found : visit.before.schema.packet? id = some record) :
    ∃ later, (visit.after failFast).schema.packet? id =
        some { record with children := record.children ++ later } ∧
      ∀ edge ∈ later, ¬visit.before.schema.Registered edge.packet ∧
        (visit.after failFast).schema.Registered edge.packet := by
  have bound := (List.getElem?_eq_some_iff.mp found).1
  have same : ({ record with children := record.children ++ [] } : Packet) = record := by
    rw [List.append_nil]
  cases visit.outcome failFast coherent with
  | refused packets =>
      refine ⟨[], ?_, List.forall_mem_nil _⟩
      rw [Schema.packet?, packets, same]
      exact found
  | alone packets =>
      refine ⟨[], ?_, List.forall_mem_nil _⟩
      rw [Schema.packet?, packets, same, List.getElem?_append_left bound]
      exact found
  | @joined parent upper located _ packets =>
      have length : (visit.after failFast).schema.packets.length =
          visit.before.schema.packets.length + 1 := by
        rw [packets, List.length_set, List.length_append, List.length_singleton]
      by_cases here : parent.index = id.index
      · rw [Schema.packet?, here] at located
        rw [Schema.packet?, located] at found
        cases found
        refine ⟨[⟨⟨visit.before.schema.packets.length⟩, visit.record.condition⟩], ?_, ?_⟩
        · rw [Schema.packet?, packets, here, List.getElem?_set_self]
          rw [List.length_append]
          exact Nat.lt_add_right _ bound
        · rw [List.forall_mem_singleton, Schema.Registered, Schema.Registered, length]
          exact ⟨Nat.lt_irrefl _, Nat.lt_succ_self _⟩
      · refine ⟨[], ?_, List.forall_mem_nil _⟩
        rw [Schema.packet?, packets, same, List.getElem?_set_ne here,
          List.getElem?_append_left bound]
        exact found

theorem extends_before (coherent : visit.before.schema.Coherent) :
    visit.before.schema.Extends (visit.after failFast).schema where
  scopes := visit.scopes_kept coherent
  packets _ _ found := visit.packets_kept coherent found

end Visit

namespace Tree

theorem buildPackets_extends (packets : List Packet) (build : Build)
    (coherent : build.schema.Coherent) :
    build.schema.Extends (buildPackets false packets build).schema := by
  have kept : ∀ (seen : List Visit) (visit : Visit), visit.before.schema.Coherent →
      build.schema.Extends visit.before.schema →
        build.schema.Extends (visit.after false).schema :=
    fun _ visit coherent earlier => earlier.trans (visit.extends_before coherent)
  exact packets_induction (motive := fun _ reached => build.schema.Extends reached.schema) kept
    packets [] build coherent (.refl build.schema)

end Tree

/-- Two texts that are read are read together with a line feed between them, and what the first is
compiled to is the beginning of what both are: its diagnostics come first, and its schema only
gets more scopes, more packets and edges to these packets. -/
theorem compile_joined {first second : String} {early late : Tree.Module}
    (parsed : Grammar.parse first = .ok early) (also : Grammar.parse second = .ok late) :
    ∃ alone joined, compile false first = .ok alone ∧
      compile false (first ++ "\n" ++ second) = .ok joined ∧
      alone.diagnostics <+: joined.diagnostics ∧ alone.schema.Extends joined.schema := by
  obtain ⟨later, finish, together, _⟩ := Grammar.parse_joined parsed also
  refine ⟨_, _, compile_eq_build parsed, compile_eq_build together, ?_⟩
  have coherent : (early.build false).schema.Coherent :=
    Schema.coherent_empty.reached (compile_reaches (compile_eq_build parsed))
  have whole : Tree.Module.build false ⟨early.packets ++ later, finish⟩ =
      Tree.buildPackets false later (early.build false) :=
    Tree.buildPackets_append early.packets later .empty
  rw [whole]
  exact ⟨Tree.buildPackets_diagnostics later _, Tree.buildPackets_extends later _ coherent⟩

/-- The refused text, ending within a comment that the line feed behind it ends. -/
def earlyText : String := refusedText ++ "//"

/-- A text with a packet that derives from a packet of the other one. -/
def lateText : String := "D:A(&n==4)" ++ braced ""

theorem early_text_extended :
    ∃ alone joined, compile false earlyText = .ok alone ∧
      compile false (earlyText ++ "\n" ++ lateText) = .ok joined ∧
      alone.schema.packets.map (fun packet => packet.children.map Child.packet) = [[⟨1⟩], []] ∧
      joined.schema.packets.map (fun packet => packet.children.map Child.packet) =
        [[⟨1⟩, ⟨2⟩], [], []] ∧
      alone.diagnostics <+: joined.diagnostics ∧ alone.schema.Extends joined.schema := by
  have first : (compile false earlyText).toOption.any (fun compilation =>
      compilation.schema.packets.map (fun packet => packet.children.map Child.packet) =
        [[⟨1⟩], []]) = true := by decide +kernel
  have second : (compile false lateText).toOption.any (fun _ => true) = true := by decide +kernel
  have both : (compile false (earlyText ++ "\n" ++ lateText)).toOption.any (fun compilation =>
      compilation.schema.packets.map (fun packet => packet.children.map Child.packet) =
        [[⟨1⟩, ⟨2⟩], [], []]) = true := by decide +kernel
  obtain ⟨_, firstCompiled, firstEdges⟩ := exists_compiled first
  obtain ⟨_, secondCompiled, _⟩ := exists_compiled second
  obtain ⟨_, bothCompiled, bothEdges⟩ := exists_compiled both
  obtain ⟨early, parsed, _⟩ := parsed_of_compile firstCompiled
  obtain ⟨late, also, _⟩ := parsed_of_compile secondCompiled
  obtain ⟨alone, joined, aloneCompiled, joinedCompiled, diagnostics, extended⟩ :=
    compile_joined parsed also
  rw [firstCompiled] at aloneCompiled
  cases aloneCompiled
  rw [bothCompiled] at joinedCompiled
  cases joinedCompiled
  exact ⟨_, _, firstCompiled, bothCompiled, of_decide_eq_true firstEdges,
    of_decide_eq_true bothEdges, diagnostics, extended⟩

end PacketSchema
