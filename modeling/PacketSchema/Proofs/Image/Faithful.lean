import PacketSchema.Proofs.Grammar.Regular
import PacketSchema.Proofs.Image.Relation
import PacketSchema.Proofs.Rules.Exact

/-!
# Valid schemas are faithful

A text without faults is built as a schema that is the image of its tree. Each statement adds one
field at the end of its scope and opens its blocks as the next scopes; what is walked later is
walked in the same scope or in newer ones, so the image stands.
-/

namespace PacketSchema

namespace Schema

variable {schema grown : Schema} {scope other : ScopeId} {present : Scope} {field : Field}
  {ident : String} {parent : Option ScopeId} {fields : List Field} {presents : List Arm} {arm : Arm}

theorem scope_appended (found : schema.forest.scope? scope = some present)
    (accepted : schema.appendField scope field = .ok grown) :
    grown.forest.scope? scope = some { present with fields := present.fields ++ [field] } := by
  rw [(ScopeForest.append_eq_ok (append_field_eq_ok accepted).1).2,
    ScopeForest.scope_update_fields, found, Option.map_some, if_pos rfl]

theorem other_scope_appended (different : other ≠ scope)
    (accepted : schema.appendField scope field = .ok grown) :
    grown.forest.scope? other = schema.forest.scope? other := by
  rw [(ScopeForest.append_eq_ok (append_field_eq_ok accepted).1).2,
    ScopeForest.scope_update_fields_ne different]

theorem size_appended (accepted : schema.appendField scope field = .ok grown) :
    grown.forest.size = schema.forest.size := by
  rw [(ScopeForest.append_eq_ok (append_field_eq_ok accepted).1).2,
    ScopeForest.size_update_fields]

/-- An arm is added to the union that stands last in its scope, where no other field has the
union's name. -/
theorem scope_arm_added
    (found : schema.forest.scope? scope = some ⟨parent, fields ++ [.union ⟨ident, presents⟩]⟩)
    (fresh : ∀ earlier ∈ fields, earlier.ident ≠ ident)
    (accepted : schema.appendArm scope ident arm = .ok grown) :
    grown.forest.scope? scope = some ⟨parent, fields ++ [.union ⟨ident, presents ++ [arm]⟩]⟩ ∧
      grown.forest.size = schema.forest.size ∧
      ∀ other, other ≠ scope → grown.forest.scope? other = schema.forest.scope? other := by
  rcases ScopeForest.append_arm_eq_ok (append_arm_eq_ok accepted).1 with
    ⟨choice, _, declared, _, updated⟩
  have absent : fields.find? (fun earlier => earlier.ident == ident) = none := by
    rw [List.find?_eq_none]
    intro earlier member
    simpa using fresh earlier member
  have last : choice = ⟨ident, presents⟩ := by
    rw [ScopeForest.field_of_scope found, Scope.find?, List.find?_append, absent,
      Option.none_or, List.find?_singleton] at declared
    have own : (Field.union ⟨ident, presents⟩).ident = ident := rfl
    rw [own, beq_self_eq_true, if_pos rfl] at declared
    exact (Field.union.inj (Option.some.inj declared)).symm
  subst last
  have kept : fields.map (ScopeForest.exchange ⟨ident, presents ++ [arm]⟩) = fields := by
    have same : ∀ earlier ∈ fields,
        ScopeForest.exchange ⟨ident, presents ++ [arm]⟩ earlier = id earlier :=
      fun earlier member => ScopeForest.exchange_of_ne (fresh earlier member)
    rw [List.map_congr_left same, List.map_id]
  have taken : ScopeForest.exchange ⟨ident, presents ++ [arm]⟩ (.union ⟨ident, presents⟩) =
      .union ⟨ident, presents ++ [arm]⟩ := if_pos rfl
  rw [updated]
  refine ⟨?_, ScopeForest.size_update_fields _ _ _, ?_⟩
  · rw [ScopeForest.scope_update_fields, found, Option.map_some, if_pos rfl, List.map_append,
      kept, List.map_singleton, taken]
  · intro other different
    exact ScopeForest.scope_update_fields_ne different _

end Schema

namespace Tree

variable {schema grown : Schema} {scope : ScopeId}

/-- What is declared for a union, before its arms are walked: an empty union that stands last, its
name new in the scope. -/
theorem union_opened {name : Token} {present : Scope}
    (found : schema.forest.scope? scope = some present)
    (appended : schema.appendField scope (.union (.empty name.item)) = .ok grown) :
    grown.forest.scope? scope =
        some ⟨present.parent, present.fields ++ [.union ⟨name.item, []⟩]⟩ ∧
      ∀ earlier ∈ present.fields, earlier.ident ≠ name.item := by
  refine ⟨Schema.scope_appended found appended, ?_⟩
  have absent := (ScopeForest.append_eq_ok (Schema.append_field_eq_ok appended).1).1
  have unbound := ScopeForest.unbound_of_lookup absent found
  intro earlier member same
  exact List.find?_eq_none.mp unbound earlier member (beq_iff_eq.mpr same)

mutual

theorem Statement.built_as : ∀ (statement : Statement) {scope : ScopeId} {schema grown : Schema}
    {present : Scope}, schema.forest.scope? scope = some present →
      statement.faultless scope schema = some grown →
      ∃ field, grown.forest.scope? scope = some ⟨present.parent, present.fields ++ [field]⟩ ∧
        grown.forest.size = schema.forest.size + statement.blocks ∧
        statement.BuiltAs grown.forest scope schema.forest.size field
  | .always location ident descriptor, scope, schema, grown, present, found, answered => by
      rcases faultless_always_eq_some.mp answered with ⟨encoding, accepted, appended⟩
      refine ⟨_, Schema.scope_appended found appended, Schema.size_appended appended, ?_⟩
      exact always_built_iff.mpr ⟨encoding, rfl, (Descriptor.encoding_accepted accepted).1⟩
  | .optional location ident condition body, scope, schema, grown, present, found, answered => by
      rcases faultless_optional_eq_some.mp answered with
        ⟨resolved, accepted, declared, appended, inside⟩
      have issued := ScopeForest.issued_of_scope found
      have newer := ScopeForest.ne_of_issued issued (Nat.le_refl _)
      have opened := (ScopeForest.scope_create_old issued (some scope)).trans found
      have child := (Schema.other_scope_appended newer appended).trans
        (ScopeForest.scope_create_new schema.forest (some scope))
      have size : declared.forest.size = schema.forest.size + 1 :=
        (Schema.size_appended appended).trans (ScopeForest.size_create _ _)
      rcases block_built_as body child inside with ⟨fields, walked, grownSize, built⟩
      have declaredIssued : declared.forest.Issued scope :=
        ScopeForest.issued_of_scope (Schema.scope_appended opened appended)
      have kept := (block_walked inside).confined.others scope declaredIssued newer.symm
      refine ⟨_, kept.trans (Schema.scope_appended opened appended), ?_, ?_⟩
      · rw [grownSize, size, Statement.blocks]
        omega
      · rw [size] at built
        have reads := (Disjunction.condition_accepted accepted).1
        exact optional_built_iff.mpr ⟨resolved, fields, rfl, reads, walked, built⟩
  | .union location ident arms, scope, schema, grown, present, found, answered => by
      rcases faultless_union_eq_some.mp answered with ⟨declared, appended, inside⟩
      rcases union_opened found appended with ⟨opened, fresh⟩
      rcases arms_built_as arms opened fresh inside with ⟨taken, last, grownSize, built⟩
      have size := Schema.size_appended appended
      rw [size] at grownSize built
      exact ⟨_, last, grownSize, union_built_iff.mpr ⟨taken, rfl, built⟩⟩

theorem Arm.built_as : ∀ (arm : Arm) {scope : ScopeId} {ident : String} {schema grown : Schema}
    {parent : Option ScopeId} {fields : List Field} {presents : List PacketSchema.Arm},
      schema.forest.scope? scope = some ⟨parent, fields ++ [.union ⟨ident, presents⟩]⟩ →
      (∀ earlier ∈ fields, earlier.ident ≠ ident) →
      arm.faultless scope ident schema = some grown →
      ∃ taken, grown.forest.scope? scope =
          some ⟨parent, fields ++ [.union ⟨ident, presents ++ [taken]⟩]⟩ ∧
        grown.forest.size = schema.forest.size + arm.blocks ∧
        arm.BuiltAs grown.forest scope schema.forest.size taken
  | .mk location guard tag body, scope, ident, schema, grown, parent, fields, presents, found,
      fresh, answered => by
      rcases faultless_arm_eq_some.mp answered with
        ⟨condition, guardFound, resolved, tagFound, walked, inside, added⟩
      have issued := ScopeForest.issued_of_scope found
      have newer := ScopeForest.ne_of_issued issued (Nat.le_refl _)
      have openedIssued : (schema.createScope (some scope)).2.forest.Issued scope :=
        ScopeForest.issued_create issued (some scope)
      rcases block_built_as body (ScopeForest.scope_create_new schema.forest (some scope)) inside
        with ⟨inner, innerFound, walkedSize, built⟩
      have size : (schema.createScope (some scope)).2.forest.size = schema.forest.size + 1 :=
        ScopeForest.size_create _ _
      rw [size] at walkedSize built
      have outer := ((block_walked inside).confined.others scope openedIssued newer.symm).trans
        ((ScopeForest.scope_create_old issued (some scope)).trans found)
      rcases Schema.scope_arm_added outer fresh added with ⟨last, sameSize, others⟩
      refine ⟨_, last, ?_, ?_⟩
      · rw [sameSize, walkedSize, Arm.blocks]
        omega
      · rw [Arm.BuiltAs]
        refine ⟨Arm.means_of_accepted guardFound tagFound, rfl, inner,
          (others _ newer).trans innerFound, ?_⟩
        apply block_built_as_kept body _ built
        intro id low _
        exact others _ (ScopeForest.ne_of_issued issued (by omega))

theorem block_built_as : ∀ (statements : List Statement) {scope : ScopeId}
    {schema grown : Schema} {present : Scope}, schema.forest.scope? scope = some present →
      faultlessBlock scope statements schema = some grown →
      ∃ fields, grown.forest.scope? scope = some ⟨present.parent, present.fields ++ fields⟩ ∧
        grown.forest.size = schema.forest.size + blockBlocks statements ∧
        blockBuiltAs grown.forest scope schema.forest.size statements fields
  | [], scope, schema, grown, present, found, answered => by
      cases answered
      refine ⟨[], ?_, rfl, ?_⟩
      · rw [List.append_nil]
        exact found
      · exact block_built_nil_iff.mpr rfl
  | statement :: rest, scope, schema, grown, present, found, answered => by
      rcases faultless_block_cons_eq_some.mp answered with ⟨middle, first, remaining⟩
      rcases statement.built_as found first with ⟨field, middleFound, middleSize, built⟩
      rcases block_built_as rest middleFound remaining with ⟨fields, last, size, others⟩
      have issued := ScopeForest.issued_of_scope found
      refine ⟨field :: fields, ?_, ?_, ?_⟩
      · rw [last, List.append_assoc, List.singleton_append]
      · rw [size, middleSize, blockBlocks, Nat.add_assoc]
      · rw [middleSize] at others
        refine block_built_cons_iff.mpr ⟨field, fields, rfl, ?_, others⟩
        apply statement.built_as_kept _ built
        intro id low high
        have middleIssued : middle.forest.Issued ⟨id⟩ := by
          rw [ScopeForest.Issued, middleSize]
          exact high
        exact (block_walked remaining).confined.others ⟨id⟩ middleIssued
          (ScopeForest.ne_of_issued issued low)

theorem arms_built_as : ∀ (arms : List Arm) {scope : ScopeId} {ident : String}
    {schema grown : Schema} {parent : Option ScopeId} {fields : List Field}
    {presents : List PacketSchema.Arm},
      schema.forest.scope? scope = some ⟨parent, fields ++ [.union ⟨ident, presents⟩]⟩ →
      (∀ earlier ∈ fields, earlier.ident ≠ ident) →
      faultlessArms scope ident arms schema = some grown →
      ∃ taken, grown.forest.scope? scope =
          some ⟨parent, fields ++ [.union ⟨ident, presents ++ taken⟩]⟩ ∧
        grown.forest.size = schema.forest.size + armBlocks arms ∧
        armsBuiltAs grown.forest scope schema.forest.size arms taken
  | [], scope, ident, schema, grown, parent, fields, presents, found, _, answered => by
      cases answered
      refine ⟨[], ?_, rfl, ?_⟩
      · rw [List.append_nil]
        exact found
      · exact arms_built_nil_iff.mpr rfl
  | arm :: rest, scope, ident, schema, grown, parent, fields, presents, found, fresh,
      answered => by
      rcases faultless_arms_cons_eq_some.mp answered with ⟨middle, first, remaining⟩
      rcases arm.built_as found fresh first with ⟨taken, middleFound, middleSize, built⟩
      rcases arms_built_as rest middleFound fresh remaining with ⟨others, last, size, restBuilt⟩
      have issued := ScopeForest.issued_of_scope found
      refine ⟨taken :: others, ?_, ?_, ?_⟩
      · rw [last, List.append_assoc, List.singleton_append]
      · rw [size, middleSize, armBlocks, Nat.add_assoc]
      · rw [middleSize] at restBuilt
        refine arms_built_cons_iff.mpr ⟨taken, others, rfl, ?_, restBuilt⟩
        apply arm.built_as_kept _ built
        intro id low high
        have middleIssued : middle.forest.Issued ⟨id⟩ := by
          rw [ScopeForest.Issued, middleSize]
          exact high
        exact (arms_walked remaining).confined.others ⟨id⟩ middleIssued
          (ScopeForest.ne_of_issued issued low)

end

variable {walked : Schema} {packet : Packet}

/-- The scope of a packet once its body was walked, and what is as it was before. -/
structure PacketWalked (schema walked : Schema) (packet : Packet) (parent : Option ScopeId) :
    Prop where
  packets : walked.packets = schema.packets
  size : walked.forest.size = schema.forest.size + packet.blocks
  others : ∀ id, schema.forest.Issued id → walked.forest.scope? id = schema.forest.scope? id
  body : ∃ fields, walked.forest.scope? ⟨schema.forest.size⟩ = some ⟨parent, fields⟩ ∧
    blockBuiltAs walked.forest ⟨schema.forest.size⟩ (schema.forest.size + 1) packet.body fields

theorem packet_walked {parent : Option ScopeId}
    (inside : faultlessBlock ⟨schema.forest.size⟩ packet.body (schema.createScope parent).2 =
      some walked) : PacketWalked schema walked packet parent := by
  have size : (schema.createScope parent).2.forest.size = schema.forest.size + 1 :=
    ScopeForest.size_create _ _
  have confined := (block_walked inside).confined
  rcases block_built_as packet.body (ScopeForest.scope_create_new schema.forest parent) inside
    with ⟨fields, found, walkedSize, built⟩
  rw [size] at walkedSize built
  refine ⟨confined.packets, ?_, ?_, fields, found, built⟩
  · rw [walkedSize, Packet.blocks]
    omega
  · intro id issued
    have kept := confined.others id (ScopeForest.issued_create issued parent)
      (ScopeForest.ne_of_issued issued (Nat.le_refl _)).symm
    exact kept.trans (ScopeForest.scope_create_old issued parent)

/-- A packet that was walked stands last among the packets and is built as its record. -/
structure PacketAdded (schema grown : Schema) (packet : Packet) : Prop where
  length : grown.packets.length = schema.packets.length + 1
  size : grown.forest.size = schema.forest.size + packet.blocks
  others : ∀ id, schema.forest.Issued id → grown.forest.scope? id = schema.forest.scope? id
  built : ∃ record, grown.packet? ⟨schema.packets.length⟩ = some record ∧
    packet.BuiltAs grown schema.forest.size record

theorem root_added (free : packet.inheritance = none)
    (answered : packet.faultless schema = some grown) : PacketAdded schema grown packet := by
  rcases (faultless_root_eq_some free).mp answered with ⟨walked, inside, id, accepted⟩
  have state := packet_walked inside
  rcases Schema.append_packet_eq_ok accepted with ⟨_, _, rfl⟩
  refine ⟨?_, state.size, state.others, .root packet.ident.item ⟨schema.forest.size⟩, ?_, ?_⟩
  · rw [List.length_append, state.packets, List.length_singleton]
  · rw [Schema.packet?, state.packets, List.getElem?_concat_length]
  · refine ⟨rfl, ?_, rfl, state.body⟩
    rw [Packet.LinkedAs, free]
    exact ⟨rfl, rfl⟩

theorem derived_added {clause : Inheritance} (written : packet.inheritance = some clause)
    (answered : packet.faultless schema = some grown) : PacketAdded schema grown packet := by
  rcases (faultless_derived_eq_some written).mp answered with
    ⟨id, parent, condition, followed, walked, inside, child, registered, accepted, linked⟩
  have state := packet_walked inside
  rcases faultless_clause_eq_some.mp followed with ⟨named, resolved⟩
  rcases Schema.named_eq_some named with ⟨found, parentName⟩
  have bound := (List.getElem?_eq_some_iff.mp found).1
  rcases Schema.append_packet_eq_ok accepted with ⟨_, _, rfl⟩
  have foundAfter : Schema.packet? ⟨walked.packets ++ [.derived packet.ident.item id condition
      ⟨schema.forest.size⟩], walked.forest⟩ id = some parent := by
    rw [Schema.packet?, state.packets, List.getElem?_append_left bound]
    exact found
  rcases Schema.link_spec linked foundAfter with ⟨forest, length, parentLinked, others⟩
  refine ⟨?_, ?_, ?_, .derived packet.ident.item id condition ⟨schema.forest.size⟩, ?_, ?_⟩
  · rw [length, List.length_append, state.packets, List.length_singleton]
  · rw [forest]
    exact state.size
  · rw [forest]
    exact state.others
  · have last : (⟨schema.packets.length⟩ : PacketId) ≠ id := by
      intro same
      rw [← same] at bound
      exact Nat.lt_irrefl _ bound
    rw [others _ last, Schema.packet?, state.packets, List.getElem?_concat_length]
  · refine ⟨rfl, ?_, rfl, ?_⟩
    · rw [Packet.LinkedAs, written]
      exact ⟨id, _, rfl, parentLinked, parentName, (selection_accepted resolved).1⟩
    · have parentScope : ((some id).bind grown.packet?).map PacketSchema.Packet.scope =
          some parent.scope := by
        rw [Option.bind_some, parentLinked, Option.map_some]
      rw [forest]
      simp only [PacketSchema.Packet.derived, parentScope]
      exact state.body

theorem packet_added (answered : packet.faultless schema = some grown) :
    PacketAdded schema grown packet := by
  cases written : packet.inheritance with
  | none => exact root_added written answered
  | some clause => exact derived_added written answered

/-- The image of a packet is about the scopes of its body and about its parent, of which it does
not say what derives from it. -/
theorem Packet.built_as_kept {middle final : Schema} {next : Nat} {record : PacketSchema.Packet}
    (packets : ∀ id parent, middle.packet? id = some parent →
      ∃ children, final.packet? id = some { parent with children })
    (agree : ∀ id, next ≤ id → id < next + packet.blocks →
      final.forest.scope? ⟨id⟩ = middle.forest.scope? ⟨id⟩)
    (built : packet.BuiltAs middle next record) (children : List Child) :
    packet.BuiltAs final next { record with children } := by
  have parentScope : packet.LinkedAs final { record with children } ∧
      (record.parent.bind final.packet?).map PacketSchema.Packet.scope =
        (record.parent.bind middle.packet?).map PacketSchema.Packet.scope := by
    have linked := built.linked
    rw [Packet.LinkedAs] at linked ⊢
    cases written : packet.inheritance with
    | none =>
        rw [written] at linked
        refine ⟨linked, ?_⟩
        rw [linked.1]
        rfl
    | some clause =>
        rw [written] at linked
        rcases linked with ⟨id, parent, own, found, named, reads⟩
        rcases packets id parent found with ⟨edges, kept⟩
        refine ⟨⟨id, _, own, kept, named, reads⟩, ?_⟩
        rw [own, Option.bind_some, Option.bind_some, found, kept, Option.map_some, Option.map_some]
  rcases built.body with ⟨fields, found, inside⟩
  have size : packet.blocks = blockBlocks packet.body + 1 := rfl
  refine ⟨built.ident, parentScope.1, built.scope, fields, ?_, ?_⟩
  · rw [agree next (Nat.le_refl _) (by omega), parentScope.2]
    exact found
  · apply block_built_as_kept packet.body _ inside
    intro id low high
    exact agree id (by omega) (by omega)

structure PacketsAdded (schema grown : Schema) (packets : List Packet) : Prop where
  length : grown.packets.length = schema.packets.length + packets.length
  size : grown.forest.size = schema.forest.size + packetBlocks packets
  others : ∀ id, schema.forest.Issued id → grown.forest.scope? id = schema.forest.scope? id
  reaches : schema.Reaches grown
  built : packetsBuiltAs grown schema.forest.size packets
    (grown.packets.drop schema.packets.length)

theorem packets_added (packets : List Packet) (formed : schema.Formed)
    (answered : faultlessPackets packets schema = some grown) :
    PacketsAdded schema grown packets := by
  induction packets generalizing schema with
  | nil =>
      cases answered
      refine ⟨rfl, rfl, fun _ _ => rfl, .refl, ?_⟩
      exact packets_built_nil_iff.mpr List.drop_length
  | cons packet rest later =>
      rcases faultless_packets_cons_eq_some.mp answered with ⟨middle, first, remaining⟩
      have added := packet_added first
      have reaches := Packet.reaches first formed
      have others := later (Schema.Reaches.formed reaches formed) remaining
      rcases added.built with ⟨record, found, built⟩
      have keeps : ∀ id parent, middle.packet? id = some parent →
          ∃ children, grown.packet? id = some { parent with children } :=
        fun _ _ present => Schema.Reaches.packet_kept others.reaches present
      rcases keeps _ record found with ⟨children, kept⟩
      constructor
      · rw [others.length, added.length, List.length_cons]
        omega
      · rw [others.size, added.size, packetBlocks, Nat.add_assoc]
      · intro id issued
        have middleIssued : middle.forest.Issued id := by
          have bound := added.size
          rw [ScopeForest.Issued] at issued ⊢
          omega
        exact (others.others id middleIssued).trans (added.others id issued)
      · exact reaches.trans others.reaches
      · rcases List.getElem?_eq_some_iff.mp kept with ⟨bound, here⟩
        have rest := others.built
        rw [added.length, added.size] at rest
        rw [List.drop_eq_getElem_cons bound, here]
        refine packets_built_cons_iff.mpr ⟨_, _, rfl, ?_, rest⟩
        apply Packet.built_as_kept keeps _ built
        intro id _ high
        apply others.others
        rw [ScopeForest.Issued, added.size]
        exact high

theorem Module.built_as {tree : Module} {schema : Schema}
    (answered : tree.faultless = some schema) : tree.BuiltAs schema := by
  have added := packets_added tree.packets Schema.formed_empty answered
  have before := packets_kept tree.packets before_empty answered
  have size := added.size
  have built := added.built
  constructor
  · exact built
  · exact before.declares.distinct
  · rw [size]
    exact Nat.zero_add _

end Tree

/-- A schema that was compiled without a diagnostic is the image of the tree of its text, in which
each union has its cases and then at most one arm for the others, and each reference in the schema
means the field that it names. -/
theorem compile_faithful {failFast : Bool} {source : String} {schema : Schema}
    (valid : compile failFast source = .ok ⟨schema, []⟩) :
    ∃ tree, Grammar.parse source = .ok tree ∧ tree.Regular ∧ tree.BuiltAs schema ∧
      schema.ReferencesHold := by
  rcases exists_faultless valid with ⟨tree, parsed, answered⟩
  have regular := Grammar.parse_regular parsed
  exact ⟨tree, parsed, regular, Tree.Module.built_as answered,
    (compile_grounded valid).references_hold⟩

theorem lawful_text_is_faithful :
    ∃ schema tree, compile false lawfulText = .ok ⟨schema, []⟩ ∧ schema.packets.length = 2 ∧
      schema.forest.size = 5 ∧ Grammar.parse lawfulText = .ok tree ∧ tree.BuiltAs schema := by
  have passed : (compile false lawfulText).toOption.any (fun compilation =>
      compilation.diagnostics = [] ∧ compilation.schema.packets.length = 2 ∧
        compilation.schema.forest.size = 5) = true := by
    decide +kernel
  rcases exists_compiled passed with ⟨⟨schema, diagnostics⟩, compiled, counted⟩
  rcases of_decide_eq_true counted with ⟨rfl, packets, scopes⟩
  rcases compile_faithful compiled with ⟨tree, parsed, _, built, _⟩
  exact ⟨schema, tree, compiled, packets, scopes, parsed, built⟩

end PacketSchema
