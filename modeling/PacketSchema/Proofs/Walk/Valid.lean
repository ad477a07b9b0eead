import PacketSchema.Proofs.Walk.Faultless

/-!
# Valid texts

The faultless walk of a whole tree, packet by packet. A text compiles without a diagnostic
exactly where the faultless walk of its tree answers, and then to the schema that it answers. A
fast compilation of such a text is no other than a full one, since nothing ever halts it.
-/

namespace PacketSchema

namespace Tree

def Inheritance.faultless (schema : Schema) (clause : Inheritance) :
    Option (PacketId × PacketSchema.Packet × Option Condition) :=
  (schema.named? clause.parent.item).bind fun found =>
    (Checked.option (fun written => written.resolve schema.forest found.2.scope)
      clause.condition).accepted?.map fun condition => (found.1, found.2, condition)

def Packet.faultless (packet : Packet) (schema : Schema) : Option Schema :=
  match packet.inheritance with
  | none =>
      (faultlessBlock ⟨schema.forest.size⟩ packet.body (schema.createScope none).2).bind
        fun walked => (walked.appendPacket
          (.root packet.ident.item ⟨schema.forest.size⟩)).toOption.map Prod.snd
  | some clause =>
      (clause.faultless schema).bind fun derivation =>
        (faultlessBlock ⟨schema.forest.size⟩ packet.body
          (schema.createScope (some derivation.2.1.scope)).2).bind fun walked =>
            (walked.appendPacket (.derived packet.ident.item derivation.1 derivation.2.2
              ⟨schema.forest.size⟩)).toOption.bind fun registered =>
                (registered.2.appendChild derivation.1 registered.1 derivation.2.2).toOption

def faultlessPackets : List Packet → Schema → Option Schema
  | [], schema => some schema
  | packet :: rest, schema =>
      (packet.faultless schema).bind fun walked => faultlessPackets rest walked

def Module.faultless (tree : Module) : Option Schema := faultlessPackets tree.packets .empty

variable {schema grown : Schema} {packet : Packet} {clause : Inheritance}

theorem faultless_clause_eq_some {id : PacketId} {record : PacketSchema.Packet}
    {condition : Option Condition} :
    clause.faultless schema = some (id, record, condition) ↔
      schema.named? clause.parent.item = some (id, record) ∧
        Checked.option (fun written : Disjunction => written.resolve schema.forest record.scope)
          clause.condition = .accepted condition := by
  unfold Inheritance.faultless
  simp only [Option.bind_eq_some_iff, Option.map_eq_some_iff, Checked.accepted_eq_some,
    Prod.mk.injEq]
  constructor
  · intro answered
    rcases answered with ⟨⟨_, _⟩, named, _, accepted, rfl, rfl, rfl⟩
    exact ⟨named, accepted⟩
  · intro answered
    exact ⟨(id, record), answered.1, condition, answered.2, rfl, rfl, rfl⟩

theorem faultless_root_eq_some (free : packet.inheritance = none) :
    packet.faultless schema = some grown ↔
      ∃ walked, faultlessBlock ⟨schema.forest.size⟩ packet.body (schema.createScope none).2 =
          some walked ∧
        ∃ id, walked.appendPacket (.root packet.ident.item ⟨schema.forest.size⟩) =
          .ok (id, grown) := by
  unfold Packet.faultless
  simp only [free, Option.bind_eq_some_iff, Option.map_eq_some_iff, to_option_eq_some,
    Prod.exists, exists_eq_right]

theorem faultless_derived_eq_some (written : packet.inheritance = some clause) :
    packet.faultless schema = some grown ↔
      ∃ parent record condition, clause.faultless schema = some (parent, record, condition) ∧
        ∃ walked, faultlessBlock ⟨schema.forest.size⟩ packet.body
            (schema.createScope (some record.scope)).2 = some walked ∧
          ∃ id registered, walked.appendPacket (.derived packet.ident.item parent condition
              ⟨schema.forest.size⟩) = .ok (id, registered) ∧
            registered.appendChild parent id condition = .ok grown := by
  unfold Packet.faultless
  simp only [written, Option.bind_eq_some_iff, to_option_eq_some, Prod.exists]

theorem faultless_packets_cons_eq_some {rest : List Packet} :
    faultlessPackets (packet :: rest) schema = some grown ↔
      ∃ walked, packet.faultless schema = some walked ∧
        faultlessPackets rest walked = some grown := by
  simp only [faultlessPackets, Option.bind_eq_some_iff]

end Tree

namespace Build

theorem register_diagnostics (build : Build) (packet : Packet) (location : Location)
    (derivation : Option Derivation) :
    build.diagnostics <+: (build.register packet location derivation).diagnostics := by
  unfold register
  split
  · exact List.prefix_append _ _
  · split
    · split
      · exact List.prefix_append _ _
      · exact List.prefix_refl _
    · exact List.prefix_refl _

theorem follows_register_root (packet : Packet) (location : Location) (schema : Schema) :
    (Build.register ⟨schema, []⟩ packet location none).Follows
      ((schema.appendPacket packet).toOption.map Prod.snd) := by
  unfold register
  cases schema.appendPacket packet with
  | error error => simp [Follows, Except.toOption, note, report]
  | ok answer => simp [Follows, Except.toOption]

theorem follows_register_derived (packet : Packet) (location : Location) (parent : PacketId)
    (condition : Option Condition) (schema : Schema) :
    (Build.register ⟨schema, []⟩ packet location (some ⟨parent, .accepted condition⟩)).Follows
      ((schema.appendPacket packet).toOption.bind fun registered =>
        (registered.2.appendChild parent registered.1 condition).toOption) := by
  unfold register
  cases schema.appendPacket packet with
  | error error => simp [Follows, Except.toOption, note, report]
  | ok answer =>
      simp only [Except.toOption, Option.bind_some]
      cases answer.2.appendChild parent answer.1 condition with
      | error error => simp [Follows, note, report]
      | ok grown => simp [Follows]

end Build

namespace Tree

variable {failFast : Bool}

theorem Packet.walk_diagnostics (packet : Packet) (derivation : Option Derivation)
    (scope : ScopeId) (build : Build) :
    build.diagnostics <+: ((buildBlock failFast scope packet.body build).register
      (packet.record derivation scope) packet.ident.location derivation).diagnostics :=
  (buildBlock_confined packet.body scope build).diagnostics.trans
    (Build.register_diagnostics _ _ _ _)

theorem Packet.diagnostics_kept (packet : Packet) (build : Build) :
    build.diagnostics <+: (packet.build failFast build).diagnostics := by
  have reported : build.diagnostics <+: (packet.opened build).2.diagnostics :=
    List.prefix_append _ _
  rw [Packet.build_eq]
  exact reported.trans (packet.walk_diagnostics _ _ _)

theorem buildPackets_diagnostics (packets : List Packet) (build : Build) :
    build.diagnostics <+: (buildPackets failFast packets build).diagnostics := by
  induction packets generalizing build with
  | nil => exact List.prefix_refl _
  | cons packet rest later =>
      rw [buildPackets]
      split
      · exact List.prefix_refl _
      · exact (packet.diagnostics_kept build).trans (later _)

theorem Inheritance.resolve_follows (clause : Inheritance) (ident : String) (schema : Schema) :
    match clause.faultless schema with
    | none => (clause.resolve schema ident).2 ≠ []
    | some (parent, record, condition) =>
        clause.resolve schema ident = (some ⟨parent, .accepted condition⟩, []) ∧
          schema.packet? parent = some record := by
  unfold Inheritance.faultless Inheritance.resolve
  cases named : schema.named? clause.parent.item with
  | none => simp
  | some found =>
      have reasoned : (Checked.option (fun written => written.resolve schema.forest found.2.scope)
          clause.condition).Reasoned :=
        Checked.reasoned_option clause.condition fun written => written.reasoned
      have present : schema.packet? found.1 = some found.2 := (Schema.named_eq_some named).1
      cases checked : Checked.option (fun written => written.resolve schema.forest found.2.scope)
          clause.condition with
      | accepted condition =>
          simp only [Option.bind_some, checked, Checked.accepted?, Option.map_some,
            Checked.problems, present, and_self]
      | refused problems =>
          rw [checked] at reasoned
          simp only [Option.bind_some, checked, Checked.accepted?, Option.map_none,
            Checked.problems]
          rintro rfl
          exact reasoned rfl

theorem Packet.root_follows {packet : Packet} (free : packet.inheritance = none)
    (schema : Schema) : (packet.build failFast ⟨schema, []⟩).Follows (packet.faultless schema) := by
  have derives : packet.derivation schema = (none, []) := by
    simp only [Packet.derivation, free]
  have opens : packet.opened ⟨schema, []⟩ =
      (⟨schema.forest.size⟩, ⟨(schema.createScope none).2, []⟩) := by
    simp only [Packet.opened, derives]
    rfl
  have walked : (buildBlock failFast ⟨schema.forest.size⟩ packet.body
      ⟨(schema.createScope none).2, []⟩).Follows _ := buildBlock_follows packet.body _ _
  rw [Packet.build_eq, Packet.faultless, free, opens, derives]
  exact walked.bind (fun build => build.register (.root packet.ident.item
      ⟨schema.forest.size⟩) packet.ident.location none)
    (Build.register_diagnostics _ _ _ _) fun grown _ =>
      Build.follows_register_root _ packet.ident.location grown

theorem Packet.derived_follows {packet : Packet} {clause : Inheritance}
    (written : packet.inheritance = some clause) (schema : Schema) :
    (packet.build failFast ⟨schema, []⟩).Follows (packet.faultless schema) := by
  have derives : packet.derivation schema = clause.resolve schema packet.ident.item := by
    simp only [Packet.derivation, written]
  have follows := clause.resolve_follows packet.ident.item schema
  rw [Packet.build_eq, Packet.faultless, written]
  simp only
  cases derived : clause.faultless schema with
  | none =>
      rw [derived] at follows
      have faulty : (Build.report ⟨schema, []⟩ (packet.derivation schema).2).diagnostics ≠ [] := by
        rw [derives]
        simpa [Build.report] using follows
      exact Build.faulty_of_prefix (packet.walk_diagnostics _ _ _) faulty
  | some derivation =>
      rw [derived] at follows
      have resolved := follows.1
      have opens : packet.opened ⟨schema, []⟩ = (⟨schema.forest.size⟩,
          ⟨(schema.createScope (some derivation.2.1.scope)).2, []⟩) := by
        simp only [Packet.opened, derives, resolved, Build.report, List.append_nil,
          Build.createPacketScope, Schema.createPacketScope, Option.map_some,
          Option.bind_some, follows.2]
        rfl
      have walked : (buildBlock failFast ⟨schema.forest.size⟩ packet.body
          ⟨(schema.createScope (some derivation.2.1.scope)).2, []⟩).Follows _ :=
        buildBlock_follows packet.body _ _
      rw [opens, derives, resolved]
      exact walked.bind (fun build => build.register (.derived packet.ident.item derivation.1
          derivation.2.2 ⟨schema.forest.size⟩) packet.ident.location
          (some ⟨derivation.1, .accepted derivation.2.2⟩))
        (Build.register_diagnostics _ _ _ _) fun grown _ =>
          Build.follows_register_derived _ packet.ident.location _ _ grown

theorem Packet.build_follows (packet : Packet) (schema : Schema) :
    (packet.build failFast ⟨schema, []⟩).Follows (packet.faultless schema) := by
  cases written : packet.inheritance with
  | none => exact Packet.root_follows written schema
  | some clause => exact Packet.derived_follows written schema

theorem buildPackets_follows (packets : List Packet) (schema : Schema) :
    (buildPackets failFast packets ⟨schema, []⟩).Follows (faultlessPackets packets schema) := by
  induction packets generalizing schema with
  | nil => exact rfl
  | cons packet rest later =>
      have clean : (⟨schema, []⟩ : Build).diagnostics = [] := rfl
      rw [packets_go_on failFast clean, faultlessPackets]
      exact (packet.build_follows schema).bind (buildPackets failFast rest)
        (buildPackets_diagnostics rest _) fun walked _ => later walked

theorem Packet.reaches {packet : Packet} {schema grown : Schema}
    (answered : packet.faultless schema = some grown) (formed : schema.Formed) :
    schema.Reaches grown := by
  have follows : (packet.build false ⟨schema, []⟩).Follows _ := packet.build_follows schema
  rw [answered] at follows
  have built : packet.build false ⟨schema, []⟩ = ⟨grown, []⟩ := follows
  have reaches : schema.Reaches (packet.build false ⟨schema, []⟩).schema :=
    packet.build_reaches ⟨schema, []⟩ formed
  rwa [built] at reaches

/-- The faultless walk of a tree answers exactly where the building walk reports nothing, and
then both have the same schema. -/
theorem Module.build_valid_iff (tree : Module) (schema : Schema) :
    tree.build failFast = ⟨schema, []⟩ ↔ tree.faultless = some schema := by
  have follows : (tree.build failFast).Follows tree.faultless :=
    buildPackets_follows tree.packets .empty
  constructor
  · intro built
    rw [built] at follows
    cases answered : tree.faultless with
    | none =>
        rw [answered] at follows
        exact absurd rfl follows
    | some other =>
        rw [answered] at follows
        cases follows
        rfl
  · intro answered
    rwa [answered] at follows

end Tree

/-- What can be read compiles to what its tree builds. -/
theorem compile_eq_build {failFast : Bool} {source : String} {tree : Tree.Module}
    (parsed : Grammar.parse source = .ok tree) :
    compile failFast source =
      .ok ⟨(tree.build failFast).schema, (tree.build failFast).diagnostics⟩ := by
  unfold compile
  rw [parsed]

theorem compile_valid_iff {failFast : Bool} {source : String} {tree : Tree.Module}
    (parsed : Grammar.parse source = .ok tree) (schema : Schema) :
    compile failFast source = .ok ⟨schema, []⟩ ↔ tree.faultless = some schema := by
  have valid : tree.build failFast = ⟨schema, []⟩ ↔ tree.faultless = some schema :=
    tree.build_valid_iff schema
  rw [compile_eq_build parsed, ← valid]
  generalize tree.build failFast = build
  cases build with
  | mk found problems => simp only [Except.ok.injEq, Compilation.mk.injEq, Build.mk.injEq]

theorem exists_tree {failFast : Bool} {source : String} {compilation : Compilation}
    (compiled : compile failFast source = .ok compilation) :
    ∃ tree, Grammar.parse source = .ok tree := by
  cases parsed : Grammar.parse source with
  | error error =>
      unfold compile at compiled
      rw [parsed] at compiled
      cases compiled
  | ok tree => exact ⟨tree, rfl⟩

/-- What compiles without a diagnostic has a tree, and the faultless walk of that tree answers
the schema. -/
theorem exists_faultless {failFast : Bool} {source : String} {schema : Schema}
    (valid : compile failFast source = .ok ⟨schema, []⟩) :
    ∃ tree, Grammar.parse source = .ok tree ∧ tree.faultless = some schema := by
  rcases exists_tree valid with ⟨tree, parsed⟩
  exact ⟨tree, parsed, (compile_valid_iff parsed schema).mp valid⟩

end PacketSchema
