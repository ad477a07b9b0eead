import PacketSchema.Proofs.Grammar.Standing
import PacketSchema.Proofs.Image.Faithful
import PacketSchema.Proofs.Walk.Steady
import PacketSchema.Proofs.Walk.Visits

/-!
# Statements that leave no trace

An always statement either adds one field to its scope or is reported and adds nothing. The one
that is reported might as well not stand in the text: the walk goes on behind it with the schema
that it was given, and what it has reported makes no difference.
-/

namespace PacketSchema

namespace Tree

/-- A place in a block or inside a statement of it: all that stands around the place. -/
inductive BlockHole where
  | here (earlier later : List Statement)
  | optional (earlier : List Statement) (location : Location) (ident : Token)
      (condition : Disjunction) (body : BlockHole) (later : List Statement)
  | arm (earlier : List Statement) (location : Location) (ident : Token) (above : List Arm)
      (place : Location) (guard : Option Disjunction) (tag : Tag) (body : BlockHole)
      (below : List Arm) (later : List Statement)

structure Station where
  scope : ScopeId
  build : Build

namespace BlockHole

def fill (inside : List Statement) : BlockHole → List Statement
  | .here earlier later => earlier ++ (inside ++ later)
  | .optional earlier location ident condition body later =>
      earlier ++ .optional location ident condition (body.fill inside) :: later
  | .arm earlier location ident above place guard tag body below later =>
      earlier ++
        .union location ident (above ++ .mk place guard tag (body.fill inside) :: below) :: later

def station : BlockHole → ScopeId → Build → Station
  | .here earlier _, scope, build => ⟨scope, buildBlock false scope earlier build⟩
  | .optional earlier location ident condition body _, scope, build =>
      let reached := buildBlock false scope earlier build
      body.station ⟨reached.schema.forest.size⟩
        (optionalOpened scope location ident condition reached)
  | .arm earlier location ident above _ guard tag body _ _, scope, build =>
      let reached := walkArms scope ident.item above
        (unionOpened scope location ident (buildBlock false scope earlier build))
      body.station ⟨reached.2.schema.forest.size⟩ (armOpened scope guard tag reached.2)

def resume : BlockHole → ScopeId → Build → Build → Build
  | .here _ later, scope, _, after => buildBlock false scope later after
  | .optional earlier location ident condition body later, scope, build, after =>
      let reached := buildBlock false scope earlier build
      buildBlock false scope later (body.resume ⟨reached.schema.forest.size⟩
        (optionalOpened scope location ident condition reached) after)
  | .arm earlier location ident above place guard tag body below later, scope, build, after =>
      let reached := walkArms scope ident.item above
        (unionOpened scope location ident (buildBlock false scope earlier build))
      let walked := body.resume ⟨reached.2.schema.forest.size⟩
        (armOpened scope guard tag reached.2) after
      buildBlock false scope later (walkArms scope ident.item below
        (armClosed scope ident.item place guard tag reached walked)).2

/-- A walk comes to the place, walks what stands there and goes on. -/
theorem build_fill (inside : List Statement) : ∀ (hole : BlockHole) (scope : ScopeId)
    (build : Build), buildBlock false scope (hole.fill inside) build =
      hole.resume scope build (buildBlock false (hole.station scope build).scope inside
        (hole.station scope build).build)
  | .here earlier later, scope, build => by
      rw [fill, buildBlock_append, buildBlock_append]
      rfl
  | .optional earlier location ident condition body later, scope, build => by
      rw [fill, buildBlock_append, buildBlock_cons, optional_build_eq, build_fill inside body]
      rfl
  | .arm earlier location ident above place guard tag body below later, scope, build => by
      rw [fill, buildBlock_append, buildBlock_cons, union_build_eq, walkArms, List.foldl_append,
        List.foldl_cons, arm_build_eq, build_fill inside body]
      rfl

theorem resume_preceded {earlier : List Diagnostic} : ∀ (hole : BlockHole) (scope : ScopeId)
    (build after : Build), hole.resume scope build (after.preceded earlier) =
      (hole.resume scope build after).preceded earlier
  | .here _ later, scope, _, after => buildBlock_preceded later scope after
  | .optional _ _ _ _ body later, scope, build, after => by
      rw [resume, resume_preceded body]
      exact buildBlock_preceded later scope _
  | .arm _ _ ident _ _ _ _ body below later, scope, build, after => by
      rw [resume, resume_preceded body, arm_closed_preceded rfl rfl, walk_arms_preceded]
      exact buildBlock_preceded later scope _

def among (before after : List Statement) : BlockHole → BlockHole
  | .here earlier later => .here (before ++ earlier) (later ++ after)
  | .optional earlier location ident condition body later =>
      .optional (before ++ earlier) location ident condition body (later ++ after)
  | .arm earlier location ident above place guard tag body below later =>
      .arm (before ++ earlier) location ident above place guard tag body below (later ++ after)

theorem fill_among (before after inside : List Statement) (hole : BlockHole) :
    (hole.among before after).fill inside = before ++ hole.fill inside ++ after := by
  cases hole <;> simp only [among, fill, List.append_assoc, List.cons_append]

end BlockHole

mutual

/-- Every statement that is listed for a statement has a place in it. -/
theorem Statement.hole_of_site : ∀ (statement : Statement) {visible : List Binding} {site : Site},
    site ∈ statement.sites visible →
      ∃ hole : BlockHole, hole.fill [site.statement] = [statement]
  | .always location ident descriptor, visible, site, member => by
      rw [Statement.sites] at member
      cases List.mem_singleton.mp member
      exact ⟨.here [] [], rfl⟩
  | .optional location ident condition body, visible, site, member => by
      rw [Statement.sites] at member
      rcases List.mem_cons.mp member with rfl | inside
      · exact ⟨.here [] [], rfl⟩
      · obtain ⟨hole, filled⟩ := block_hole_of_site body inside
        refine ⟨.optional [] location ident condition hole [], ?_⟩
        rw [BlockHole.fill, filled]
        rfl
  | .union location ident arms, visible, site, member => by
      rw [Statement.sites] at member
      rcases List.mem_cons.mp member with rfl | inside
      · exact ⟨.here [] [], rfl⟩
      · obtain ⟨above, place, guard, tag, hole, below, filled⟩ := arms_hole_of_site arms inside
        refine ⟨.arm [] location ident above place guard tag hole below [], ?_⟩
        rw [BlockHole.fill, filled]
        rfl

theorem Arm.hole_of_site : ∀ (arm : Arm) {visible : List Binding} {site : Site},
    site ∈ arm.sites visible → ∃ place guard tag, ∃ hole : BlockHole,
      Arm.mk place guard tag (hole.fill [site.statement]) = arm
  | .mk place guard tag body, visible, site, member => by
      rw [Arm.sites] at member
      obtain ⟨hole, filled⟩ := block_hole_of_site body member
      exact ⟨place, guard, tag, hole, by rw [filled]⟩

theorem block_hole_of_site : ∀ (body : List Statement) {visible : List Binding} {site : Site},
    site ∈ blockSites visible body → ∃ hole : BlockHole, hole.fill [site.statement] = body
  | [], visible, site, member => by
      rw [blockSites] at member
      cases member
  | statement :: rest, visible, site, member => by
      rw [blockSites] at member
      rcases List.mem_append.mp member with first | others
      · obtain ⟨hole, filled⟩ := statement.hole_of_site first
        refine ⟨hole.among [] rest, ?_⟩
        rw [BlockHole.fill_among, filled]
        rfl
      · obtain ⟨hole, filled⟩ := block_hole_of_site rest others
        refine ⟨hole.among [statement] [], ?_⟩
        rw [BlockHole.fill_among, filled, List.append_nil]
        rfl

theorem arms_hole_of_site : ∀ (arms : List Arm) {visible : List Binding} {site : Site},
    site ∈ armSites visible arms → ∃ above place guard tag, ∃ hole : BlockHole, ∃ below,
      above ++ Arm.mk place guard tag (hole.fill [site.statement]) :: below = arms
  | [], visible, site, member => by
      rw [armSites] at member
      cases member
  | arm :: rest, visible, site, member => by
      rw [armSites] at member
      rcases List.mem_append.mp member with first | others
      · obtain ⟨place, guard, tag, hole, rfl⟩ := arm.hole_of_site first
        exact ⟨[], place, guard, tag, hole, rest, rfl⟩
      · obtain ⟨above, place, guard, tag, hole, below, rfl⟩ := arms_hole_of_site rest others
        exact ⟨arm :: above, place, guard, tag, hole, below, rfl⟩

end

structure ModuleHole where
  earlier : List Packet
  ident : Token
  inheritance : Option Inheritance
  body : BlockHole
  later : List Packet
  finish : Location

namespace ModuleHole

variable (hole : ModuleHole)

def packet (inside : List Statement) : Packet :=
  ⟨hole.ident, hole.inheritance, hole.body.fill inside⟩

def fill (inside : List Statement) : Module :=
  ⟨hole.earlier ++ hole.packet inside :: hole.later, hole.finish⟩

/-- The visit of the packet around the place, whose own statements are not looked at yet. -/
def visit : Visit := ⟨hole.packet [], buildPackets false hole.earlier .empty⟩

def station : Station := hole.body.station hole.visit.scope hole.visit.opened

def resume (after : Build) : Build :=
  buildPackets false hole.later
    ((hole.body.resume hole.visit.scope hole.visit.opened after).register hole.visit.record
      hole.ident.location hole.visit.derivation)

theorem build_fill (inside : List Statement) :
    (hole.fill inside).build false =
      hole.resume (buildBlock false hole.station.scope inside hole.station.build) := by
  rw [Module.build, fill, buildPackets_append, buildPackets_cons, Packet.build_eq]
  exact congrArg (fun walked => buildPackets false hole.later
      (Build.register walked hole.visit.record hole.ident.location hole.visit.derivation))
    (hole.body.build_fill inside hole.visit.scope hole.visit.opened)

theorem resume_preceded (earlier : List Diagnostic) (after : Build) :
    hole.resume (after.preceded earlier) = (hole.resume after).preceded earlier := by
  rw [resume, hole.body.resume_preceded, Build.preceded_register, buildPackets_preceded]
  rfl

def visited (statement : Statement) : Build :=
  statement.build false hole.station.scope hole.station.build

theorem build_visited (statement : Statement) :
    (hole.fill [statement]).build false = hole.resume (hole.visited statement) := by
  rw [build_fill, buildBlock_cons, buildBlock]
  rfl

/-- What stands at a place that adds nothing to the schema can be left out: the rest of the walk
comes to the same schema and reports the same faults. -/
theorem build_left_out {statement : Statement} {problems : List Diagnostic}
    (reported : hole.visited statement = hole.station.build.report problems) :
    ∃ schema later,
      (hole.fill [statement]).build false =
        ⟨schema, hole.station.build.diagnostics ++ problems ++ later⟩ ∧
      (hole.fill []).build false = ⟨schema, hole.station.build.diagnostics ++ later⟩ := by
  -- Both walks go on as one that begins at the place and has found nothing yet.
  let rest := hole.resume ⟨hole.station.build.schema, []⟩
  have goes : ∀ found : List Diagnostic, hole.resume ⟨hole.station.build.schema, found⟩ =
      ⟨rest.schema, found ++ rest.diagnostics⟩ := by
    intro found
    have same := hole.resume_preceded found ⟨hole.station.build.schema, []⟩
    rwa [Build.preceded, List.append_nil] at same
  refine ⟨rest.schema, rest.diagnostics, ?_, ?_⟩
  · rw [build_visited, reported]
    exact goes _
  · rw [build_fill, buildBlock]
    exact goes _

end ModuleHole

/-- Every statement that is listed for a module has a place in it. -/
theorem Module.hole_of_site {tree : Module} {site : Site} (member : site ∈ tree.sites) :
    ∃ hole : ModuleHole, hole.fill [site.statement] = tree := by
  obtain ⟨packet, listed, inside⟩ := List.mem_flatMap.mp member
  obtain ⟨earlier, later, whole⟩ := List.append_of_mem (packet_of_site listed)
  obtain ⟨hole, filled⟩ := block_hole_of_site packet.packet.body inside
  refine ⟨⟨earlier, packet.packet.ident, packet.packet.inheritance, hole, later, tree.finish⟩, ?_⟩
  rw [ModuleHole.fill, ModuleHole.packet, filled, ← whole]

end Tree

/-- A build with one field more at the end of a scope, and nothing else changed. -/
structure Build.Appends (scope : ScopeId) (field : Field) (before after : Build) : Prop where
  packets : after.schema.packets = before.schema.packets
  size : after.schema.forest.size = before.schema.forest.size
  own : ∃ present, before.schema.forest.scope? scope = some present ∧
    after.schema.forest.scope? scope = some ⟨present.parent, present.fields ++ [field]⟩
  others : ∀ id, id ≠ scope → after.schema.forest.scope? id = before.schema.forest.scope? id
  diagnostics : after.diagnostics = before.diagnostics

theorem Build.appends_of_declared {build : Build} {scope : ScopeId} {field : Field}
    {grown : Schema} (accepted : build.schema.appendField scope field = .ok grown) :
    build.Appends scope field { build with schema := grown } := by
  obtain ⟨appended, packets⟩ := Schema.append_field_eq_ok accepted
  obtain ⟨fresh, updated⟩ := ScopeForest.append_eq_ok appended
  obtain ⟨present, found⟩ :=
    ScopeForest.issued_iff_scope.mp (ScopeForest.issued_of_lookup fresh)
  refine ⟨packets, Schema.size_appended accepted, ⟨present, found, ?_⟩, ?_, rfl⟩
  · exact Schema.scope_appended found accepted
  · intro id different
    rw [updated, ScopeForest.scope_update_fields_ne different]

/-- The visit of an always statement adds its field, or reports and changes nothing else. -/
theorem Tree.always_build_cases (location : Location) (ident : Token) (descriptor : Descriptor)
    (scope : ScopeId) (build : Build) :
    (∃ encoding, descriptor.resolve build.schema.forest scope ident.item = .accepted encoding ∧
      build.Appends scope (.always ident.item encoding)
        ((Statement.always location ident descriptor).build false scope build)) ∨
    ∃ problems, problems ≠ [] ∧
      (Statement.always location ident descriptor).build false scope build =
        build.report problems := by
  rw [Statement.build]
  cases checked : descriptor.resolve build.schema.forest scope ident.item with
  | refused problems =>
      refine .inr ⟨problems, ?_, rfl⟩
      rintro rfl
      exact descriptor.reasoned ident.item checked
  | accepted encoding =>
      rcases build.declare_cases scope (.always ident.item encoding) location with
        ⟨error, -, same⟩ | ⟨grown, accepted, same⟩
      · simp only [same]
        exact .inr ⟨_, List.cons_ne_nil _ _, rfl⟩
      · simp only [same]
        exact .inl ⟨encoding, rfl, Build.appends_of_declared accepted⟩

open PacketSchema.Tree in
/-- The visit of an always statement reports nothing and appends one field to the scope of its
block, or reports something and leaves the schema as it was. One that was reported can be left out
of the tree: the schema stays the same, and of the faults only its own are gone. -/
theorem always_appended_or_reported {source : String} {tree : Tree.Module}
    (parsed : Grammar.parse source = .ok tree) :
    (∀ site ∈ tree.sites, ∃ hole : ModuleHole, hole.fill [site.statement] = tree) ∧
    ∀ (hole : ModuleHole) (location : Location) (ident : Token) (descriptor : Descriptor),
      hole.fill [.always location ident descriptor] = tree →
      tree.build false = hole.resume (hole.visited (.always location ident descriptor)) ∧
      ∃ problems,
        (hole.visited (.always location ident descriptor)).diagnostics =
          hole.station.build.diagnostics ++ problems ∧
        (problems = [] → ∃ encoding,
          descriptor.resolve hole.station.build.schema.forest hole.station.scope ident.item =
            .accepted encoding ∧
          hole.station.build.Appends hole.station.scope (.always ident.item encoding)
            (hole.visited (.always location ident descriptor))) ∧
        (problems ≠ [] →
          (hole.visited (.always location ident descriptor)).schema =
            hole.station.build.schema ∧
          ∃ schema later,
            compile false source =
              .ok ⟨schema, hole.station.build.diagnostics ++ problems ++ later⟩ ∧
            (hole.fill []).build false =
              ⟨schema, hole.station.build.diagnostics ++ later⟩) := by
  refine ⟨fun site member => Module.hole_of_site member, ?_⟩
  rintro hole location ident descriptor rfl
  refine ⟨hole.build_visited _, ?_⟩
  rcases always_build_cases location ident descriptor hole.station.scope hole.station.build with
    ⟨encoding, accepted, appended⟩ | ⟨problems, some, reported⟩
  · refine ⟨[], ?_, fun _ => ⟨encoding, accepted, appended⟩, fun some => absurd rfl some⟩
    rw [List.append_nil]
    exact appended.diagnostics
  · refine ⟨problems, ?_, fun none => absurd none some, fun _ => ⟨?_, ?_⟩⟩
    · rw [ModuleHole.visited, reported]
      rfl
    · rw [ModuleHole.visited, reported]
      rfl
    · obtain ⟨schema, later, whole, without⟩ := hole.build_left_out reported
      refine ⟨schema, later, ?_, without⟩
      rw [compile_eq_build parsed, whole]

/-- A field with two faults inside a block, a field behind it, and a packet that derives from
theirs and has a fault of its own. -/
def droppedFieldText : String :=
  "P " ++ braced ("always a uint: 1 bytes;\noptional o when (&a == 1) " ++
    braced "\n  always data uint: &len bytes: &cnt;\n  always next uint: &a bytes;") ++
  "\nQ: P (&a == 2) " ++ braced "always b sint;"

def droppedField? : Tree.Module → Option (Tree.ModuleHole × Tree.Statement)
  | ⟨[⟨ident, clause, [first, .optional place name condition
      [.always location field descriptor, next]]⟩, last], finish⟩ =>
      some (⟨[], ident, clause, .optional [first] place name condition (.here [] [next]) [],
        [last], finish⟩, .always location field descriptor)
  | _ => none

theorem dropped_field_fills {tree : Tree.Module} {hole : Tree.ModuleHole}
    {statement : Tree.Statement} (found : droppedField? tree = some (hole, statement)) :
    hole.fill [statement] = tree ∧
      ∃ location field descriptor, statement = .always location field descriptor := by
  unfold droppedField? at found
  split at found
  · cases found
    exact ⟨rfl, _, _, _, rfl⟩
  · cases found

theorem dropped_field_leaves_no_trace :
    ∃ (hole : Tree.ModuleHole) (location : Location) (ident : Tree.Token)
        (descriptor : Tree.Descriptor) (schema : Schema),
      Grammar.parse droppedFieldText = .ok (hole.fill [.always location ident descriptor]) ∧
      compile false droppedFieldText = .ok ⟨schema,
        [⟨⟨3, 21⟩, .unresolvedReference "len" .notVisible⟩,
          ⟨⟨3, 33⟩, .unresolvedReference "cnt" .notVisible⟩,
          ⟨⟨5, 27⟩, .bareDescriptor "b"⟩]⟩ ∧
      (hole.fill []).build false = ⟨schema, [⟨⟨5, 27⟩, .bareDescriptor "b"⟩]⟩ := by
  have passed : (Grammar.parse droppedFieldText).toOption.any (fun tree =>
      (droppedField? tree).any fun found =>
        decide (found.1.station.build.diagnostics = [] ∧
          (found.1.visited found.2).diagnostics =
            [⟨⟨3, 21⟩, .unresolvedReference "len" .notVisible⟩,
              ⟨⟨3, 33⟩, .unresolvedReference "cnt" .notVisible⟩] ∧
          ((found.1.fill []).build false).diagnostics =
            [⟨⟨5, 27⟩, .bareDescriptor "b"⟩])) = true := by
    decide +kernel
  obtain ⟨tree, parsed, tested⟩ := exists_ok passed
  obtain ⟨⟨hole, statement⟩, found, outcome⟩ := (Option.any_eq_true _ _).mp tested
  obtain ⟨clean, own, left⟩ := of_decide_eq_true outcome
  obtain ⟨rfl, location, field, descriptor, rfl⟩ := dropped_field_fills found
  obtain ⟨-, visits⟩ := always_appended_or_reported parsed
  obtain ⟨-, problems, diagnostics, -, reported⟩ := visits hole location field descriptor rfl
  rw [clean, own, List.nil_append] at diagnostics
  subst diagnostics
  obtain ⟨-, schema, later, compiled, without⟩ := reported (List.cons_ne_nil _ _)
  rw [clean, List.nil_append] at compiled without
  rw [without] at left
  cases left
  exact ⟨hole, location, field, descriptor, schema, parsed, compiled, without⟩

end PacketSchema
