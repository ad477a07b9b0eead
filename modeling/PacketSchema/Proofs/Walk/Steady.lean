import PacketSchema.Proofs.Walk.Reach

/-!
# Walks that do not stop

A walk that was not asked to be fast visits everything, item by item, and what a statement or an
arm has inside is walked between what comes before it and what comes after. Such a walk never looks
at what it has reported: it comes to the same schema, and finds the same faults, whatever was
reported before it began.
-/

namespace PacketSchema

namespace Build

/-- The same build, with other faults found before. -/
def preceded (earlier : List Diagnostic) (build : Build) : Build :=
  ⟨build.schema, earlier ++ build.diagnostics⟩

variable {earlier : List Diagnostic} {build : Build} {scope : ScopeId}

@[simp] theorem preceded_schema : (build.preceded earlier).schema = build.schema := rfl

@[simp] theorem preceded_report (problems : List Diagnostic) :
    (build.preceded earlier).report problems = (build.report problems).preceded earlier := by
  rw [report, report, preceded, preceded, List.append_assoc]

@[simp] theorem preceded_note (location : Location) (error : SchemaError) :
    (build.preceded earlier).note location error = (build.note location error).preceded earlier :=
  preceded_report _

@[simp] theorem preceded_create_scope : (build.preceded earlier).createScope scope =
    ((build.createScope scope).1, (build.createScope scope).2.preceded earlier) := rfl

@[simp] theorem preceded_create_packet_scope (parent : Option PacketId) :
    (build.preceded earlier).createPacketScope parent =
      ((build.createPacketScope parent).1, (build.createPacketScope parent).2.preceded earlier) :=
  rfl

@[simp] theorem preceded_declare (field : Field) (location : Location) :
    (build.preceded earlier).declare scope field location =
      ((build.declare scope field location).1,
        (build.declare scope field location).2.preceded earlier) := by
  rw [declare, declare, preceded_schema]
  cases build.schema.appendField scope field with
  | error error => exact Prod.ext rfl (preceded_note location error)
  | ok grown => rfl

@[simp] theorem preceded_add_arm (ident : String) (location : Location) (arm : Arm)
    (refused : Option Union) :
    (build.preceded earlier).addArm scope ident location arm refused =
      ((build.addArm scope ident location arm refused).1,
        (build.addArm scope ident location arm refused).2.preceded earlier) := by
  cases refused with
  | none =>
      rw [addArm, addArm, preceded_schema]
      cases build.schema.appendArm scope ident arm with
      | error error => exact Prod.ext rfl (preceded_note location error)
      | ok grown => rfl
  | some choice =>
      rw [addArm, addArm]
      cases choice.append arm with
      | error error => exact Prod.ext rfl (preceded_note location error)
      | ok grown => rfl

@[simp] theorem preceded_register (packet : Packet) (location : Location)
    (derivation : Option Derivation) :
    (build.preceded earlier).register packet location derivation =
      (build.register packet location derivation).preceded earlier := by
  rw [register, register, preceded_schema]
  cases build.schema.appendPacket packet with
  | error error => exact preceded_note location error
  | ok answer =>
      match derivation with
      | none => rfl
      | some ⟨parent, .refused problems⟩ => rfl
      | some ⟨parent, .accepted condition⟩ =>
          simp only
          cases answer.2.appendChild parent answer.1 condition with
          | error error => exact @preceded_report earlier { build with schema := answer.2 } _
          | ok last => rfl

end Build

namespace Tree

/-- A walk of arms, with the union that they are for. -/
def walkArms (scope : ScopeId) (ident : String) (arms : List Arm)
    (start : Option Union × Build) : Option Union × Build :=
  arms.foldl (fun reached arm => arm.build false scope ident reached.1 reached.2) start

section Walking

variable {scope : ScopeId} {ident : String} {build : Build}

theorem buildArms_eq (arms : List Arm) (reached : Option Union × Build) :
    buildArms false scope ident arms reached.1 reached.2 =
      (walkArms scope ident arms reached).2 := by
  induction arms generalizing reached with
  | nil => rw [buildArms]; rfl
  | cons arm rest later =>
      rw [buildArms, if_neg reached.2.never_halted]
      exact later _

theorem union_build_eq (location : Location) (ident : Token) (arms : List Arm) :
    (Statement.union location ident arms).build false scope build =
      (walkArms scope ident.item arms (unionOpened scope location ident build)).2 := by
  rw [union_build_arms]
  exact buildArms_eq arms (unionOpened scope location ident build)

theorem buildBlock_cons (statement : Statement) (rest : List Statement) :
    buildBlock false scope (statement :: rest) build =
      buildBlock false scope rest (statement.build false scope build) := by
  rw [buildBlock, if_neg build.never_halted]

theorem buildBlock_append (first second : List Statement) :
    buildBlock false scope (first ++ second) build =
      buildBlock false scope second (buildBlock false scope first build) := by
  induction first generalizing build with
  | nil => rw [List.nil_append, buildBlock]
  | cons statement rest later => rw [List.cons_append, buildBlock_cons, buildBlock_cons, later]

theorem buildPackets_cons (packet : Packet) (rest : List Packet) :
    buildPackets false (packet :: rest) build =
      buildPackets false rest (packet.build false build) := by
  rw [buildPackets, if_neg build.never_halted]

/-- The packets of two lists are walked one list after the other. -/
theorem buildPackets_append (first second : List Packet) (build : Build) :
    buildPackets false (first ++ second) build =
      buildPackets false second (buildPackets false first build) := by
  induction first generalizing build with
  | nil => rw [List.nil_append, buildPackets]
  | cons packet rest later =>
      rw [List.cons_append, buildPackets_cons, buildPackets_cons, later]

end Walking

section Preceded

variable {earlier : List Diagnostic}

theorem union_opened_preceded (scope : ScopeId) (location : Location) (ident : Token)
    (build : Build) :
    unionOpened scope location ident (build.preceded earlier) =
      ((unionOpened scope location ident build).1,
        (unionOpened scope location ident build).2.preceded earlier) := by
  rw [unionOpened, Build.preceded_declare]
  rfl

theorem optional_opened_preceded (scope : ScopeId) (location : Location) (ident : Token)
    (condition : Disjunction) (build : Build) :
    optionalOpened scope location ident condition (build.preceded earlier) =
      (optionalOpened scope location ident condition build).preceded earlier := by
  rw [optionalOpened, optionalOpened, Build.preceded_schema, Build.preceded_create_scope]
  cases condition.resolve build.schema.forest scope with
  | refused problems => exact Build.preceded_report problems
  | accepted resolved => exact congrArg Prod.snd (Build.preceded_declare _ location)

theorem arm_opened_preceded (scope : ScopeId) (guard : Option Disjunction) (tag : Tag)
    (build : Build) :
    armOpened scope guard tag (build.preceded earlier) =
      (armOpened scope guard tag build).preceded earlier := by
  rw [armOpened, Build.preceded_report, Build.preceded_create_scope]
  rfl

theorem arm_closed_preceded {scope : ScopeId} {ident : String} {location : Location}
    {guard : Option Disjunction} {tag : Tag} {reached start : Option Union × Build}
    (union : reached.1 = start.1) (schema : reached.2.schema = start.2.schema) (walked : Build) :
    armClosed scope ident location guard tag reached (walked.preceded earlier) =
      ((armClosed scope ident location guard tag start walked).1,
        (armClosed scope ident location guard tag start walked).2.preceded earlier) := by
  rw [armClosed, armClosed, armChecked, armChecked, union, schema]
  split
  · rfl
  · exact Build.preceded_add_arm ident location _ _

/-- Whatever was reported before, a walk comes to the same, and leaves it reported before. -/
def Account.steadiness (earlier : List Diagnostic) : Account where
  statement statement scope before after :=
    statement.build false scope (before.preceded earlier) = after.preceded earlier
  arm arm scope ident before after :=
    arm.build false scope ident before.1 (before.2.preceded earlier) =
      (after.1, after.2.preceded earlier)
  block body scope before after :=
    buildBlock false scope body (before.preceded earlier) = after.preceded earlier
  arms arms scope ident before after :=
    buildArms false scope ident arms before.1 (before.2.preceded earlier) = after.preceded earlier

/-- All checks are made against the schema, which is the same one, so they answer the same. -/
theorem walks_steady : (Account.steadiness earlier).Holds false where
  always location ident descriptor scope build := by
    change (Statement.always location ident descriptor).build false scope (build.preceded earlier) =
      _
    rw [always_build_eq, always_build_eq, Build.preceded_schema]
    cases descriptor.resolve build.schema.forest scope ident.item with
    | refused problems => exact Build.preceded_report problems
    | accepted encoding => exact congrArg Prod.snd (Build.preceded_declare _ location)
  optional location ident condition body scope build inside := by
    change (Statement.optional location ident condition body).build false scope
      (build.preceded earlier) = _
    rw [optional_build_eq, optional_opened_preceded]
    exact inside
  union location ident arms scope build inside := by
    change (Statement.union location ident arms).build false scope (build.preceded earlier) = _
    rw [union_build_arms, union_opened_preceded]
    exact inside
  arm location guard tag body scope ident reached inside := by
    have later := @arm_build_eq false scope ident location guard tag body
      (reached.1, reached.2.preceded earlier)
    have walked : buildBlock false ⟨reached.2.schema.forest.size⟩ body
        ((armOpened scope guard tag reached.2).preceded earlier) = _ := inside
    change (Arm.mk location guard tag body).build false scope ident reached.1
      (reached.2.preceded earlier) = _
    rw [later, arm_opened_preceded, Build.preceded_schema, walked]
    exact arm_closed_preceded rfl rfl _
  still body scope build ended := by
    rw [ended.resolve_right build.never_halted]
    change buildBlock false scope [] (build.preceded earlier) = _
    rw [buildBlock]
  goes_on statement rest scope build first later := by
    have walked : statement.build false scope (build.preceded earlier) = _ := first
    change buildBlock false scope (statement :: rest) (build.preceded earlier) = _
    rw [buildBlock_cons, walked]
    exact later
  arms_still arms scope ident reached ended := by
    rw [ended.resolve_right reached.2.never_halted]
    change buildArms false scope ident [] reached.1 (reached.2.preceded earlier) = _
    rw [buildArms]
  arms_go_on arm rest scope ident reached first later := by
    have walked : arm.build false scope ident reached.1 (reached.2.preceded earlier) = _ := first
    change buildArms false scope ident (arm :: rest) reached.1 (reached.2.preceded earlier) = _
    rw [buildArms, if_neg (Build.never_halted _), walked]
    exact later

theorem buildBlock_preceded (body : List Statement) (scope : ScopeId) (build : Build) :
    buildBlock false scope body (build.preceded earlier) =
      (buildBlock false scope body build).preceded earlier :=
  walks_steady.block body scope build

theorem walk_arms_preceded (arms : List Arm) (scope : ScopeId) (ident : String)
    (refused : Option Union) (build : Build) :
    walkArms scope ident arms (refused, build.preceded earlier) =
      ((walkArms scope ident arms (refused, build)).1,
        (walkArms scope ident arms (refused, build)).2.preceded earlier) := by
  induction arms generalizing refused build with
  | nil => rfl
  | cons arm rest later =>
      have first : arm.build false scope ident refused (build.preceded earlier) = _ :=
        walks_steady.arm_built arm scope ident (refused, build)
      rw [walkArms, walkArms, List.foldl_cons, List.foldl_cons, first]
      exact later _ _

theorem Packet.build_preceded (packet : Packet) (build : Build) :
    packet.build false (build.preceded earlier) = (packet.build false build).preceded earlier := by
  have opened : packet.opened (build.preceded earlier) =
      ((packet.opened build).1, (packet.opened build).2.preceded earlier) := by
    rw [Packet.opened, Build.preceded_report, Build.preceded_create_packet_scope]
    rfl
  rw [packet.build_eq, packet.build_eq, opened, buildBlock_preceded, Build.preceded_register]
  rfl

theorem buildPackets_preceded (packets : List Packet) (build : Build) :
    buildPackets false packets (build.preceded earlier) =
      (buildPackets false packets build).preceded earlier := by
  induction packets generalizing build with
  | nil => rw [buildPackets, buildPackets]
  | cons packet rest later =>
      rw [buildPackets_cons, buildPackets_cons, packet.build_preceded, later]

end Preceded

end Tree

end PacketSchema
