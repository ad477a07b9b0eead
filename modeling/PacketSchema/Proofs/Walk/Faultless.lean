import PacketSchema.Proofs.Walk.Reach

/-!
# Walks without faults

A walk that finds no fault needs neither diagnostics nor a way to go on after one. The faultless
walk of a body is that walk alone: it answers the schema, or nothing as soon as a fault is met.
The building walk follows it: it builds that schema and reports nothing, or it reports
something, whether it is fast or not. What holds of valid schemas is proved of the faultless walk.
-/

namespace PacketSchema

def Checked.accepted? {Item : Type} : Checked Item → Option Item
  | .accepted item => some item
  | .refused _ => none

theorem Checked.accepted_eq_some {Item : Type} {checked : Checked Item} {item : Item} :
    checked.accepted? = some item ↔ checked = .accepted item := by
  cases checked <;> simp [accepted?]

theorem to_option_eq_some {Item : Type} {answer : Except SchemaError Item} {item : Item} :
    answer.toOption = some item ↔ answer = .ok item := by
  cases answer <;> simp [Except.toOption]

namespace Tree

mutual

def Statement.faultless (scope : ScopeId) : Statement → Schema → Option Schema
  | .always _ ident descriptor, schema =>
      (descriptor.resolve schema.forest scope ident.item).accepted?.bind fun encoding =>
        (schema.appendField scope (.always ident.item encoding)).toOption
  | .optional _ ident condition body, schema =>
      (condition.resolve schema.forest scope).accepted?.bind fun resolved =>
        ((schema.createScope (some scope)).2.appendField scope
          (.optional ident.item resolved ⟨schema.forest.size⟩)).toOption.bind fun declared =>
            faultlessBlock ⟨schema.forest.size⟩ body declared
  | .union _ ident arms, schema =>
      (schema.appendField scope (.union (.empty ident.item))).toOption.bind fun declared =>
        faultlessArms scope ident.item arms declared

def Arm.faultless (scope : ScopeId) (ident : String) : Arm → Schema → Option Schema
  | .mk _ guard tag body, schema =>
      (Checked.both Prod.mk
        (.option (fun written => written.resolve schema.forest scope) guard)
        tag.resolve).accepted?.bind fun checked =>
          (faultlessBlock ⟨schema.forest.size⟩ body (schema.createScope (some scope)).2).bind
            fun walked => (walked.appendArm scope ident
              ⟨checked.1, checked.2, ⟨schema.forest.size⟩⟩).toOption

def faultlessBlock (scope : ScopeId) : List Statement → Schema → Option Schema
  | [], schema => some schema
  | statement :: rest, schema =>
      (statement.faultless scope schema).bind fun walked => faultlessBlock scope rest walked

def faultlessArms (scope : ScopeId) (ident : String) : List Arm → Schema → Option Schema
  | [], schema => some schema
  | arm :: rest, schema =>
      (arm.faultless scope ident schema).bind fun walked =>
        faultlessArms scope ident rest walked

end

variable {scope : ScopeId} {location : Location} {ident : Token} {schema grown : Schema}

theorem faultless_always_eq_some {descriptor : Descriptor} :
    (Statement.always location ident descriptor).faultless scope schema = some grown ↔
      ∃ encoding, descriptor.resolve schema.forest scope ident.item = .accepted encoding ∧
        schema.appendField scope (.always ident.item encoding) = .ok grown := by
  simp only [Statement.faultless, Option.bind_eq_some_iff, Checked.accepted_eq_some,
    to_option_eq_some]

theorem faultless_optional_eq_some {condition : Disjunction} {body : List Statement} :
    (Statement.optional location ident condition body).faultless scope schema = some grown ↔
      ∃ resolved, condition.resolve schema.forest scope = .accepted resolved ∧
        ∃ declared, (schema.createScope (some scope)).2.appendField scope
            (.optional ident.item resolved ⟨schema.forest.size⟩) = .ok declared ∧
          faultlessBlock ⟨schema.forest.size⟩ body declared = some grown := by
  simp only [Statement.faultless, Option.bind_eq_some_iff, Checked.accepted_eq_some,
    to_option_eq_some]

theorem faultless_union_eq_some {arms : List Arm} :
    (Statement.union location ident arms).faultless scope schema = some grown ↔
      ∃ declared, schema.appendField scope (.union (.empty ident.item)) = .ok declared ∧
        faultlessArms scope ident.item arms declared = some grown := by
  simp only [Statement.faultless, Option.bind_eq_some_iff, to_option_eq_some]

theorem faultless_arm_eq_some {name : String} {guard : Option Disjunction} {tag : Tag}
    {body : List Statement} :
    (Arm.mk location guard tag body).faultless scope name schema = some grown ↔
      ∃ condition, Checked.option (fun written : Disjunction =>
          written.resolve schema.forest scope) guard = .accepted condition ∧
        ∃ resolved, tag.resolve = .accepted resolved ∧
          ∃ walked, faultlessBlock ⟨schema.forest.size⟩ body (schema.createScope (some scope)).2 =
              some walked ∧
            walked.appendArm scope name ⟨condition, resolved, ⟨schema.forest.size⟩⟩ =
              .ok grown := by
  simp only [Arm.faultless, Option.bind_eq_some_iff, Checked.accepted_eq_some, to_option_eq_some,
    Checked.both_eq_accepted]
  constructor
  · intro answered
    rcases answered with ⟨_, ⟨condition, resolved, guardFound, tagFound, rfl⟩, rest⟩
    exact ⟨condition, guardFound, resolved, tagFound, rest⟩
  · intro answered
    rcases answered with ⟨condition, guardFound, resolved, tagFound, rest⟩
    exact ⟨_, ⟨condition, resolved, guardFound, tagFound, rfl⟩, rest⟩

theorem faultless_block_cons_eq_some {statement : Statement} {rest : List Statement} :
    faultlessBlock scope (statement :: rest) schema = some grown ↔
      ∃ walked, statement.faultless scope schema = some walked ∧
        faultlessBlock scope rest walked = some grown := by
  simp only [faultlessBlock, Option.bind_eq_some_iff]

theorem faultless_arms_cons_eq_some {name : String} {arm : Arm} {rest : List Arm} :
    faultlessArms scope name (arm :: rest) schema = some grown ↔
      ∃ walked, arm.faultless scope name schema = some walked ∧
        faultlessArms scope name rest walked = some grown := by
  simp only [faultlessArms, Option.bind_eq_some_iff]

end Tree

/-- A build follows a faultless walk: it has the schema and no diagnostic where there is one, and
a diagnostic where there is none. -/
def Build.Follows (build : Build) (answer : Option Schema) : Prop :=
  match answer with
  | some schema => build = ⟨schema, []⟩
  | none => build.diagnostics ≠ []

namespace Build

variable {scope : ScopeId} {schema : Schema}

theorem faulty_of_prefix {before after : Build} (kept : before.diagnostics <+: after.diagnostics)
    (faulty : before.diagnostics ≠ []) : after.diagnostics ≠ [] := by
  intro clean
  rw [clean] at kept
  exact faulty (List.prefix_nil.mp kept)

theorem ConfinedTo.faulty {before after : Build} (confined : ConfinedTo scope before after)
    (faulty : before.diagnostics ≠ []) : after.diagnostics ≠ [] :=
  faulty_of_prefix confined.diagnostics faulty

theorem follows_declare (scope : ScopeId) (field : Field) (location : Location) (schema : Schema) :
    (Build.declare ⟨schema, []⟩ scope field location).2.Follows
      (schema.appendField scope field).toOption := by
  unfold declare
  cases schema.appendField scope field with
  | error error => simp [Follows, Except.toOption, note, report]
  | ok grown => simp [Follows, Except.toOption]

theorem follows_add_arm (scope : ScopeId) (ident : String) (location : Location) (arm : Arm)
    (schema : Schema) :
    (Build.addArm ⟨schema, []⟩ scope ident location arm none).2.Follows
      (schema.appendArm scope ident arm).toOption := by
  unfold addArm
  cases schema.appendArm scope ident arm with
  | error error => simp [Follows, Except.toOption, note, report]
  | ok grown => simp [Follows, Except.toOption]

theorem own_union_kept (build : Build) (scope : ScopeId) (ident : String) (location : Location)
    (arm : Arm) : (build.addArm scope ident location arm none).1 = none := by
  unfold addArm
  cases build.schema.appendArm scope ident arm <;> rfl

theorem follows_refusal {Item : Type} {checked : Checked Item} {problems : List Diagnostic}
    (reasoned : checked.Reasoned) (refused : checked = .refused problems) (build : Build) :
    (build.report problems).diagnostics ≠ [] := by
  subst refused
  intro clean
  have empty := (List.append_eq_nil_iff.mp clean).2
  exact reasoned (congrArg Checked.refused empty)

theorem not_halted (failFast : Bool) {build : Build} (clean : build.diagnostics = []) :
    build.halted failFast = false := by
  simp [halted, clean]

/-- A walk goes on after a faultless part and stays faulty after any other. -/
theorem Follows.bind {build : Build} {answer : Option Schema} {nextAnswer : Schema → Option Schema}
    (follows : build.Follows answer) (next : Build → Build)
    (kept : build.diagnostics <+: (next build).diagnostics)
    (continues : ∀ schema, answer = some schema →
      (next ⟨schema, []⟩).Follows (nextAnswer schema)) :
    (next build).Follows (answer.bind nextAnswer) := by
  cases answer with
  | none => exact faulty_of_prefix kept follows
  | some schema =>
      change build = ⟨schema, []⟩ at follows
      subst follows
      exact continues schema rfl

end Build

namespace Tree

section Clean

variable {build : Build} (failFast : Bool) (clean : build.diagnostics = [])

include clean

/-- A walk that has met no fault goes on. -/
theorem block_goes_on (statement : Statement) (rest : List Statement) (scope : ScopeId) :
    buildBlock failFast scope (statement :: rest) build =
      buildBlock failFast scope rest (statement.build failFast scope build) := by
  rw [buildBlock, Build.not_halted failFast clean, if_neg Bool.false_ne_true]

theorem arms_go_on (arm : Arm) (rest : List Arm) (scope : ScopeId) (ident : String)
    (refused : Option Union) :
    buildArms failFast scope ident (arm :: rest) refused build =
      buildArms failFast scope ident rest (arm.build failFast scope ident refused build).1
        (arm.build failFast scope ident refused build).2 := by
  rw [buildArms, Build.not_halted failFast clean, if_neg Bool.false_ne_true]

theorem packets_go_on (packet : Packet) (rest : List Packet) :
    buildPackets failFast (packet :: rest) build =
      buildPackets failFast rest (packet.build failFast build) := by
  rw [buildPackets, Build.not_halted failFast clean, if_neg Bool.false_ne_true]

end Clean

variable {failFast : Bool}

/-- A union that was declared stays the one that takes the arms. -/
theorem Arm.own_union_kept (arm : Arm) (scope : ScopeId) (ident : String) (build : Build) :
    (arm.build failFast scope ident none build).1 = none := by
  cases arm with
  | mk location guard tag body =>
      rw [Arm.build]
      generalize Checked.both Prod.mk
        (.option (fun written => written.resolve build.schema.forest scope) guard)
        tag.resolve = checked
      cases checked with
      | refused problems => rfl
      | accepted resolved => exact Build.own_union_kept _ scope ident location _

mutual

theorem Statement.build_follows : ∀ (statement : Statement) (scope : ScopeId) (schema : Schema),
    (statement.build failFast scope ⟨schema, []⟩).Follows (statement.faultless scope schema)
  | .always location ident descriptor, scope, schema => by
      rw [Statement.build, Statement.faultless]
      cases checked : descriptor.resolve schema.forest scope ident.item with
      | refused problems =>
          exact Build.follows_refusal (descriptor.reasoned ident.item) checked ⟨schema, []⟩
      | accepted encoding => exact Build.follows_declare scope _ location schema
  | .optional location ident condition body, scope, schema => by
      rw [Statement.build, Statement.faultless]
      cases checked : condition.resolve schema.forest scope with
      | refused problems =>
          have faulty := Build.follows_refusal condition.reasoned checked
            (Build.createScope ⟨schema, []⟩ scope).2
          exact (buildBlock_confined body _ _).faulty faulty
      | accepted resolved =>
          have declared := Build.follows_declare scope
            (.optional ident.item resolved ⟨schema.forest.size⟩) location
            (schema.createScope (some scope)).2
          exact declared.bind (buildBlock failFast ⟨schema.forest.size⟩ body)
            (buildBlock_confined body _ _).diagnostics fun walked _ =>
              buildBlock_follows body _ walked
  | .union location ident arms, scope, schema => by
      rw [Statement.build, Statement.faultless]
      rcases Build.declare_cases ⟨schema, []⟩ scope (.union (.empty ident.item)) location with
        ⟨error, rejected, same⟩ | ⟨grown, accepted, same⟩
      · have faulty : (Build.note ⟨schema, []⟩ location error).diagnostics ≠ [] := by
          simp [Build.note, Build.report]
        rw [same, rejected]
        exact (buildArms_confined arms scope ident.item _ _).faulty faulty
      · rw [same, accepted]
        exact buildArms_follows arms scope ident.item grown

theorem Arm.build_follows : ∀ (arm : Arm) (scope : ScopeId) (ident : String) (schema : Schema),
    (arm.build failFast scope ident none ⟨schema, []⟩).2.Follows
      (arm.faultless scope ident schema)
  | .mk location guard tag body, scope, ident, schema => by
      rw [Arm.build, Arm.faultless]
      have reasoned : (Checked.both Prod.mk
          (.option (fun written => written.resolve schema.forest scope) guard)
          tag.resolve).Reasoned :=
        (Checked.reasoned_option guard fun written => written.reasoned).both tag.reasoned _
      generalize Checked.both Prod.mk
        (.option (fun written => written.resolve schema.forest scope) guard)
        tag.resolve = checked at reasoned
      cases checked with
      | refused problems =>
          have faulty := Build.follows_refusal reasoned rfl ⟨schema, []⟩
          have opened := (Build.confined_create_scope scope _).faulty faulty
          exact (buildBlock_confined body ⟨schema.forest.size⟩ _).faulty opened
      | accepted resolved =>
          have walked := buildBlock_follows body ⟨schema.forest.size⟩
            (schema.createScope (some scope)).2
          exact walked.bind (fun build => (build.addArm scope ident location
              ⟨resolved.1, resolved.2, ⟨schema.forest.size⟩⟩ none).2)
            (Build.confined_add_arm _ scope ident location _ none).diagnostics
            fun grown _ => Build.follows_add_arm scope ident location _ grown

theorem buildBlock_follows : ∀ (statements : List Statement) (scope : ScopeId) (schema : Schema),
    (buildBlock failFast scope statements ⟨schema, []⟩).Follows
      (faultlessBlock scope statements schema)
  | [], scope, schema => by
      rw [buildBlock, faultlessBlock]
      exact rfl
  | statement :: rest, scope, schema => by
      have clean : (⟨schema, []⟩ : Build).diagnostics = [] := rfl
      rw [block_goes_on failFast clean, faultlessBlock]
      exact (Statement.build_follows statement scope schema).bind (buildBlock failFast scope rest)
        (buildBlock_confined rest scope _).diagnostics fun walked _ =>
          buildBlock_follows rest scope walked

theorem buildArms_follows : ∀ (arms : List Arm) (scope : ScopeId) (ident : String)
    (schema : Schema),
    (buildArms failFast scope ident arms none ⟨schema, []⟩).Follows
      (faultlessArms scope ident arms schema)
  | [], scope, ident, schema => by
      rw [buildArms, faultlessArms]
      exact rfl
  | arm :: rest, scope, ident, schema => by
      have clean : (⟨schema, []⟩ : Build).diagnostics = [] := rfl
      rw [arms_go_on failFast clean, faultlessArms]
      have first : (arm.build failFast scope ident none ⟨schema, []⟩).2.Follows _ :=
        Arm.build_follows arm scope ident schema
      have split : arm.build failFast scope ident none ⟨schema, []⟩ =
          (none, (arm.build failFast scope ident none ⟨schema, []⟩).2) :=
        Prod.ext (arm.own_union_kept scope ident _) rfl
      rw [split]
      exact first.bind (buildArms failFast scope ident rest none)
        (buildArms_confined rest scope ident none _).diagnostics fun walked _ =>
          buildArms_follows rest scope ident walked

end

end Tree

/-- What a faultless walk at a scope does to a schema: it leaves all other scopes alone, and what
it does it does by steps. -/
structure Schema.Walked (scope : ScopeId) (before after : Schema) : Prop where
  confined : Build.ConfinedTo scope ⟨before, []⟩ ⟨after, []⟩
  reaches : before.Formed → before.forest.Issued scope → before.Reaches after

theorem Schema.walked_of_follows {scope : ScopeId} {schema grown : Schema} (build : Build)
    {answer : Option Schema} (answered : answer = some grown) (follows : build.Follows answer)
    (confined : Build.ConfinedTo scope ⟨schema, []⟩ build)
    (reaches : schema.Formed → schema.forest.Issued scope → schema.Reaches build.schema) :
    schema.Walked scope grown := by
  rw [answered] at follows
  have built : build = ⟨grown, []⟩ := follows
  subst built
  exact ⟨confined, reaches⟩

namespace Tree

variable {scope : ScopeId} {schema grown : Schema}

theorem Statement.walked {statement : Statement}
    (answered : statement.faultless scope schema = some grown) : schema.Walked scope grown :=
  Schema.walked_of_follows (statement.build false scope ⟨schema, []⟩) answered
    (statement.build_follows scope schema) (statement.build_confined scope _)
    (statement.build_reaches scope ⟨schema, []⟩)

theorem Arm.walked {arm : Arm} {ident : String}
    (answered : arm.faultless scope ident schema = some grown) : schema.Walked scope grown :=
  Schema.walked_of_follows (arm.build false scope ident none ⟨schema, []⟩).2 answered
    (arm.build_follows scope ident schema) (arm.build_confined scope ident none _)
    (arm.build_reaches scope ident none ⟨schema, []⟩)

theorem block_walked {statements : List Statement}
    (answered : faultlessBlock scope statements schema = some grown) :
    schema.Walked scope grown :=
  Schema.walked_of_follows (buildBlock false scope statements ⟨schema, []⟩) answered
    (buildBlock_follows statements scope schema) (buildBlock_confined statements scope _)
    (buildBlock_reaches statements scope ⟨schema, []⟩)

theorem arms_walked {arms : List Arm} {ident : String}
    (answered : faultlessArms scope ident arms schema = some grown) :
    schema.Walked scope grown :=
  Schema.walked_of_follows (buildArms false scope ident arms none ⟨schema, []⟩) answered
    (buildArms_follows arms scope ident schema) (buildArms_confined arms scope ident none _)
    (buildArms_reaches arms scope ident none ⟨schema, []⟩)

end Tree

end PacketSchema
