import PacketSchema.Proofs.Grammar.Numerals
import PacketSchema.Proofs.Walk.Faults
import PacketSchema.Proofs.Walk.Steady

/-!
# Spellings of one number

The neat form of a tree has no places, and each of its integers is spelled in one way, as the
decimal text of its number. A walk of a neat tree does what a walk of the tree does: it comes to
the same schema, and its diagnostics are those of the tree in neat form. So neither where a thing
stands nor how a number is spelled makes a difference to what a text means.
-/

namespace PacketSchema

/-- The decimal text of the number that a text stands for. What stands for none is left alone. -/
def Numeral.neat (text : String) : String :=
  match natural? (trimWhiteSpace text.toList) with
  | some number => toString number
  | none => text

theorem Numeral.value_neat (text : String) : value? (neat text) = value? text := by
  unfold neat
  split
  next number known =>
    have same : natural? (trimWhiteSpace (toString number).toList) = some number :=
      number_of_text .start number
    rw [value?, value?, same, known]
  next => rfl

def SchemaError.neat : SchemaError → SchemaError
  | .integerOutOfRange numeral => .integerOutOfRange (Numeral.neat numeral)
  | error => error

def Diagnostic.neat (diagnostic : Diagnostic) : Diagnostic := ⟨.start, diagnostic.error.neat⟩

namespace Checked

variable {Item First Second : Type}

def neat : Checked Item → Checked Item
  | .accepted item => .accepted item
  | .refused problems => .refused (problems.map Diagnostic.neat)

theorem problems_neat (checked : Checked Item) :
    checked.neat.problems = checked.problems.map Diagnostic.neat := by
  cases checked <;> rfl

theorem map_neat (change : First → Item) (checked : Checked First) :
    checked.neat.map change = (checked.map change).neat := by
  cases checked <;> rfl

theorem both_neat (combine : First → Second → Item) (left : Checked First)
    (right : Checked Second) :
    both combine left.neat right.neat = (both combine left right).neat := by
  cases left with
  | accepted first => cases right <;> rfl
  | refused problems =>
      cases right with
      | accepted second => simp [both, neat, Checked.problems]
      | refused others => simp [both, neat, Checked.problems]

theorem option_neat {check anew : First → Checked Second} {respell : First → First}
    (each : ∀ first, anew (respell first) = (check first).neat) (written : Option First) :
    option anew (written.map respell) = (option check written).neat := by
  cases written with
  | none => rfl
  | some first =>
      rw [Option.map_some, option, option, each, map_neat]

end Checked

namespace Tree

def Located.neat {Item : Type} (located : Located Item) : Located Item := ⟨.start, located.item⟩

def neatNumeral (numeral : Token) : Token := ⟨.start, Numeral.neat numeral.item⟩

def Value.neat : Value → Value
  | .integer numeral => .integer (neatNumeral numeral)
  | .reference ident => .reference ident.neat

def Measure.neat : Measure → Measure
  | .bits => .bits
  | .bytes order => .bytes (order.map Located.neat)

def Width.neat (width : Width) : Width := ⟨width.count.neat, ⟨.start, width.unit.item.neat⟩⟩

def Descriptor.neat (descriptor : Descriptor) : Descriptor :=
  ⟨descriptor.scalar.neat, descriptor.width.map Width.neat, descriptor.count.map Value.neat⟩

mutual

def Disjunction.neat : Disjunction → Disjunction
  | .single item => .single item.neat
  | .or left right => .or left.neat right.neat

def Conjunction.neat : Conjunction → Conjunction
  | .single item => .single item.neat
  | .and left right => .and left.neat right.neat

def Relation.neat : Relation → Relation
  | .operand only => .operand only.neat
  | .compare left comparison right => .compare left.neat comparison.neat right.neat

def Operand.neat : Operand → Operand
  | .value written => .value written.neat
  | .negation _ operand => .negation .start operand.neat
  | .group _ inner => .group .start inner.neat

end

def Tag.neat (tag : Tag) : Tag := ⟨.start, tag.label.neat, neatNumeral tag.value⟩

mutual

def Statement.neat : Statement → Statement
  | .always _ ident descriptor => .always .start ident.neat descriptor.neat
  | .optional _ ident condition body =>
      .optional .start ident.neat condition.neat (neatBlock body)
  | .union _ ident arms => .union .start ident.neat (neatArms arms)

def Arm.neat : Arm → Arm
  | .mk _ guard tag body => .mk .start (guard.map Disjunction.neat) tag.neat (neatBlock body)

def neatBlock : List Statement → List Statement
  | [] => []
  | statement :: rest => statement.neat :: neatBlock rest

def neatArms : List Arm → List Arm
  | [] => []
  | arm :: rest => arm.neat :: neatArms rest

end

def Inheritance.neat (clause : Inheritance) : Inheritance :=
  ⟨.start, clause.parent.neat, clause.condition.map Disjunction.neat⟩

def Packet.neat (packet : Packet) : Packet :=
  ⟨packet.ident.neat, packet.inheritance.map Inheritance.neat, neatBlock packet.body⟩

def Module.neat (tree : Module) : Module := ⟨tree.packets.map Packet.neat, .start⟩

section Checks

variable {forest : ScopeForest} {scope : ScopeId}

theorem unsigned_neat (numeral : Token) :
    unsignedNumber (neatNumeral numeral) = (unsignedNumber numeral).neat := by
  unfold unsignedNumber neatNumeral
  rw [Numeral.value_neat]
  cases Numeral.value? numeral.item <;> rfl

theorem signed_neat (numeral : Token) :
    signedNumber (neatNumeral numeral) = (signedNumber numeral).neat := by
  unfold signedNumber neatNumeral
  rw [Numeral.value_neat]
  cases Numeral.value? numeral.item with
  | none => rfl
  | some value =>
      dsimp only
      split <;> rfl

theorem reference_neat (ident : Token) :
    resolveReference forest scope ident.neat = (resolveReference forest scope ident).neat := by
  unfold resolveReference
  cases resolved : forest.resolve scope ident.item with
  | ok reference =>
      rw [Located.neat, resolved]
      rfl
  | error error =>
      have same : error.neat = error := by
        rcases ScopeForest.resolve_eq_error resolved with ⟨_, rfl⟩ | ⟨_, rfl⟩
        · rfl
        · rfl
      rw [Located.neat, resolved, Checked.ofExcept, Checked.ofExcept, Checked.neat,
        List.map_singleton, Diagnostic.neat, same]

theorem Value.size_neat (value : Value) :
    value.neat.resolveSize forest scope = (value.resolveSize forest scope).neat := by
  cases value with
  | integer numeral =>
      rw [Value.neat, Value.resolveSize, unsigned_neat]
      exact Checked.map_neat _ _
  | reference ident =>
      rw [Value.neat, Value.resolveSize, reference_neat]
      exact Checked.map_neat _ _

theorem Value.leaf_neat (value : Value) :
    value.neat.resolveLeaf forest scope = (value.resolveLeaf forest scope).neat := by
  cases value with
  | integer numeral =>
      rw [Value.neat, Value.resolveLeaf, signed_neat]
      exact Checked.map_neat _ _
  | reference ident =>
      rw [Value.neat, Value.resolveLeaf, reference_neat]
      exact Checked.map_neat _ _

mutual

theorem Disjunction.resolve_neat : ∀ condition : Disjunction,
    condition.neat.resolve forest scope = (condition.resolve forest scope).neat
  | .single item => by
      rw [Disjunction.neat, Disjunction.resolve, Disjunction.resolve, item.resolve_neat]
  | .or left right => by
      rw [Disjunction.neat, Disjunction.resolve, Disjunction.resolve, left.resolve_neat,
        right.resolve_neat, Checked.both_neat]

theorem Conjunction.resolve_neat : ∀ condition : Conjunction,
    condition.neat.resolve forest scope = (condition.resolve forest scope).neat
  | .single item => by
      rw [Conjunction.neat, Conjunction.resolve, Conjunction.resolve, item.resolve_neat]
  | .and left right => by
      rw [Conjunction.neat, Conjunction.resolve, Conjunction.resolve, left.resolve_neat,
        right.resolve_neat, Checked.both_neat]

theorem Relation.resolve_neat : ∀ relation : Relation,
    relation.neat.resolve forest scope = (relation.resolve forest scope).neat
  | .operand only => by
      rw [Relation.neat, Relation.resolve, Relation.resolve, only.resolve_neat]
  | .compare left comparison right => by
      rw [Relation.neat, Relation.resolve, Relation.resolve, left.resolve_neat,
        right.resolve_neat, Checked.both_neat]
      rfl

theorem Operand.resolve_neat : ∀ operand : Operand,
    operand.neat.resolve forest scope = (operand.resolve forest scope).neat
  | .value written => by
      rw [Operand.neat, Operand.resolve, Operand.resolve, written.leaf_neat]
  | .negation _ operand => by
      rw [Operand.neat, Operand.resolve, Operand.resolve, operand.resolve_neat,
        Checked.map_neat]
  | .group _ inner => by
      rw [Operand.neat, Operand.resolve, Operand.resolve, inner.resolve_neat]

end

theorem selection_neat (written : Option Disjunction) :
    Checked.option (fun condition : Disjunction => condition.resolve forest scope)
        (written.map Disjunction.neat) =
      (Checked.option (fun condition : Disjunction => condition.resolve forest scope)
        written).neat :=
  Checked.option_neat Disjunction.resolve_neat written

theorem Width.resolve_neat (width : Width) :
    width.neat.resolve forest scope = (width.resolve forest scope).neat := by
  have unit : width.unit.item.neat.widthUnit = width.unit.item.widthUnit := by
    cases width.unit.item with
    | bits => rfl
    | bytes order => cases order <;> rfl
  rw [Width.resolve, Width.resolve, Width.neat, Value.size_neat, unit, Checked.map_neat]

theorem Descriptor.resolve_neat (descriptor : Descriptor) (ident : String) :
    descriptor.neat.resolve forest scope ident =
      (descriptor.resolve forest scope ident).neat := by
  obtain ⟨scalar, width, count⟩ := descriptor
  have widths := Checked.option_neat (@Width.resolve_neat forest scope) width
  have counts := Checked.option_neat (@Value.size_neat forest scope) count
  have parts : Checked.both (Encoding.ofParts scalar.item)
      (.option (fun written => written.resolve forest scope) (width.map Width.neat))
      (.option (fun written => written.resolveSize forest scope) (count.map Value.neat)) =
        (Checked.both (Encoding.ofParts scalar.item)
          (.option (fun written => written.resolve forest scope) width)
          (.option (fun written => written.resolveSize forest scope) count)).neat := by
    rw [widths, counts, Checked.both_neat]
  cases width with
  | none =>
      cases count with
      | none => rfl
      | some count => exact parts
  | some width => exact parts

theorem Tag.resolve_neat (tag : Tag) : tag.neat.resolve = tag.resolve.neat := by
  rw [Tag.resolve, Tag.resolve, Tag.neat, signed_neat, Checked.map_neat]
  rfl

end Checks

end Tree

namespace Build

variable {build : Build} {scope : ScopeId}

def neat (build : Build) : Build := ⟨build.schema, build.diagnostics.map Diagnostic.neat⟩

@[simp] theorem neat_schema : build.neat.schema = build.schema := rfl

@[simp] theorem create_scope_neat : build.neat.createScope scope =
    ((build.createScope scope).1, (build.createScope scope).2.neat) := rfl

@[simp] theorem create_packet_scope_neat (parent : Option PacketId) :
    build.neat.createPacketScope parent =
      ((build.createPacketScope parent).1, (build.createPacketScope parent).2.neat) := rfl

theorem report_neat (problems : List Diagnostic) :
    build.neat.report (problems.map Diagnostic.neat) = (build.report problems).neat := by
  rw [report, report, neat, neat, List.map_append]

theorem note_neat {error : SchemaError} (location : Location) (same : error.neat = error) :
    build.neat.note .start error = (build.note location error).neat := by
  have noted : [(⟨.start, error⟩ : Diagnostic)] = [⟨location, error⟩].map Diagnostic.neat := by
    rw [List.map_singleton, Diagnostic.neat, same]
  rw [note, noted, report_neat]
  rfl

theorem declare_neat (field : Field) (location : Location) :
    build.neat.declare scope field .start =
      ((build.declare scope field location).1, (build.declare scope field location).2.neat) := by
  rw [declare, declare, neat_schema]
  cases appended : build.schema.appendField scope field with
  | ok grown => rfl
  | error error =>
      have same : error.neat = error := by
        rcases Schema.append_field_eq_error appended with ⟨_, rfl⟩ | rfl
        · rfl
        · rfl
      exact Prod.ext rfl (note_neat location same)

theorem add_arm_neat (ident : String) (location : Location) (arm : Arm)
    (refused : Option Union) :
    build.neat.addArm scope ident .start arm refused =
      ((build.addArm scope ident location arm refused).1,
        (build.addArm scope ident location arm refused).2.neat) := by
  cases refused with
  | none =>
      rw [addArm, addArm, neat_schema]
      cases appended : build.schema.appendArm scope ident arm with
      | ok grown => rfl
      | error error =>
          have same : error.neat = error := by
            rcases Schema.append_arm_eq_error appended with rfl | ⟨_, rfl⟩
            · rfl
            · rfl
          exact Prod.ext rfl (note_neat location same)
  | some choice =>
      rw [addArm, addArm]
      cases appended : choice.append arm with
      | ok grown => rfl
      | error error =>
          have same : error.neat = error := by
            obtain ⟨_, rfl⟩ := Union.append_eq_error appended
            rfl
          exact Prod.ext rfl (note_neat location same)

end Build

def Derivation.neat (derivation : Derivation) : Derivation :=
  ⟨derivation.parent, derivation.selection.neat⟩

theorem Derivation.condition_neat (derivation : Derivation) :
    derivation.neat.condition = derivation.condition := by
  obtain ⟨parent, _ | _⟩ := derivation <;> rfl

theorem Build.register_neat {build : Build} (record : Packet) (location : Location)
    (derivation : Option Derivation) :
    build.neat.register record .start (derivation.map Derivation.neat) =
      (build.register record location derivation).neat := by
  rw [register, register, neat_schema]
  cases appended : build.schema.appendPacket record with
  | error error =>
      have same : error.neat = error := by
        rw [Schema.append_packet_eq_error appended]
        rfl
      exact note_neat location same
  | ok answer =>
      rcases derivation with _ | ⟨parent, condition | problems⟩
      · rfl
      · dsimp only [Option.map_some, Derivation.neat, Checked.neat]
        cases joined : answer.2.appendChild parent answer.1 condition with
        | ok last => rfl
        | error error =>
            have same : error.neat = error := by
              rcases Schema.append_child_eq_error joined with rfl | ⟨_, rfl⟩
              · rfl
              · rfl
            exact @note_neat { build with schema := answer.2 } error location same
      · rfl

namespace Tree

theorem optional_opened_neat (scope : ScopeId) (location : Location) (ident : Token)
    (condition : Disjunction) (build : Build) :
    optionalOpened scope .start ident.neat condition.neat build.neat =
      (optionalOpened scope location ident condition build).neat := by
  rw [optionalOpened, optionalOpened, Build.neat_schema, Build.create_scope_neat,
    condition.resolve_neat]
  cases condition.resolve build.schema.forest scope with
  | refused problems => exact @Build.report_neat (build.createScope scope).2 problems
  | accepted resolved => exact congrArg Prod.snd (Build.declare_neat _ location)

theorem union_opened_neat (scope : ScopeId) (location : Location) (ident : Token)
    (build : Build) :
    unionOpened scope .start ident.neat build.neat =
      ((unionOpened scope location ident build).1,
        (unionOpened scope location ident build).2.neat) := by
  have declared := @Build.declare_neat build scope (.union (.empty ident.item)) location
  rw [unionOpened, Located.neat, declared]
  rfl

theorem arm_checked_neat (scope : ScopeId) (guard : Option Disjunction) (tag : Tag)
    (build : Build) :
    armChecked scope (guard.map Disjunction.neat) tag.neat build.neat =
      (armChecked scope guard tag build).neat := by
  rw [armChecked, armChecked, tag.resolve_neat, Build.neat_schema, selection_neat,
    Checked.both_neat]

theorem arm_opened_neat (scope : ScopeId) (guard : Option Disjunction) (tag : Tag)
    (build : Build) :
    armOpened scope (guard.map Disjunction.neat) tag.neat build.neat =
      (armOpened scope guard tag build).neat := by
  rw [armOpened, arm_checked_neat, Checked.problems_neat, Build.report_neat]
  rfl

theorem arm_closed_neat (scope : ScopeId) (ident : String) (location : Location)
    (guard : Option Disjunction) (tag : Tag) (refused : Option Union) (build walked : Build) :
    armClosed scope ident .start (guard.map Disjunction.neat) tag.neat (refused, build.neat)
        walked.neat =
      ((armClosed scope ident location guard tag (refused, build) walked).1,
        (armClosed scope ident location guard tag (refused, build) walked).2.neat) := by
  rw [armClosed, armClosed]
  dsimp only
  rw [arm_checked_neat]
  cases armChecked scope guard tag build with
  | refused problems => rfl
  | accepted resolved => exact Build.add_arm_neat ident location _ refused

/-- A walk of the neat form of what is walked comes to the neat form of what the walk comes to. -/
def Account.respelled : Account where
  statement statement scope before after :=
    statement.neat.build false scope before.neat = after.neat
  arm arm scope ident before after :=
    arm.neat.build false scope ident before.1 before.2.neat = (after.1, after.2.neat)
  block body scope before after :=
    buildBlock false scope (neatBlock body) before.neat = after.neat
  arms arms scope ident before after :=
    buildArms false scope ident (neatArms arms) before.1 before.2.neat = after.neat

theorem walks_respell : Account.respelled.Holds false where
  always location ident descriptor scope build := by
    change (Statement.neat _).build false scope build.neat = _
    rw [Statement.neat, always_build_eq, always_build_eq, Build.neat_schema, Located.neat,
      descriptor.resolve_neat]
    cases descriptor.resolve build.schema.forest scope ident.item with
    | refused problems => exact Build.report_neat problems
    | accepted encoding => exact congrArg Prod.snd (Build.declare_neat _ location)
  optional location ident condition _ scope build inside := by
    change (Statement.neat _).build false scope build.neat = _
    rw [Statement.neat, optional_build_eq, optional_opened_neat scope location]
    exact inside
  union location ident _ scope build inside := by
    change (Statement.neat _).build false scope build.neat = _
    rw [Statement.neat, union_build_arms, union_opened_neat scope location]
    exact inside
  arm location guard tag body scope ident reached inside := by
    have anew := @arm_build_eq false scope ident .start (guard.map Disjunction.neat) tag.neat
      (neatBlock body) (reached.1, reached.2.neat)
    have walked : buildBlock false ⟨reached.2.schema.forest.size⟩ (neatBlock body)
        (armOpened scope guard tag reached.2).neat = _ := inside
    change (Arm.neat _).build false scope ident reached.1 reached.2.neat = _
    rw [Arm.neat, anew, arm_opened_neat, Build.neat_schema, walked]
    exact arm_closed_neat scope ident location guard tag reached.1 reached.2 _
  still _ scope build ended := by
    rw [ended.resolve_right build.never_halted]
    change buildBlock false scope (neatBlock []) build.neat = _
    rw [neatBlock, buildBlock]
  goes_on statement rest scope build first later := by
    have walked : statement.neat.build false scope build.neat = _ := first
    change buildBlock false scope (neatBlock (statement :: rest)) build.neat = _
    rw [neatBlock, buildBlock_cons, walked]
    exact later
  arms_still _ scope ident reached ended := by
    rw [ended.resolve_right reached.2.never_halted]
    change buildArms false scope ident (neatArms []) reached.1 reached.2.neat = _
    rw [neatArms, buildArms]
  arms_go_on arm rest scope ident reached first later := by
    have walked : arm.neat.build false scope ident reached.1 reached.2.neat = _ := first
    change buildArms false scope ident (neatArms (arm :: rest)) reached.1 reached.2.neat = _
    rw [neatArms, buildArms, if_neg reached.2.neat.never_halted, walked]
    exact later

theorem buildBlock_neat (body : List Statement) (scope : ScopeId) (build : Build) :
    buildBlock false scope (neatBlock body) build.neat = (buildBlock false scope body build).neat :=
  walks_respell.block body scope build

theorem Packet.derivation_neat (packet : Packet) (schema : Schema) :
    packet.neat.derivation schema =
      ((packet.derivation schema).1.map Derivation.neat,
        (packet.derivation schema).2.map Diagnostic.neat) := by
  obtain ⟨ident, clause, body⟩ := packet
  cases clause with
  | none => rfl
  | some clause =>
      rw [Packet.neat, Packet.derivation, Packet.derivation]
      dsimp only [Option.map_some]
      rw [Inheritance.resolve, Inheritance.resolve, Inheritance.neat]
      dsimp only [Located.neat]
      cases schema.named? clause.parent.item with
      | none => rfl
      | some answer =>
          dsimp only
          rw [selection_neat, Checked.problems_neat]
          rfl

theorem Packet.build_neat (packet : Packet) (build : Build) :
    packet.neat.build false build.neat = (packet.build false build).neat := by
  have derived := packet.derivation_neat build.schema
  have opened : packet.neat.opened build.neat =
      ((packet.opened build).1, (packet.opened build).2.neat) := by
    rw [Packet.opened, Packet.opened, Build.neat_schema, derived, Build.report_neat,
      Build.create_packet_scope_neat, Option.map_map]
    rfl
  have recorded : ∀ (derivation : Option Derivation) (scope : ScopeId),
      packet.neat.record (derivation.map Derivation.neat) scope =
        packet.record derivation scope := by
    intro derivation scope
    cases derivation with
    | none => rfl
    | some derivation =>
        rw [Option.map_some, Packet.record, Packet.record, Derivation.condition_neat]
        rfl
  rw [packet.neat.build_eq, packet.build_eq, opened, Build.neat_schema, derived, recorded]
  rw [← Build.register_neat, ← buildBlock_neat]
  rfl

theorem buildPackets_neat (packets : List Packet) (build : Build) :
    buildPackets false (packets.map Packet.neat) build.neat =
      (buildPackets false packets build).neat := by
  induction packets generalizing build with
  | nil => rw [List.map_nil, buildPackets, buildPackets]
  | cons packet rest later =>
      rw [List.map_cons, buildPackets_cons, buildPackets_cons, packet.build_neat, later]

/-- The neat tree comes to the same schema, and to the same diagnostics in neat form. -/
theorem Module.build_neat (tree : Module) : tree.neat.build false = (tree.build false).neat :=
  buildPackets_neat tree.packets .empty

end Tree

end PacketSchema
