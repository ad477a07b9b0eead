import PacketSchema.Proofs.Grammar.Climbing
import PacketSchema.Proofs.Layout.Chain
import PacketSchema.Proofs.Rules.Packets
import PacketSchema.Proofs.Walk.Faults
import PacketSchema.Proofs.Walk.Steady

/-!
# Integers out of range

That an integer is out of range is found where the integer is checked, and each integer of a text
is checked once: a size as an unsigned number, an operand or a tag as a signed one. Only the
condition of a clause that names no earlier packet is left aside. So what a walk reports of integers
out of range is what their checks find, one after the other.
-/

namespace PacketSchema

def SchemaError.isOutOfRange : SchemaError → Bool
  | .integerOutOfRange _ => true
  | _ => false

def rangeFaults (diagnostics : List Diagnostic) : List Diagnostic :=
  diagnostics.filter fun diagnostic => diagnostic.error.isOutOfRange

theorem range_faults_append (early late : List Diagnostic) :
    rangeFaults (early ++ late) = rangeFaults early ++ rangeFaults late :=
  List.filter_append _ _

/-- An integer of a text, and what it is there for. -/
structure Literal where
  use : Use
  numeral : Tree.Token
deriving DecidableEq, Repr

def Literal.problems (literal : Literal) : List Diagnostic :=
  match literal.use with
  | .size => (Tree.unsignedNumber literal.numeral).problems
  | .operand | .tag => (Tree.signedNumber literal.numeral).problems

def Stop.literal? : Stop → Option Literal
  | .value use (.integer numeral) => some ⟨use, numeral⟩
  | .value _ (.reference _) | .arm _ => none

def literalsOf (stops : List Stop) : List Literal := stops.filterMap Stop.literal?

theorem literals_of_append (early late : List Stop) :
    literalsOf (early ++ late) = literalsOf early ++ literalsOf late :=
  List.filterMap_append

namespace Tree

section Checks

variable {forest : ScopeForest} {scope : ScopeId}

theorem unsigned_range (numeral : Token) :
    rangeFaults (unsignedNumber numeral).problems = (unsignedNumber numeral).problems := by
  unfold unsignedNumber
  split <;> rfl

theorem signed_range (numeral : Token) :
    rangeFaults (signedNumber numeral).problems = (signedNumber numeral).problems := by
  unfold signedNumber
  split
  · split <;> rfl
  · rfl

/-- A reference may be wrong, but never out of range. -/
theorem reference_range (ident : Token) :
    rangeFaults (resolveReference forest scope ident).problems = [] := by
  rw [rangeFaults, List.filter_eq_nil_iff]
  intro problem found outside
  cases reference_problem found with
  | reference refused =>
      rcases ScopeForest.resolve_eq_error refused with ⟨_, rfl⟩ | ⟨_, rfl⟩
      · cases outside
      · cases outside

theorem Value.size_range (value : Value) :
    rangeFaults (value.resolveSize forest scope).problems =
      (literalsOf [.value .size value]).flatMap Literal.problems := by
  cases value with
  | integer numeral =>
      rw [Value.resolveSize, Checked.problems_map, unsigned_range]
      exact (List.append_nil _).symm
  | reference ident =>
      rw [Value.resolveSize, Checked.problems_map, reference_range]
      rfl

theorem Value.leaf_range (value : Value) :
    rangeFaults (value.resolveLeaf forest scope).problems =
      (literalsOf [.value .operand value]).flatMap Literal.problems := by
  cases value with
  | integer numeral =>
      rw [Value.resolveLeaf, Checked.problems_map, signed_range]
      exact (List.append_nil _).symm
  | reference ident =>
      rw [Value.resolveLeaf, Checked.problems_map, reference_range]
      rfl

theorem leaves_range {use : Use} {check : Value → List Diagnostic}
    (each : ∀ value, rangeFaults (check value) =
      (literalsOf [.value use value]).flatMap Literal.problems) (leaves : List Value) :
    rangeFaults (leaves.flatMap check) =
      (literalsOf (leaves.map (.value use))).flatMap Literal.problems := by
  induction leaves with
  | nil => rfl
  | cons leaf rest later =>
      rw [List.flatMap_cons, range_faults_append, each, later, ← List.flatMap_append,
        ← literals_of_append]
      rfl

theorem Disjunction.range (condition : Disjunction) :
    rangeFaults (condition.resolve forest scope).problems =
      (literalsOf (condition.leaves.map (.value .operand))).flatMap Literal.problems := by
  rw [condition.problems_eq]
  exact leaves_range Value.leaf_range condition.leaves

theorem selection_range (written : Option Disjunction) :
    rangeFaults (Checked.option (fun condition : Disjunction => condition.resolve forest scope)
        written).problems =
      (literalsOf ((selectionLeaves written).map (.value .operand))).flatMap
        Literal.problems := by
  cases written with
  | none => rfl
  | some condition =>
      rw [Checked.option, Checked.problems_map]
      exact condition.range

/-- A descriptor without sizes has no integer. -/
theorem Descriptor.range (descriptor : Descriptor) (ident : String) :
    rangeFaults (descriptor.resolve forest scope ident).problems =
      (literalsOf (descriptor.leaves.map (.value .size))).flatMap Literal.problems := by
  obtain ⟨scalar, width, count⟩ := descriptor
  have sizes : ∀ values : List Value,
      rangeFaults (values.flatMap fun value => (value.resolveSize forest scope).problems) =
        (literalsOf (values.map (.value .size))).flatMap Literal.problems :=
    leaves_range Value.size_range
  cases width with
  | none =>
      cases count with
      | none => rfl
      | some count =>
          rw [Descriptor.leaves, ← sizes, Descriptor.resolve, Checked.problems_both,
            Checked.option, Checked.option, Checked.problems_map]
          exact congrArg rangeFaults (List.append_nil _).symm
  | some width =>
      rw [Descriptor.leaves, ← sizes]
      cases count with
      | none =>
          rw [Descriptor.resolve, Checked.problems_both, Checked.option, Checked.option,
            Checked.problems_map, Width.resolve, Checked.problems_map]
          rfl
      | some count =>
          rw [Descriptor.resolve, Checked.problems_both, Checked.option, Checked.option,
            Checked.problems_map, Checked.problems_map, Width.resolve, Checked.problems_map]
          exact congrArg (fun problems => rangeFaults (_ ++ problems)) (List.append_nil _).symm

theorem arm_range (guard : Option Disjunction) (tag : Tag) (build : Build) :
    rangeFaults (armChecked scope guard tag build).problems =
      (literalsOf ((selectionLeaves guard).map (.value .operand) ++
        [.value .tag (.integer tag.value)])).flatMap Literal.problems := by
  rw [armChecked, Checked.problems_both, range_faults_append, selection_range, Tag.resolve,
    Checked.problems_map, signed_range, literals_of_append, List.flatMap_append]
  exact congrArg (_ ++ ·) (List.append_nil _).symm

end Checks

end Tree

namespace Build

variable {early late : List Literal} {before middle after build : Build} {scope : ScopeId}

/-- What is reported in between of integers out of range is what the checks of some integers
find. -/
def Ranges (literals : List Literal) (before after : Build) : Prop :=
  rangeFaults after.diagnostics =
    rangeFaults before.diagnostics ++ literals.flatMap Literal.problems

theorem Ranges.trans (first : Ranges early before middle) (second : Ranges late middle after) :
    Ranges (early ++ late) before after := by
  rw [Ranges, second, first, List.append_assoc, List.flatMap_append]

/-- Integers about which their checks find nothing need not be reported. -/
theorem Ranges.of_quiet (quiet : Ranges [] before after)
    (none : early.flatMap Literal.problems = []) : Ranges early before after := by
  rw [Ranges, quiet, none]
  rfl

theorem Ranges.of_adds
    (adds : Adds (fun diagnostic => diagnostic.error.isOutOfRange = false) before after) :
    Ranges [] before after := by
  obtain ⟨found, same, other⟩ := adds
  have none : rangeFaults found = [] := by
    rw [rangeFaults, List.filter_eq_nil_iff]
    intro diagnostic member
    rw [other diagnostic member]
    exact Bool.false_ne_true
  rw [Ranges, same, range_faults_append, none]
  rfl

theorem ranges_report {literals : List Literal} {problems : List Diagnostic}
    (told : rangeFaults problems = literals.flatMap Literal.problems) :
    Ranges literals build (build.report problems) := by
  rw [Ranges, report, range_faults_append, told]

theorem declare_ranges (field : Field) (location : Location) :
    Ranges [] build (build.declare scope field location).2 := by
  apply Ranges.of_adds
  apply (build.declare_adds scope field location).weaken
  rintro diagnostic ⟨error, rejected, rfl⟩
  rcases Schema.append_field_eq_error rejected with ⟨_, rfl⟩ | rfl
  · rfl
  · rfl

theorem add_arm_ranges (ident : String) (location : Location) (arm : Arm)
    (refused : Option Union) :
    Ranges [] build (build.addArm scope ident location arm refused).2 := by
  apply Ranges.of_adds
  apply (build.add_arm_adds scope ident location arm refused).weaken
  rintro diagnostic ⟨error, ⟨-, rejected⟩ | ⟨choice, -, rejected⟩, rfl⟩
  · rcases Schema.append_arm_eq_error rejected with rfl | ⟨_, rfl⟩
    · rfl
    · rfl
  · obtain ⟨_, rfl⟩ := Union.append_eq_error rejected
    rfl

theorem register_ranges (record : Packet) (location : Location)
    (derivation : Option Derivation) :
    Ranges [] build (build.register record location derivation) := by
  apply Ranges.of_adds
  apply (build.registers record location derivation).adds.weaken
  rintro diagnostic ⟨error, rejected | ⟨_, _, _, _, _, rejected⟩, rfl⟩
  · rw [Schema.append_packet_eq_error rejected]
    rfl
  · rcases Schema.append_child_eq_error rejected with rfl | ⟨_, rfl⟩
    · rfl
    · rfl

end Build

namespace Tree

open Build (Ranges)

theorem optional_opened_ranges (scope : ScopeId) (location : Location) (ident : Token)
    (condition : Disjunction) (build : Build) :
    Ranges (literalsOf (condition.leaves.map (.value .operand))) build
      (optionalOpened scope location ident condition build) := by
  have created : Ranges [] build (build.createScope scope).2 := (List.append_nil _).symm
  have found := @Disjunction.range build.schema.forest scope condition
  rw [optionalOpened]
  cases checked : condition.resolve build.schema.forest scope with
  | refused problems =>
      rw [checked] at found
      exact created.trans (Build.ranges_report found)
  | accepted resolved =>
      rw [checked] at found
      exact (created.trans (Build.declare_ranges _ location)).of_quiet found.symm

theorem arm_opened_ranges (scope : ScopeId) (guard : Option Disjunction) (tag : Tag)
    (build : Build) :
    Ranges (literalsOf ((selectionLeaves guard).map (.value .operand) ++
        [.value .tag (.integer tag.value)])) build
      (armOpened scope guard tag build) := by
  have created : Ranges [] (build.report (armChecked scope guard tag build).problems)
      (armOpened scope guard tag build) := (List.append_nil _).symm
  have reported := (Build.ranges_report (arm_range guard tag build)).trans created
  rwa [List.append_nil] at reported

theorem arm_closed_ranges (scope : ScopeId) (ident : String) (location : Location)
    (guard : Option Disjunction) (tag : Tag) (reached : Option Union × Build) (walked : Build) :
    Ranges [] walked (armClosed scope ident location guard tag reached walked).2 := by
  rw [armClosed]
  split
  · exact (List.append_nil _).symm
  · exact Build.add_arm_ranges ident location _ reached.1

def Account.ranges : Account where
  statement statement _ before after := Ranges (literalsOf statement.stops) before after
  arm arm _ _ before after := Ranges (literalsOf arm.stops) before.2 after.2
  block body _ before after := Ranges (literalsOf (blockStops body)) before after
  arms arms _ _ before after := Ranges (literalsOf (armListStops arms)) before.2 after

theorem walks_range : Account.ranges.Holds false where
  always location ident descriptor scope build := by
    have found := @Descriptor.range build.schema.forest scope descriptor ident.item
    rw [always_build_eq]
    cases checked : descriptor.resolve build.schema.forest scope ident.item with
    | refused problems =>
        rw [checked] at found
        exact Build.ranges_report found
    | accepted encoding =>
        rw [checked] at found
        exact (Build.declare_ranges _ location).of_quiet found.symm
  optional location ident condition _ scope build inside := by
    have walked := (optional_opened_ranges scope location ident condition build).trans inside
    rwa [← literals_of_append] at walked
  union location ident _ scope build inside := by
    have declared : Ranges [] build (unionOpened scope location ident build).2 :=
      Build.declare_ranges _ location
    exact declared.trans inside
  arm location guard tag _ scope ident reached inside := by
    have closed := ((arm_opened_ranges scope guard tag reached.2).trans inside).trans
      (arm_closed_ranges scope ident location guard tag reached _)
    rw [List.append_nil, ← literals_of_append, List.append_assoc] at closed
    exact closed
  still _ _ build ended := by
    rw [ended.resolve_right build.never_halted]
    exact (List.append_nil _).symm
  goes_on statement rest _ _ first later := by
    have both := Ranges.trans first later
    rwa [← literals_of_append] at both
  arms_still _ _ _ reached ended := by
    rw [ended.resolve_right reached.2.never_halted]
    exact (List.append_nil _).symm
  arms_go_on _ _ _ _ _ first later := by
    have both := Ranges.trans first later
    rwa [← literals_of_append] at both

theorem buildBlock_ranges (body : List Statement) (scope : ScopeId) (build : Build) :
    Ranges (literalsOf (blockStops body)) build (buildBlock false scope body build) :=
  walks_range.block body scope build

/-- The stops of a packet that are visited behind packets of given names: those of its clause only
where it gives one of these names. -/
def Packet.visitedStops (earlier : List String) (packet : Packet) : List Stop :=
  (if packet.inheritance.any fun clause => earlier.contains clause.parent.item then
    packet.clauseStops else []) ++ blockStops packet.body

def visitedStops (earlier : List String) : List Packet → List Stop
  | [] => []
  | packet :: rest =>
      packet.visitedStops earlier ++ visitedStops (packet.ident.item :: earlier) rest

def Module.literals (tree : Module) : List Literal := literalsOf (visitedStops [] tree.packets)

theorem Packet.visited_sublist (earlier : List String) (packet : Packet) :
    (packet.visitedStops earlier).Sublist packet.stops := by
  rw [Packet.visitedStops, Packet.stops]
  apply List.Sublist.append_right
  split
  · exact .refl _
  · exact List.nil_sublist _

theorem visited_sublist (earlier : List String) (packets : List Packet) :
    (visitedStops earlier packets).Sublist (packets.flatMap Packet.stops) := by
  induction packets generalizing earlier with
  | nil => exact .refl _
  | cons packet rest later =>
      rw [visitedStops, List.flatMap_cons]
      exact (packet.visited_sublist earlier).append (later _)

end Tree

namespace Visit

variable (visit : Visit)

/-- A name is known behind a packet if it was known before it or is that of the packet. -/
theorem mem_idents_after (failFast : Bool) (name : String) :
    name ∈ (visit.after failFast).schema.idents ↔
      name = visit.packet.ident.item ∨ name ∈ visit.before.schema.idents := by
  have outcome := (visit.registers failFast).packets_map Packet.ident fun _ _ => rfl
  rw [visit.walked_packets, visit.record_ident] at outcome
  rcases outcome with ⟨⟨present, member, same⟩, names⟩ | ⟨-, names⟩
  · rw [Schema.idents, names]
    constructor
    · exact .inr
    · rintro (rfl | known)
      · exact List.mem_map.mpr ⟨present, member, same⟩
      · exact known
  · rw [Schema.idents, names, List.map_append, List.mem_append, List.map_singleton,
      List.mem_singleton, visit.record_ident]
    exact Or.comm

/-- The condition of a clause is checked where the name that the clause gives is known. -/
theorem clause_range {earlier : List String}
    (known : ∀ name, name ∈ earlier ↔ name ∈ visit.before.schema.idents) :
    rangeFaults visit.clauseFaults =
      (literalsOf (if visit.packet.inheritance.any fun clause => earlier.contains clause.parent.item
        then visit.packet.clauseStops else [])).flatMap Literal.problems := by
  unfold clauseFaults Tree.Packet.derivation Tree.Packet.clauseStops
  cases visit.packet.inheritance with
  | none => rfl
  | some clause =>
      have named := @Schema.exists_named_iff visit.before.schema clause.parent.item
      rw [← known] at named
      rw [Option.any_some]
      simp only [Tree.Inheritance.resolve]
      cases found : visit.before.schema.named? clause.parent.item with
      | none =>
          have unknown : ¬earlier.contains clause.parent.item = true := by
            rw [List.contains_iff_mem, ← named, found]
            nofun
          rw [if_neg unknown]
          rfl
      | some answer =>
          have present : earlier.contains clause.parent.item = true := by
            rw [List.contains_iff_mem]
            exact named.mp ⟨answer, found⟩
          rw [if_pos present]
          exact Tree.selection_range clause.condition

end Visit

namespace Tree

theorem Packet.ranges {earlier : List String} {build : Build} (packet : Packet)
    (known : ∀ name, name ∈ earlier ↔ name ∈ build.schema.idents) :
    Build.Ranges (literalsOf (packet.visitedStops earlier)) build (packet.build false build) := by
  have clause : Build.Ranges _ build (packet.opened build).2 :=
    Build.ranges_report (Visit.clause_range ⟨packet, build⟩ known)
  have walked := clause.trans (buildBlock_ranges packet.body (packet.opened build).1 _)
  have registered := walked.trans
    (Build.register_ranges (packet.record (packet.derivation build.schema).1
      (packet.opened build).1) packet.ident.location (packet.derivation build.schema).1)
  rw [List.append_nil, ← literals_of_append] at registered
  rw [packet.build_eq]
  exact registered

theorem buildPackets_ranges {earlier : List String} {build : Build} (packets : List Packet)
    (known : ∀ name, name ∈ earlier ↔ name ∈ build.schema.idents) :
    Build.Ranges (literalsOf (visitedStops earlier packets)) build
      (buildPackets false packets build) := by
  induction packets generalizing earlier build with
  | nil =>
      rw [buildPackets]
      exact (List.append_nil _).symm
  | cons packet rest later =>
      rw [buildPackets_cons, visitedStops, literals_of_append]
      apply (packet.ranges known).trans
      apply later
      intro name
      rw [List.mem_cons, known]
      exact (Visit.mem_idents_after ⟨packet, build⟩ false name).symm

/-- Of integers out of range a text is told what the checks of its visited integers find. -/
theorem Module.range_faults (tree : Module) :
    rangeFaults (tree.build false).diagnostics = tree.literals.flatMap Literal.problems :=
  buildPackets_ranges tree.packets fun _ => Iff.rfl

end Tree

end PacketSchema
