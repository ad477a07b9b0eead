import PacketSchema.Compile
import PacketSchema.Proofs.Resolving
import PacketSchema.Proofs.Walk.Confinement
import PacketSchema.Proofs.Walk.Step

/-!
# A walk takes steps

Whatever a walk does, fast or not and with whatever faults, it does by the steps of a schema. The
guard of a step is often made sure of long before the step is taken: the condition of an arm is
resolved before its body is walked, and the arm is added after. That a grounded condition stays
grounded while the body is walked is the induction hypothesis read through `Reaches`.
-/

namespace PacketSchema

open Schema (Reaches Formed)

namespace Build

variable {build : Build} {scope : ScopeId} {field : Field} {location : Location}

theorem declare_reaches (grounded : build.schema.forest.Grounds scope field.references)
    (inside : ∀ block ∈ field.blocks, build.schema.forest.parent? block = some scope) :
    build.schema.Reaches (build.declare scope field location).2.schema := by
  rcases declare_cases build scope field location with ⟨error, _, same⟩ | ⟨grown, accepted, same⟩
  · rw [same]
    exact .refl
  · rw [same]
    exact .single (.declare accepted grounded inside)

theorem add_arm_reaches (ident : String) (location : Location) (arm : Arm)
    (refused : Option Union)
    (grounded : build.schema.forest.Grounds scope (selectionReferences arm.condition))
    (inside : build.schema.forest.parent? arm.scope = some scope) :
    build.schema.Reaches (build.addArm scope ident location arm refused).2.schema := by
  cases refused with
  | none =>
      cases accepted : build.schema.appendArm scope ident arm with
      | error error =>
          simp only [addArm, accepted]
          exact .refl
      | ok grown =>
          simp only [addArm, accepted]
          exact .single (.addArm accepted grounded inside)
  | some refused =>
      cases appended : refused.append arm with
      | error error =>
          simp only [addArm, appended]
          exact .refl
      | ok grown =>
          simp only [addArm, appended]
          exact .refl

/-- The scope of a block is new, stands below the scope of the statement and is the next one. -/
theorem create_scope_spec (build : Build) (issued : build.schema.forest.Issued scope) :
    (build.createScope scope).1 = ⟨build.schema.forest.size⟩ ∧
      build.schema.Reaches (build.createScope scope).2.schema ∧
      (build.createScope scope).2.schema.forest.Issued ⟨build.schema.forest.size⟩ ∧
      (build.createScope scope).2.schema.forest.parent? ⟨build.schema.forest.size⟩ =
        some scope := by
  have created := ScopeForest.scope_create_new build.schema.forest (some scope)
  exact ⟨rfl, .single (.openBlock issued), ScopeForest.issued_of_scope created,
    ScopeForest.parent_of_scope created⟩

end Build

namespace Tree

variable {failFast : Bool}

section Parts

variable {scope : ScopeId} {build : Build}

/-- The body of an optional block is entered by steps, at a scope that is then there. -/
theorem optional_opened_reaches (formed : build.schema.Formed)
    (issued : build.schema.forest.Issued scope) (location : Location) (ident : Token)
    (condition : Disjunction) :
    build.schema.Reaches (optionalOpened scope location ident condition build).schema ∧
      (optionalOpened scope location ident condition build).schema.forest.Issued
        ⟨build.schema.forest.size⟩ := by
  obtain ⟨_, created, childIssued, below⟩ := build.create_scope_spec issued
  rw [optionalOpened]
  cases checked : condition.resolve build.schema.forest scope with
  | refused problems => exact ⟨created, childIssued⟩
  | accepted resolved =>
      have grounded :=
        Reaches.grounds_kept created formed (Disjunction.condition_accepted checked).2
      have declared : (build.createScope scope).2.schema.Reaches
          ((build.createScope scope).2.declare scope
            (.optional ident.item resolved ⟨build.schema.forest.size⟩) location).2.schema :=
        Build.declare_reaches grounded (by simpa [Field.blocks] using below)
      exact ⟨created.trans declared,
        (Reaches.parent_kept declared (Reaches.formed created formed) childIssued).1⟩

theorem union_opened_reaches (scope : ScopeId) (location : Location) (ident : Token)
    (build : Build) : build.schema.Reaches (unionOpened scope location ident build).2.schema :=
  Build.declare_reaches (by simp [ScopeForest.Grounds, Field.references, Union.empty])
    (by simp [Field.blocks, Union.empty])

theorem arm_opened_spec (issued : build.schema.forest.Issued scope) (guard : Option Disjunction)
    (tag : Tag) :
    build.schema.Reaches (armOpened scope guard tag build).schema ∧
      (armOpened scope guard tag build).schema.forest.Issued ⟨build.schema.forest.size⟩ ∧
      (armOpened scope guard tag build).schema.forest.parent? ⟨build.schema.forest.size⟩ =
        some scope :=
  ((build.report (armChecked scope guard tag build).problems).create_scope_spec issued).2

/-- The condition of an arm was resolved before the body was walked, and is still grounded. -/
theorem arm_closed_reaches {reached : Option Union × Build} {walked : Build}
    (formed : reached.2.schema.Formed) (reaches : reached.2.schema.Reaches walked.schema)
    (below : walked.schema.forest.parent? ⟨reached.2.schema.forest.size⟩ = some scope)
    (ident : String) (location : Location) (guard : Option Disjunction) (tag : Tag) :
    walked.schema.Reaches (armClosed scope ident location guard tag reached walked).2.schema := by
  rw [armClosed]
  split
  next => exact .refl
  next condition resolved checked =>
    obtain ⟨_, _, guardFound, _, same⟩ := Checked.both_eq_accepted.mp checked
    cases same
    exact Build.add_arm_reaches ident location _ reached.1
      (Reaches.grounds_kept reaches formed (selection_accepted guardFound).2) below

end Parts

/-- From a formed schema, and at a scope that is there, a walk takes steps. -/
theorem walks_reach : (Account.throughout fun scope before after =>
    before.schema.Formed → before.schema.forest.Issued scope →
      before.schema.Reaches after.schema).Holds failFast where
  always location ident descriptor scope build _ _ := by
    rw [always_build_eq]
    cases checked : descriptor.resolve build.schema.forest scope ident.item with
    | refused problems => exact .refl
    | accepted encoding =>
        exact Build.declare_reaches (Descriptor.encoding_accepted checked).2
          (by simp [Field.blocks])
  optional location ident condition _ scope build inside formed issued := by
    obtain ⟨opened, childIssued⟩ := optional_opened_reaches formed issued location ident condition
    exact opened.trans (inside (Reaches.formed opened formed) childIssued)
  union location ident _ scope build inside formed issued := by
    have declared := union_opened_reaches scope location ident build
    exact declared.trans (inside (Reaches.formed declared formed)
      (Reaches.parent_kept declared formed issued).1)
  arm location guard tag _ scope ident reached inside formed issued := by
    obtain ⟨opened, childIssued, below⟩ := arm_opened_spec issued guard tag
    have openedFormed := Reaches.formed opened formed
    have walked := inside openedFormed childIssued
    have parent := (Reaches.parent_kept walked openedFormed childIssued).2.trans below
    have reaches := opened.trans walked
    exact reaches.trans (arm_closed_reaches formed reaches parent ident location guard tag)
  still _ _ _ _ _ _ := .refl
  goes_on _ _ _ _ first later formed issued := by
    have walked := first formed issued
    exact walked.trans (later (Reaches.formed walked formed)
      (Reaches.parent_kept walked formed issued).1)
  arms_still _ _ _ _ _ _ _ := .refl
  arms_go_on _ _ _ _ _ first later formed issued := by
    have walked := first formed issued
    exact walked.trans (later (Reaches.formed walked formed)
      (Reaches.parent_kept walked formed issued).1)

theorem Statement.build_reaches (statement : Statement) (scope : ScopeId) (build : Build)
    (formed : build.schema.Formed) (issued : build.schema.forest.Issued scope) :
    build.schema.Reaches (statement.build failFast scope build).schema :=
  walks_reach.statement statement scope build formed issued

theorem Arm.build_reaches (arm : Arm) (scope : ScopeId) (ident : String) (refused : Option Union)
    (build : Build) (formed : build.schema.Formed) (issued : build.schema.forest.Issued scope) :
    build.schema.Reaches (arm.build failFast scope ident refused build).2.schema :=
  walks_reach.arm_built arm scope ident (refused, build) formed issued

theorem buildBlock_reaches (body : List Statement) (scope : ScopeId) (build : Build)
    (formed : build.schema.Formed) (issued : build.schema.forest.Issued scope) :
    build.schema.Reaches (buildBlock failFast scope body build).schema :=
  walks_reach.block body scope build formed issued

theorem buildArms_reaches (arms : List Arm) (scope : ScopeId) (ident : String)
    (refused : Option Union) (build : Build) (formed : build.schema.Formed)
    (issued : build.schema.forest.Issued scope) :
    build.schema.Reaches (buildArms failFast scope ident arms refused build).schema :=
  walks_reach.arms arms scope ident (refused, build) formed issued

section

variable {schema : Schema} {packet : Packet} {derivation : Derivation}
  {problems : List Diagnostic}

/-- A clause that is followed names a packet that is there. Its condition is resolved in the scope
of that packet, and what is at fault in the condition is all that is at fault in the clause. -/
theorem Packet.derivation_eq_some
    (derived : packet.derivation schema = (some derivation, problems)) :
    ∃ clause parent, packet.inheritance = some clause ∧
      schema.packet? derivation.parent = some parent ∧ parent.ident = clause.parent.item ∧
      derivation.selection = Checked.option
        (fun written => written.resolve schema.forest parent.scope) clause.condition ∧
      problems = derivation.selection.problems := by
  unfold Packet.derivation at derived
  split at derived
  · cases derived
  next clause written =>
    unfold Inheritance.resolve at derived
    split at derived
    · cases derived
    next id parent named =>
      cases derived
      obtain ⟨found, same⟩ := Schema.named_eq_some named
      exact ⟨clause, parent, written, found, same, rfl, rfl⟩

/-- As far as the condition of a clause was resolved, it is about the fields of the packet that the
clause names. -/
theorem Packet.derivation_spec (derived : packet.derivation schema = (some derivation, problems)) :
    ∃ parent, schema.packet? derivation.parent = some parent ∧
      ∀ condition, derivation.selection = .accepted condition →
        schema.forest.Grounds parent.scope (selectionReferences condition) := by
  obtain ⟨clause, parent, _, found, _, selected, _⟩ := Packet.derivation_eq_some derived
  refine ⟨parent, found, ?_⟩
  intro condition accepted
  exact (selection_accepted (selected.symm.trans accepted)).2

end

end Tree

namespace Build

variable {build : Build} {scope : ScopeId} {packet : Packet}

theorem create_packet_scope_spec (build : Build) (parent : Option PacketId)
    (known : ∀ id ∈ parent, ∃ packet, build.schema.packet? id = some packet) :
    (build.createPacketScope parent).1 = ⟨build.schema.forest.size⟩ ∧
      build.schema.Reaches (build.createPacketScope parent).2.schema ∧
      (build.createPacketScope parent).2.schema.forest.Issued ⟨build.schema.forest.size⟩ ∧
      (build.createPacketScope parent).2.schema.forest.parent? ⟨build.schema.forest.size⟩ =
        (parent.bind build.schema.packet?).map Packet.scope := by
  have created := ScopeForest.scope_create_new build.schema.forest
    ((parent.bind build.schema.packet?).map Packet.scope)
  exact ⟨rfl, .single (.openPacket known), ScopeForest.issued_of_scope created,
    ScopeForest.parent_of_scope created⟩

/-- Registering takes one step for the packet, one more for its edge, or none. -/
theorem register_reaches (location : Location) (derivation : Option Derivation)
    (issued : build.schema.forest.Issued packet.scope) (derives : build.schema.Derives packet)
    (childless : packet.children = [])
    (agrees : ∀ parent condition, derivation = some ⟨parent, .accepted condition⟩ →
      packet.parent = some parent ∧ packet.condition = condition) :
    build.schema.Reaches (build.register packet location derivation).schema := by
  unfold register
  cases registered : build.schema.appendPacket packet with
  | error error => exact .refl
  | ok answer =>
      obtain ⟨id, grown⟩ := answer
      have first : build.schema.Reaches grown :=
        .single (.register registered issued derives childless)
      obtain ⟨_, rfl, rfl⟩ := Schema.append_packet_eq_ok registered
      match derivation with
      | none => exact first
      | some ⟨parent, .refused problems⟩ => exact first
      | some ⟨parent, .accepted condition⟩ =>
          obtain ⟨sameParent, sameCondition⟩ := agrees parent condition rfl
          simp only [Schema.Derives, sameParent] at derives
          obtain ⟨record, found, _, grounded⟩ := derives
          obtain ⟨children, kept⟩ := Reaches.packet_kept first found
          simp only
          cases linked : Schema.appendChild ⟨build.schema.packets ++ [packet], build.schema.forest⟩
              parent ⟨build.schema.packets.length⟩ condition with
          | error error => exact first
          | ok last =>
              have present : Schema.packet? ⟨build.schema.packets ++ [packet],
                  build.schema.forest⟩ ⟨build.schema.packets.length⟩ = some packet := by
                simp only [Schema.packet?, List.getElem?_concat_length]
              rw [sameCondition] at grounded
              exact first.tail (.link linked kept present ⟨sameParent, sameCondition⟩ grounded)

end Build

namespace Tree

variable {failFast : Bool}

def Packet.record (packet : Packet) (derivation : Option Derivation) (scope : ScopeId) :
    PacketSchema.Packet :=
  match derivation with
  | none => .root packet.ident.item scope
  | some derivation =>
      .derived packet.ident.item derivation.parent derivation.condition scope

/-- The build in which the body of a packet is walked, and the scope it is walked in. -/
def Packet.opened (packet : Packet) (build : Build) : ScopeId × Build :=
  (build.report (packet.derivation build.schema).2).createPacketScope
    ((packet.derivation build.schema).1.map Derivation.parent)

theorem Packet.build_eq (packet : Packet) (build : Build) :
    packet.build failFast build =
      (buildBlock failFast (packet.opened build).1 packet.body (packet.opened build).2).register
        (packet.record (packet.derivation build.schema).1 (packet.opened build).1)
        packet.ident.location (packet.derivation build.schema).1 := rfl

theorem Packet.opened_spec (packet : Packet) (build : Build) :
    (packet.opened build).1 = ⟨build.schema.forest.size⟩ ∧
      build.schema.Reaches (packet.opened build).2.schema ∧
      (packet.opened build).2.schema.forest.Issued (packet.opened build).1 ∧
      (packet.opened build).2.schema.forest.parent? (packet.opened build).1 =
        (((packet.derivation build.schema).1.map Derivation.parent).bind
          build.schema.packet?).map PacketSchema.Packet.scope := by
  refine (build.report (packet.derivation build.schema).2).create_packet_scope_spec _ ?_
  intro id member
  obtain ⟨derivation, found, rfl⟩ := Option.map_eq_some_iff.mp member
  obtain ⟨parent, located, _⟩ := Packet.derivation_spec (Prod.ext found rfl)
  exact ⟨parent, located⟩

/-- The record of a packet is that of a derivation in every schema that its body is walked to. -/
theorem Packet.record_derives {packet : Packet} {build : Build} {grown : Schema}
    (formed : build.schema.Formed) (reaches : build.schema.Reaches grown) {scope : ScopeId}
    (below : grown.forest.parent? scope =
      (((packet.derivation build.schema).1.map Derivation.parent).bind
        build.schema.packet?).map PacketSchema.Packet.scope) :
    grown.Derives (packet.record (packet.derivation build.schema).1 scope) := by
  cases derivationIs : (packet.derivation build.schema).1 with
  | none =>
      rw [derivationIs] at below
      exact ⟨rfl, below⟩
  | some derivation =>
      rw [derivationIs] at below
      obtain ⟨parent, found, grounded⟩ := Packet.derivation_spec (Prod.ext derivationIs rfl)
      obtain ⟨children, kept⟩ := Reaches.packet_kept reaches found
      refine ⟨_, kept, ?_, ?_⟩
      · simp only [Option.map_some, Option.bind_some, found] at below
        exact below
      · apply Reaches.grounds_kept reaches formed
        simp only [Packet.record, PacketSchema.Packet.derived, Derivation.condition]
        cases selected : derivation.selection with
        | accepted condition => exact grounded condition selected
        | refused problems => exact ScopeForest.grounds_nil

theorem Packet.build_reaches (packet : Packet) (build : Build) (formed : build.schema.Formed) :
    build.schema.Reaches (packet.build failFast build).schema := by
  obtain ⟨_, opened, issued, below⟩ := packet.opened_spec build
  have openedFormed := Reaches.formed opened formed
  have walked : (packet.opened build).2.schema.Reaches
      (buildBlock failFast (packet.opened build).1 packet.body (packet.opened build).2).schema :=
    buildBlock_reaches packet.body _ _ openedFormed issued
  obtain ⟨issuedAfter, sameParent⟩ := Reaches.parent_kept walked openedFormed issued
  have recordScope : (packet.record (packet.derivation build.schema).1
      (packet.opened build).1).scope = (packet.opened build).1 := by
    unfold Packet.record
    split <;> rfl
  rw [Packet.build_eq]
  refine (opened.trans walked).trans (Build.register_reaches _ _ ?_ ?_ ?_ ?_)
  · rw [recordScope]
    exact issuedAfter
  · exact Packet.record_derives formed (opened.trans walked) (sameParent.trans below)
  · unfold Packet.record
    split <;> rfl
  · intro parent condition same
    rw [same]
    exact ⟨rfl, rfl⟩

theorem buildPackets_reaches (packets : List Packet) (build : Build)
    (formed : build.schema.Formed) :
    build.schema.Reaches (buildPackets failFast packets build).schema := by
  induction packets generalizing build with
  | nil => exact .refl
  | cons packet rest later =>
      rw [buildPackets]
      split
      · exact .refl
      · have first : build.schema.Reaches (packet.build failFast build).schema :=
          Packet.build_reaches packet build formed
        exact first.trans (later _ (Reaches.formed first formed))

end Tree

/-- Every compilation takes steps from the empty schema. -/
theorem compile_reaches {failFast : Bool} {source : String} {compilation : Compilation}
    (compiled : compile failFast source = .ok compilation) :
    Reaches .empty compilation.schema := by
  unfold compile at compiled
  split at compiled
  · simp at compiled
  next tree _ =>
    cases compiled
    exact Tree.buildPackets_reaches tree.packets .empty Schema.formed_empty

/-- A test of an answer shows that there is one. -/
theorem exists_ok {Failure Item : Type} {answer : Except Failure Item} {test : Item → Bool}
    (passed : answer.toOption.any test = true) :
    ∃ item, answer = .ok item ∧ test item = true := by
  cases answer with
  | error error => cases passed
  | ok item => exact ⟨item, rfl, passed⟩

/-- A test of what a text compiles to shows that it compiles. -/
theorem exists_compiled {failFast : Bool} {source : String} {test : Compilation → Bool}
    (passed : (compile failFast source).toOption.any test = true) :
    ∃ compilation, compile failFast source = .ok compilation ∧ test compilation = true :=
  exists_ok passed

def braced (inside : String) : String := "\x7b " ++ inside ++ " \x7d "

end PacketSchema
