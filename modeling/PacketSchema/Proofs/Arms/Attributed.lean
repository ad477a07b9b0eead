import PacketSchema.Proofs.Grammar.Climbing
import PacketSchema.Proofs.Walk.Faults
import PacketSchema.Proofs.Walk.Steady

/-!
# Which arm was refused

That an arm is refused is reported at the place of this arm and nowhere else. So while a part of a
tree is walked, the refusals that are reported stand at places of arms inside this part, and what
was reported at other places before stays all that is reported there.
-/

namespace PacketSchema

def SchemaError.isArmRefused : SchemaError → Bool
  | .armRefused _ _ => true
  | _ => false

/-- The refusals of arms among some diagnostics that are reported at some places. -/
def refusedAt (places : List Location) (diagnostics : List Diagnostic) : List Diagnostic :=
  diagnostics.filter fun diagnostic =>
    diagnostic.error.isArmRefused && decide (diagnostic.location ∈ places)

theorem refused_at_append (places : List Location) (early late : List Diagnostic) :
    refusedAt places (early ++ late) = refusedAt places early ++ refusedAt places late :=
  List.filter_append _ _

namespace Build

variable {places wider : List Location} {before middle after build : Build} {scope : ScopeId}

/-- All arms whose refusal was reported in between are at some places. -/
def RefusesWithin (places : List Location) (before after : Build) : Prop :=
  Adds (fun diagnostic => diagnostic.error.isArmRefused = true → diagnostic.location ∈ places)
    before after

theorem RefusesWithin.of_same (same : after.diagnostics = before.diagnostics) :
    RefusesWithin places before after :=
  Adds.of_same same

theorem RefusesWithin.weaken (within : RefusesWithin places before after)
    (inside : places ⊆ wider) : RefusesWithin wider before after :=
  Adds.weaken within fun _ among refused => inside (among refused)

theorem RefusesWithin.trans (first : RefusesWithin places before middle)
    (second : RefusesWithin wider middle after) : RefusesWithin (places ++ wider) before after :=
  Adds.trans (first.weaken (List.subset_append_left _ _))
    (second.weaken (List.subset_append_right _ _))

/-- At other places nothing was refused in between. -/
theorem RefusesWithin.refused_at (within : RefusesWithin wider before after)
    (apart : ∀ place ∈ wider, place ∉ places) :
    refusedAt places after.diagnostics = refusedAt places before.diagnostics := by
  obtain ⟨found, same, among⟩ := within
  have none : refusedAt places found = [] := by
    rw [refusedAt, List.filter_eq_nil_iff]
    intro diagnostic member refused
    obtain ⟨kind, there⟩ := Bool.and_eq_true_iff.mp refused
    exact apart _ (among diagnostic member kind) (of_decide_eq_true there)
  rw [same, refused_at_append, none, List.append_nil]

theorem refuses_declare (field : Field) (location : Location) :
    RefusesWithin [] build (build.declare scope field location).2 := by
  apply (build.declare_adds scope field location).weaken
  rintro diagnostic ⟨error, rejected, rfl⟩ refused
  rcases Schema.append_field_eq_error rejected with ⟨_, rfl⟩ | rfl
  · cases refused
  · cases refused

theorem refuses_add_arm (ident : String) (location : Location) (arm : Arm)
    (refused : Option Union) :
    RefusesWithin [location] build (build.addArm scope ident location arm refused).2 := by
  apply (build.add_arm_adds scope ident location arm refused).weaken
  rintro diagnostic ⟨error, _, rfl⟩ _
  exact List.mem_singleton_self _

theorem refuses_register (record : Packet) (location : Location)
    (derivation : Option Derivation) :
    RefusesWithin [] build (build.register record location derivation) := by
  apply (build.registers record location derivation).adds.weaken
  rintro diagnostic ⟨error, rejected | ⟨grown, parent, condition, _, _, rejected⟩, rfl⟩ refused
  · rw [Schema.append_packet_eq_error rejected] at refused
    cases refused
  · rcases Schema.append_child_eq_error rejected with rfl | ⟨_, rfl⟩
    · cases refused
    · cases refused

end Build

namespace Tree

open Build (RefusesWithin)

variable {failFast : Bool} {forest : ScopeForest} {scope : ScopeId} {problem : Diagnostic}

/-- What is wrong with a leaf is no refusal of an arm. -/
theorem Value.Problem.not_refused {value : Value} (wrong : value.Problem forest scope problem) :
    ¬problem.error.isArmRefused = true := by
  cases wrong with
  | number => nofun
  | reference rejected =>
      rcases ScopeForest.resolve_eq_error rejected with ⟨_, rfl⟩ | ⟨_, rfl⟩
      · nofun
      · nofun

theorem optional_opened_refuses {build : Build} (scope : ScopeId) (location : Location)
    (ident : Token) (condition : Disjunction) :
    RefusesWithin [] build (optionalOpened scope location ident condition build) := by
  have created : RefusesWithin [] build (build.createScope scope).2 := .of_same rfl
  rw [optionalOpened]
  cases checked : condition.resolve build.schema.forest scope with
  | accepted resolved => exact created.trans (Build.refuses_declare _ location)
  | refused problems =>
      rw [← Checked.problems_of_refused checked]
      apply created.trans (Build.report_adds _)
      intro problem found refused
      obtain ⟨leaf, -, wrong⟩ := condition.problem_of_leaf found
      exact absurd refused wrong.not_refused

theorem union_opened_refuses {build : Build} (scope : ScopeId) (location : Location)
    (ident : Token) :
    RefusesWithin [] build (unionOpened scope location ident build).2 :=
  Build.refuses_declare _ location

/-- What is wrong with the condition or the value of an arm is no refusal of it. -/
theorem arm_opened_refuses {build : Build} (scope : ScopeId) (guard : Option Disjunction)
    (tag : Tag) : RefusesWithin [] build (armOpened scope guard tag build) := by
  have reported : RefusesWithin [] build
      (build.report (armChecked scope guard tag build).problems) := by
    apply Build.report_adds
    intro problem found refused
    obtain ⟨leaf, -, wrong⟩ := arm_problem found
    exact absurd refused wrong.not_refused
  exact reported.trans (.of_same rfl)

theorem arm_closed_refuses {walked : Build} (scope : ScopeId) (ident : String)
    (location : Location) (guard : Option Disjunction) (tag : Tag)
    (reached : Option Union × Build) :
    RefusesWithin [location] walked
      (armClosed scope ident location guard tag reached walked).2 := by
  rw [armClosed]
  split
  · exact .of_same rfl
  · exact Build.refuses_add_arm ident location _ reached.1

def Account.refusals : Account where
  statement statement _ before after := RefusesWithin statement.armLocations before after
  arm arm _ _ before after := RefusesWithin arm.armLocations before.2 after.2
  block body _ before after := RefusesWithin (blockArmLocations body) before after
  arms arms _ _ before after := RefusesWithin (armListLocations arms) before.2 after

theorem walks_refuse : Account.refusals.Holds failFast where
  always location ident descriptor scope build := by
    rw [always_build_eq]
    cases checked : descriptor.resolve build.schema.forest scope ident.item with
    | accepted encoding => exact Build.refuses_declare _ location
    | refused problems =>
        rw [← Checked.problems_of_refused checked]
        apply Build.report_adds
        intro problem found refused
        rcases descriptor.problem_of_leaf ident.item found with rfl | ⟨leaf, -, wrong⟩
        · cases refused
        · exact absurd refused wrong.not_refused
  optional location ident condition _ scope _ inside :=
    (optional_opened_refuses scope location ident condition).trans inside
  union location ident _ scope _ inside :=
    (union_opened_refuses scope location ident).trans inside
  arm location guard tag _ scope ident reached inside := by
    have walked := (arm_opened_refuses scope guard tag).trans inside
    apply (walked.trans (arm_closed_refuses scope ident location guard tag reached)).weaken
    intro place member
    rw [Arm.armLocations]
    rcases List.mem_append.mp member with body | here
    · exact List.mem_cons_of_mem location body
    · exact List.mem_cons.mpr (.inl (List.mem_singleton.mp here))
  still _ _ _ _ := RefusesWithin.of_same rfl
  goes_on _ _ _ _ first later := RefusesWithin.trans first later
  arms_still _ _ _ _ _ := RefusesWithin.of_same rfl
  arms_go_on _ _ _ _ _ first later := RefusesWithin.trans first later

theorem buildBlock_refuses (body : List Statement) (scope : ScopeId) (build : Build) :
    RefusesWithin (blockArmLocations body) build (buildBlock false scope body build) :=
  walks_refuse.block body scope build

theorem walk_arms_refuses (arms : List Arm) (scope : ScopeId) (ident : String)
    (reached : Option Union × Build) :
    RefusesWithin (armListLocations arms) reached.2 (walkArms scope ident arms reached).2 := by
  rw [← buildArms_eq]
  exact walks_refuse.arms arms scope ident reached

theorem Packet.opened_refuses (packet : Packet) (build : Build) :
    RefusesWithin [] build (packet.opened build).2 := by
  have reported : RefusesWithin [] build
      (build.report (packet.derivation build.schema).2) := by
    apply Build.report_adds
    intro problem found refused
    rcases Visit.clause_problem ⟨packet, build⟩ found with ⟨_, _, rfl⟩ | ⟨_, _, _, _, wrong⟩
    · cases refused
    · exact absurd refused wrong.not_refused
  exact reported.trans (.of_same rfl)

theorem Packet.refuses (packet : Packet) (build : Build) :
    RefusesWithin (blockArmLocations packet.body) build (packet.build false build) := by
  rw [packet.build_eq]
  have walked := (packet.opened_refuses build).trans
    (buildBlock_refuses packet.body (packet.opened build).1 _)
  apply (walked.trans (Build.refuses_register _ packet.ident.location _)).weaken
  rw [List.nil_append, List.append_nil]
  exact List.Subset.refl _

theorem buildPackets_refuses (packets : List Packet) (build : Build) :
    RefusesWithin (packets.flatMap fun packet => blockArmLocations packet.body) build
      (buildPackets false packets build) := by
  induction packets generalizing build with
  | nil =>
      rw [buildPackets]
      exact .of_same rfl
  | cons packet rest later =>
      rw [buildPackets_cons, List.flatMap_cons]
      exact (packet.refuses build).trans (later _)

end Tree

end PacketSchema
