import PacketSchema.Proofs.Walk.Course
import PacketSchema.Proofs.Walk.Mutation

/-!
# What a walk leaves alone

A walk of a body at a scope changes the fields of that scope, creates scopes and adds
diagnostics. It does nothing else: other scopes that were there keep all they have, no packet
changes, and what was reported stays reported. A nested body is walked at a scope that is newer
than all others, so seen from outside it only adds.
-/

namespace PacketSchema

namespace Build

structure ConfinedTo (scope : ScopeId) (before after : Build) : Prop where
  packets : after.schema.packets = before.schema.packets
  size : before.schema.forest.size ≤ after.schema.forest.size
  others : ∀ id, before.schema.forest.Issued id → id ≠ scope →
    after.schema.forest.scope? id = before.schema.forest.scope? id
  diagnostics : before.diagnostics <+: after.diagnostics

variable {before middle after : Build} {scope child : ScopeId}

theorem ConfinedTo.refl (scope : ScopeId) (build : Build) : ConfinedTo scope build build where
  packets := rfl
  size := Nat.le_refl _
  others _ _ _ := rfl
  diagnostics := List.prefix_refl _

theorem ConfinedTo.issued (confined : ConfinedTo scope before after) {id : ScopeId}
    (issued : before.schema.forest.Issued id) : after.schema.forest.Issued id :=
  Nat.lt_of_lt_of_le issued confined.size

theorem ConfinedTo.trans (first : ConfinedTo scope before middle)
    (second : ConfinedTo scope middle after) : ConfinedTo scope before after where
  packets := second.packets.trans first.packets
  size := Nat.le_trans first.size second.size
  others id issued different :=
    (second.others id (first.issued issued) different).trans (first.others id issued different)
  diagnostics := first.diagnostics.trans second.diagnostics

/-- A walk at a scope that is new counts, from before that scope was there, for nothing more than
its creation. -/
theorem ConfinedTo.inner (first : ConfinedTo scope before middle)
    (new : ¬before.schema.forest.Issued child) (second : ConfinedTo child middle after) :
    ConfinedTo scope before after where
  packets := second.packets.trans first.packets
  size := Nat.le_trans first.size second.size
  others id issued different := by
    have notChild : id ≠ child := by
      rintro rfl
      exact new issued
    exact (second.others id (first.issued issued) notChild).trans
      (first.others id issued different)
  diagnostics := first.diagnostics.trans second.diagnostics

theorem confined_report (scope : ScopeId) (build : Build) (problems : List Diagnostic) :
    ConfinedTo scope build (build.report problems) where
  packets := rfl
  size := Nat.le_refl _
  others _ _ _ := rfl
  diagnostics := List.prefix_append _ _

theorem confined_update {build : Build} {grown : Schema} {update : List Field → List Field}
    (packets : grown.packets = build.schema.packets)
    (updated : grown.forest = build.schema.forest.updateFields scope update) :
    ConfinedTo scope build { build with schema := grown } where
  packets := packets
  size := Nat.le_of_eq (by rw [updated, ScopeForest.size_update_fields])
  others id _ different := by rw [updated, ScopeForest.scope_update_fields_ne different]
  diagnostics := List.prefix_refl _

theorem confined_create_scope (scope : ScopeId) (build : Build) :
    ConfinedTo scope build (build.createScope scope).2 where
  packets := rfl
  size := by
    change _ ≤ (build.schema.forest.create (some scope)).2.size
    rw [ScopeForest.size_create]
    exact Nat.le_succ _
  others _ issued _ := ScopeForest.scope_create_old issued (some scope)
  diagnostics := List.prefix_refl _

theorem declare_cases (build : Build) (scope : ScopeId) (field : Field) (location : Location) :
    (∃ error, build.schema.appendField scope field = .error error ∧
        build.declare scope field location = (false, build.note location error)) ∨
      ∃ grown, build.schema.appendField scope field = .ok grown ∧
        build.declare scope field location = (true, { build with schema := grown }) := by
  unfold declare
  cases build.schema.appendField scope field with
  | error error => exact .inl ⟨error, rfl, rfl⟩
  | ok grown => exact .inr ⟨grown, rfl, rfl⟩

theorem confined_declare (build : Build) (scope : ScopeId) (field : Field) (location : Location) :
    ConfinedTo scope build (build.declare scope field location).2 := by
  rcases declare_cases build scope field location with ⟨error, _, same⟩ | ⟨grown, accepted, same⟩
  · rw [same]
    exact confined_report scope build _
  · rw [same]
    obtain ⟨appended, packets⟩ := Schema.append_field_eq_ok accepted
    exact confined_update packets (ScopeForest.append_eq_ok appended).2

theorem confined_add_arm (build : Build) (scope : ScopeId) (ident : String) (location : Location)
    (arm : Arm) (refused : Option Union) :
    ConfinedTo scope build (build.addArm scope ident location arm refused).2 := by
  cases refused with
  | none =>
      unfold addArm
      cases accepted : build.schema.appendArm scope ident arm with
      | error error => exact confined_report scope build _
      | ok grown =>
          obtain ⟨appended, packets⟩ := Schema.append_arm_eq_ok accepted
          obtain ⟨_, _, _, _, updated⟩ := ScopeForest.append_arm_eq_ok appended
          exact confined_update packets updated
  | some refused =>
      cases appended : refused.append arm with
      | error error =>
          simp only [addArm, appended]
          exact confined_report scope build _
      | ok grown =>
          simp only [addArm, appended]
          exact ConfinedTo.refl scope build

end Build

namespace Tree

open Build (ConfinedTo)

variable {failFast : Bool}

theorem optional_opened_confined (scope : ScopeId) (location : Location) (ident : Token)
    (condition : Disjunction) (build : Build) :
    ConfinedTo scope build (optionalOpened scope location ident condition build) := by
  have created := Build.confined_create_scope scope build
  rw [optionalOpened]
  cases condition.resolve build.schema.forest scope with
  | refused problems => exact created.trans (Build.confined_report scope _ problems)
  | accepted resolved => exact created.trans (Build.confined_declare _ scope _ location)

theorem arm_opened_confined (scope : ScopeId) (guard : Option Disjunction) (tag : Tag)
    (build : Build) : ConfinedTo scope build (armOpened scope guard tag build) :=
  (Build.confined_report scope build _).trans (Build.confined_create_scope scope _)

theorem arm_closed_confined (scope : ScopeId) (ident : String) (location : Location)
    (guard : Option Disjunction) (tag : Tag) (reached : Option Union × Build) (walked : Build) :
    ConfinedTo scope walked (armClosed scope ident location guard tag reached walked).2 := by
  rw [armClosed]
  split
  · exact ConfinedTo.refl scope walked
  · exact Build.confined_add_arm walked scope ident location _ _

/-- The scope of a block is new when the block is entered. -/
theorem walks_confined : (Account.throughout ConfinedTo).Holds failFast where
  always location ident descriptor scope build := by
    rw [always_build_eq]
    cases descriptor.resolve build.schema.forest scope ident.item with
    | refused problems => exact Build.confined_report scope build problems
    | accepted encoding => exact Build.confined_declare build scope _ location
  optional location ident condition _ scope build inside :=
    (optional_opened_confined scope location ident condition build).inner (Nat.lt_irrefl _) inside
  union location _ _ scope build inside :=
    (Build.confined_declare build scope _ location).trans inside
  arm location guard tag _ scope ident reached inside :=
    ((arm_opened_confined scope guard tag reached.2).inner (Nat.lt_irrefl _) inside).trans
      (arm_closed_confined scope ident location guard tag reached _)
  still _ scope build _ := ConfinedTo.refl scope build
  goes_on _ _ _ _ first later := ConfinedTo.trans first later
  arms_still _ scope _ reached _ := ConfinedTo.refl scope reached.2
  arms_go_on _ _ _ _ _ first later := ConfinedTo.trans first later

theorem Statement.build_confined (statement : Statement) (scope : ScopeId) (build : Build) :
    ConfinedTo scope build (statement.build failFast scope build) :=
  walks_confined.statement statement scope build

theorem Arm.build_confined (arm : Arm) (scope : ScopeId) (ident : String)
    (refused : Option Union) (build : Build) :
    ConfinedTo scope build (arm.build failFast scope ident refused build).2 :=
  walks_confined.arm_built arm scope ident (refused, build)

theorem buildBlock_confined (body : List Statement) (scope : ScopeId) (build : Build) :
    ConfinedTo scope build (buildBlock failFast scope body build) :=
  walks_confined.block body scope build

theorem buildArms_confined (arms : List Arm) (scope : ScopeId) (ident : String)
    (refused : Option Union) (build : Build) :
    ConfinedTo scope build (buildArms failFast scope ident arms refused build) :=
  walks_confined.arms arms scope ident (refused, build)

end Tree

end PacketSchema
