import PacketSchema.Proofs.Arms.Attributed
import PacketSchema.Proofs.Arms.Kept
import PacketSchema.Proofs.Image.Bodies

/-!
# Arms offered to a union

The walk of a union statement comes to its arms one after another. An arm that could be resolved is
offered to the union when its block has been walked: to the one in the scope, which is found again
by its name, or to a union apart, where the name was not free. All that is walked in between leaves
either of them alone, so both are what a new union would be that had been given the same arms.
-/

namespace PacketSchema

namespace Tree

structure ArmVisit where
  arm : Arm
  before : Build

namespace ArmVisit

variable (visit : ArmVisit)

def block : ScopeId := ⟨visit.before.schema.forest.size⟩

def condition (outer : ScopeId) : Checked (Option Condition) :=
  .option (fun written => written.resolve visit.before.schema.forest outer) visit.arm.guard

/-- What the arm offers to its union. It offers nothing unless its condition resolves, if it has
one, and its value is in range. -/
def offer? (outer : ScopeId) : Option PacketSchema.Arm :=
  match visit.condition outer, visit.arm.tag.resolve with
  | .accepted condition, .accepted tag => some ⟨condition, tag, visit.block⟩
  | _, _ => none

def walked (outer : ScopeId) : Build :=
  buildBlock false visit.block visit.arm.body
    (armOpened outer visit.arm.guard visit.arm.tag visit.before)

end ArmVisit

def armVisits (outer : ScopeId) (ident : String) :
    List Arm → Option Union × Build → List ArmVisit
  | [], _ => []
  | arm :: rest, reached =>
      ⟨arm, reached.2⟩ :: armVisits outer ident rest
        (arm.build false outer ident reached.1 reached.2)

def offers (outer : ScopeId) (visits : List ArmVisit) : List (Located PacketSchema.Arm) :=
  visits.filterMap fun visit =>
    (visit.offer? outer).map fun offered => ⟨visit.arm.location, offered⟩

/-- What is reported at some places about the answers given there. -/
def refusals (places : List Location) (answers : List (Except SchemaError Unit)) :
    List Diagnostic :=
  (places.zip answers).filterMap fun (place, answer) =>
    match answer with
    | .ok _ => none
    | .error error => some ⟨place, error⟩

end Tree

/-- The run over some arms that stand at places: the refusals, each at the place of its arm, and
the union in the end. -/
def Union.offerPlaced (union : Union) (offers : List (Tree.Located Arm)) :
    List Diagnostic × Union :=
  let run := union.offerAll (offers.map Tree.Located.item)
  (Tree.refusals (offers.map Tree.Located.location) run.1, run.2)

theorem Union.offer_placed_append (union : Union) (first second : List (Tree.Located Arm)) :
    union.offerPlaced (first ++ second) =
      ((union.offerPlaced first).1 ++ ((union.offerPlaced first).2.offerPlaced second).1,
        ((union.offerPlaced first).2.offerPlaced second).2) := by
  have lengths : (first.map Tree.Located.location).length =
      (union.offerAll (first.map Tree.Located.item)).1.length := by
    rw [Union.offerAll, answers_length, List.length_map, List.length_map]
  have parted : ∀ late, Tree.refusals (first.map Tree.Located.location ++
      second.map Tree.Located.location)
        ((union.offerAll (first.map Tree.Located.item)).1 ++ late) =
      Tree.refusals (first.map Tree.Located.location)
          (union.offerAll (first.map Tree.Located.item)).1 ++
        Tree.refusals (second.map Tree.Located.location) late := by
    intro late
    rw [Tree.refusals, List.zip_append lengths, List.filterMap_append]
    rfl
  rw [offerPlaced, List.map_append, List.map_append, Union.offerAll, call_all_append]
  exact Prod.ext (parted _) rfl

namespace Tree

open Build (ConfinedTo UnionAt)

/-- While the arms of a union are walked, the fields of its scope and the union apart are those of a
run: the union stands last in the scope, or it is the one that is handed on. -/
structure Carries (outer : ScopeId) (parent : Option ScopeId) (fields : List Field)
    (union : Union) (reached : Option Union × Build) : Prop where
  held : ∃ current, reached.2.schema.forest.scope? outer = some ⟨parent, current⟩ ∧
    UnionAt union.ident fields union.arms reached.1.isNone current
  apart : ∀ choice ∈ reached.1, choice = union

section Walking

variable {outer : ScopeId} {parent : Option ScopeId} {fields : List Field} {union : Union}
  {reached : Option Union × Build} {build walked : Build}

theorem Carries.issued (carries : Carries outer parent fields union reached) :
    reached.2.schema.forest.Issued outer := by
  obtain ⟨_, there, -⟩ := carries.held
  exact ScopeForest.issued_of_scope there

theorem Carries.kept (carries : Carries outer parent fields union reached)
    (same : walked.schema.forest.scope? outer = reached.2.schema.forest.scope? outer) :
    Carries outer parent fields union (reached.1, walked) := by
  obtain ⟨current, there, held⟩ := carries.held
  exact ⟨⟨current, same.trans there, held⟩, carries.apart⟩

theorem offer_ident (union : Union) (arm : PacketSchema.Arm) :
    (union.offer arm).2.ident = union.ident := by
  cases found : union.conflict? arm with
  | none => rw [Union.offer_of_none found]
  | some conflict => rw [Union.offer_of_some found]

/-- The union of a scope is found there by its name, if no field before it has this name. -/
theorem field_declared {forest : ScopeForest} {later : List Field}
    (there : forest.scope? outer = some ⟨parent, fields ++ .union union :: later⟩)
    (fresh : ∀ earlier ∈ fields, earlier.ident ≠ union.ident) :
    forest.field? outer union.ident = some (.union union) := by
  have absent : fields.find? (fun field => field.ident == union.ident) = none := by
    rw [List.find?_eq_none]
    intro field member
    simpa using fresh field member
  rw [ScopeForest.field_of_scope there, Scope.find?, List.find?_append, absent]
  simp [Field.ident]

/-- What an arm comes to is what it comes to in the run, and a refusal is reported at its place. -/
theorem Carries.offered {refused : Option Union}
    (carries : Carries outer parent fields union (refused, build)) (location : Location)
    (arm : PacketSchema.Arm) :
    Carries outer parent fields (union.offer arm).2
        (build.addArm outer union.ident location arm refused) ∧
      (build.addArm outer union.ident location arm refused).2.diagnostics =
        build.diagnostics ++ refusals [location] [(union.offer arm).1] := by
  obtain ⟨⟨current, there, held⟩, apart⟩ := carries
  cases refused with
  | some choice =>
      cases apart choice rfl
      cases held
      rw [Build.addArm, Union.offer]
      cases union.append arm with
      | error error => exact ⟨⟨⟨_, there, .refused⟩, by simp⟩, rfl⟩
      | ok grown => exact ⟨⟨⟨_, there, .refused⟩, by simp⟩, (List.append_nil _).symm⟩
  | none =>
      cases held with
      | declared fresh =>
          have declared := field_declared there fresh
          cases found : union.conflict? arm with
          | some conflict =>
              have refused : build.schema.appendArm outer union.ident arm =
                  .error (.armRefused union.ident conflict) := by
                rw [Schema.appendArm, ScopeForest.appendArm, declared]
                simp only [Union.append, found]
              rw [Union.offer_of_some found, Build.addArm, refused]
              exact ⟨⟨⟨_, there, .declared fresh⟩, by simp⟩, rfl⟩
          | none =>
              have accepted : ∃ grown, build.schema.appendArm outer union.ident arm =
                  .ok grown := by
                rw [Schema.appendArm, ScopeForest.appendArm, declared]
                simp only [Union.append, found]
                exact ⟨_, rfl⟩
              obtain ⟨grown, accepted⟩ := accepted
              obtain ⟨last, -⟩ := Schema.scope_arm_added there fresh accepted
              rw [Union.offer_of_none found, Build.addArm, accepted]
              exact ⟨⟨⟨_, last, .declared fresh⟩, by simp⟩, (List.append_nil _).symm⟩

/-- The block of an arm is walked in a scope of its own, so all scopes are left alone that are
there before. -/
theorem ArmVisit.walked_other (visit : ArmVisit) (outer : ScopeId) {id : ScopeId}
    (issued : visit.before.schema.forest.Issued id) :
    (visit.walked outer).schema.forest.scope? id = visit.before.schema.forest.scope? id := by
  have opened : (armOpened outer visit.arm.guard visit.arm.tag
      visit.before).schema.forest.scope? id = visit.before.schema.forest.scope? id :=
    ScopeForest.scope_create_old issued (some outer)
  have still : (armOpened outer visit.arm.guard visit.arm.tag
      visit.before).schema.forest.Issued id := ScopeForest.issued_create issued (some outer)
  have confined := @buildBlock_confined false visit.arm.body visit.block
    (armOpened outer visit.arm.guard visit.arm.tag visit.before)
  have other : id ≠ visit.block := (ScopeForest.ne_of_issued issued (Nat.le_refl _)).symm
  exact (confined.others id still other).trans opened

theorem ArmVisit.build_eq (visit : ArmVisit) (outer : ScopeId) (ident : String)
    (refused : Option Union) :
    visit.arm.build false outer ident refused visit.before =
      match visit.offer? outer with
      | none => (refused, visit.walked outer)
      | some offered =>
          (visit.walked outer).addArm outer ident visit.arm.location offered refused := by
  have same : visit.arm.build false outer ident refused visit.before =
      armClosed outer ident visit.arm.location visit.arm.guard visit.arm.tag
        (refused, visit.before) (visit.walked outer) := by
    obtain ⟨⟨location, guard, tag, body⟩, before⟩ := visit
    exact arm_build_eq location guard tag body (refused, before)
  have checked : armChecked outer visit.arm.guard visit.arm.tag visit.before =
      .both Prod.mk (visit.condition outer) visit.arm.tag.resolve := rfl
  rw [same, armClosed, checked, ArmVisit.offer?]
  cases visit.condition outer with
  | refused problems => rfl
  | accepted condition => cases visit.arm.tag.resolve <;> rfl

/-- When the block of an arm has been walked, no scope changes any more but that of the union. -/
theorem ArmVisit.closed_confined (visit : ArmVisit) (outer : ScopeId) (ident : String)
    (refused : Option Union) :
    ConfinedTo outer (visit.walked outer)
      (visit.arm.build false outer ident refused visit.before).2 := by
  rw [visit.build_eq]
  cases visit.offer? outer with
  | none => exact .refl outer _
  | some offered => exact Build.confined_add_arm _ outer ident visit.arm.location offered refused

theorem walk_arms_confined (outer : ScopeId) (ident : String) (arms : List Arm)
    (reached : Option Union × Build) :
    ConfinedTo outer reached.2 (walkArms outer ident arms reached).2 := by
  rw [← buildArms_eq]
  exact buildArms_confined arms outer ident reached.1 reached.2

theorem offers_cons (visit : ArmVisit) (visits : List ArmVisit) :
    offers outer (visit :: visits) = offers outer [visit] ++ offers outer visits := by
  rw [offers, List.filterMap_cons, offers, List.filterMap_cons]
  cases visit.offer? outer <;> rfl

/-- A visit comes to what its offer comes to in the run, and a refusal is reported behind all that
is reported about its block. -/
theorem Carries.visited {refused : Option Union} {ident : String} (visit : ArmVisit)
    (carries : Carries outer parent fields union (refused, visit.before))
    (named : union.ident = ident) :
    Carries outer parent fields (union.offerPlaced (offers outer [visit])).2
        (visit.arm.build false outer ident refused visit.before) ∧
      (union.offerPlaced (offers outer [visit])).2.ident = ident ∧
      (visit.arm.build false outer ident refused visit.before).2.diagnostics =
        (visit.walked outer).diagnostics ++ (union.offerPlaced (offers outer [visit])).1 := by
  subst named
  have walked := carries.kept (visit.walked_other outer carries.issued)
  rw [visit.build_eq, offers, List.filterMap_cons, List.filterMap_nil]
  cases visit.offer? outer with
  | none => exact ⟨walked, rfl, (List.append_nil _).symm⟩
  | some offered =>
      obtain ⟨carried, reported⟩ := walked.offered visit.arm.location offered
      exact ⟨carried, offer_ident union offered, reported⟩

/-- What a run reports about one arm is a refusal of it. -/
theorem refused_at_offer {places : List Location} (visit : ArmVisit)
    (inside : visit.arm.location ∈ places) (union : Union) :
    refusedAt places (union.offerPlaced (offers outer [visit])).1 =
      (union.offerPlaced (offers outer [visit])).1 := by
  rw [offers, List.filterMap_cons, List.filterMap_nil]
  cases visit.offer? outer with
  | none => rfl
  | some offered =>
      change refusedAt places (refusals [visit.arm.location] [(union.offer offered).1]) =
        refusals [visit.arm.location] [(union.offer offered).1]
      cases found : union.conflict? offered with
      | none =>
          rw [Union.offer_of_none found]
          rfl
      | some conflict =>
          rw [Union.offer_of_some found]
          simp [refusals, refusedAt, SchemaError.isArmRefused, inside]

/-- Before it is offered, an arm is walked without a refusal outside its block. -/
theorem ArmVisit.walked_refuses (visit : ArmVisit) (outer : ScopeId) :
    Build.RefusesWithin (blockArmLocations visit.arm.body) visit.before (visit.walked outer) :=
  (arm_opened_refuses outer visit.arm.guard visit.arm.tag).trans
    (buildBlock_refuses visit.arm.body visit.block _)

/-- The walk of the arms carries the union of the run over all that they offer, and what is refused
at the places of these arms is what the run refuses. -/
theorem Carries.walked_all {ident : String}
    (carries : Carries outer parent fields union reached) (named : union.ident = ident)
    (arms : List Arm) :
    Carries outer parent fields
        (union.offerPlaced (offers outer (armVisits outer ident arms reached))).2
        (walkArms outer ident arms reached) ∧
      ∀ places : List Location, (∀ arm ∈ arms, arm.location ∈ places ∧
          ∀ place ∈ blockArmLocations arm.body, place ∉ places) →
        refusedAt places (walkArms outer ident arms reached).2.diagnostics =
          refusedAt places reached.2.diagnostics ++
            (union.offerPlaced (offers outer (armVisits outer ident arms reached))).1 := by
  induction arms generalizing union reached with
  | nil => exact ⟨carries, fun _ _ => (List.append_nil _).symm⟩
  | cons arm rest later =>
      obtain ⟨refused, build⟩ := reached
      obtain ⟨first, same, reported⟩ := Carries.visited ⟨arm, build⟩ carries named
      obtain ⟨last, further⟩ := later first same
      rw [armVisits, offers_cons, Union.offer_placed_append]
      refine ⟨last, ?_⟩
      intro places own
      obtain ⟨⟨here, apart⟩, others⟩ := List.forall_mem_cons.mp own
      have block := (ArmVisit.walked_refuses ⟨arm, build⟩ outer).refused_at apart
      have behind := further places others
      rw [reported, refused_at_append, block, refused_at_offer ⟨arm, build⟩ here,
        List.append_assoc] at behind
      exact behind

theorem visits_arms (ident : String) (arms : List Arm) (reached : Option Union × Build) :
    (armVisits outer ident arms reached).map ArmVisit.arm = arms := by
  induction arms generalizing reached with
  | nil => rfl
  | cons arm rest later => exact congrArg (arm :: ·) (later _)

/-- The visit of an arm starts where the walk of the arms before it has come to. -/
theorem visit_behind (ident : String) (earlier : List Arm) (arm : Arm) (later : List Arm)
    (reached : Option Union × Build) :
    (armVisits outer ident (earlier ++ arm :: later) reached)[earlier.length]? =
      some ⟨arm, (walkArms outer ident earlier reached).2⟩ := by
  induction earlier generalizing reached with
  | nil => rfl
  | cons first rest behind => exact behind _

theorem ArmVisit.size_walked (visit : ArmVisit) (outer : ScopeId) :
    visit.before.schema.forest.size < (visit.walked outer).schema.forest.size := by
  have confined := @buildBlock_confined false visit.arm.body visit.block
    (armOpened outer visit.arm.guard visit.arm.tag visit.before)
  have created : (armOpened outer visit.arm.guard visit.arm.tag
      visit.before).schema.forest.size = visit.before.schema.forest.size + 1 :=
    ScopeForest.size_create _ _
  have grown := confined.size
  rw [created] at grown
  exact grown

/-- What the walk of all arms changes, from when the block of one of them has been walked. -/
theorem visits_confined {ident : String} {visit : ArmVisit} (arms : List Arm)
    (reached : Option Union × Build) (member : visit ∈ armVisits outer ident arms reached) :
    ConfinedTo outer (visit.walked outer) (walkArms outer ident arms reached).2 := by
  induction arms generalizing reached with
  | nil => cases member
  | cons arm rest later =>
      rcases List.mem_cons.mp member with rfl | behind
      · exact (ArmVisit.closed_confined ⟨arm, reached.2⟩ outer ident reached.1).trans
          (walk_arms_confined outer ident rest _)
      · exact later _ behind

theorem visits_later {ident : String} {visit : ArmVisit} (arms : List Arm)
    (reached : Option Union × Build) (member : visit ∈ armVisits outer ident arms reached) :
    reached.2.schema.forest.size ≤ visit.before.schema.forest.size := by
  induction arms generalizing reached with
  | nil => cases member
  | cons arm rest later =>
      rcases List.mem_cons.mp member with rfl | behind
      · exact Nat.le_refl _
      · have first := walk_arms_confined outer ident [arm] reached
        exact first.size.trans (later _ behind)

/-- No two arms share a block. -/
theorem visits_apart (ident : String) (arms : List Arm) (reached : Option Union × Build) :
    ((armVisits outer ident arms reached).map ArmVisit.block).Nodup := by
  rw [List.Nodup, List.pairwise_map]
  induction arms generalizing reached with
  | nil => exact .nil
  | cons arm rest later =>
      refine .cons ?_ (later _)
      intro visit behind same
      have walked := ArmVisit.size_walked ⟨arm, reached.2⟩ outer
      have closed := (ArmVisit.closed_confined ⟨arm, reached.2⟩ outer ident reached.1).size
      have last := visits_later rest _ behind
      have number : reached.2.schema.forest.size = visit.before.schema.forest.size :=
        congrArg ScopeId.index same
      exact Nat.ne_of_lt (Nat.lt_of_lt_of_le walked (closed.trans last)) number

/-- What is offered to a union apart changes nothing in the schema. -/
theorem ArmVisit.closed_apart (visit : ArmVisit) (ident : String) (choice : Union) :
    ∃ left, (visit.arm.build false outer ident (some choice) visit.before).1 = some left ∧
      (visit.arm.build false outer ident (some choice) visit.before).2.schema =
        (visit.walked outer).schema := by
  rw [visit.build_eq]
  cases visit.offer? outer with
  | none => exact ⟨choice, rfl, rfl⟩
  | some offered =>
      simp only [Build.addArm]
      cases choice.append offered with
      | error error => exact ⟨choice, rfl, rfl⟩
      | ok grown => exact ⟨grown, rfl, rfl⟩

/-- While arms are walked for a union apart, each scope stays as it was when the block had been
walked after which it is there. -/
theorem walk_arms_apart (ident : String) (arms : List Arm) (choice : Union) (build : Build) :
    build.schema.forest.scopes <+:
        (walkArms outer ident arms (some choice, build)).2.schema.forest.scopes ∧
      ∀ visit ∈ armVisits outer ident arms (some choice, build),
        (visit.walked outer).schema.forest.scopes <+:
          (walkArms outer ident arms (some choice, build)).2.schema.forest.scopes := by
  induction arms generalizing choice build with
  | nil => exact ⟨List.prefix_refl _, List.forall_mem_nil _⟩
  | cons arm rest later =>
      obtain ⟨left, still, same⟩ := @ArmVisit.closed_apart outer ⟨arm, build⟩ ident choice
      obtain ⟨begins, behind⟩ :=
        later left (arm.build false outer ident (some choice) build).2
      have next : arm.build false outer ident (some choice) build =
          (some left, (arm.build false outer ident (some choice) build).2) := Prod.ext still rfl
      have block : (ArmVisit.walked ⟨arm, build⟩ outer).schema.forest.scopes <+:
          (walkArms outer ident (arm :: rest) (some choice, build)).2.schema.forest.scopes := by
        rw [walkArms, List.foldl_cons, next]
        rwa [same] at begins
      have before := ScopeForest.scopes_prefix_of_kept fun id =>
        ArmVisit.walked_other ⟨arm, build⟩ outer
      refine ⟨before.trans block, List.forall_mem_cons.mpr ⟨block, ?_⟩⟩
      rw [walkArms, List.foldl_cons, next]
      exact behind

end Walking

end Tree

end PacketSchema
