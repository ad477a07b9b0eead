import PacketSchema.Proofs.Arms.Offered
import PacketSchema.Proofs.Layout.Later
import PacketSchema.Proofs.Omission

/-!
# Around a place

A walk comes to a place in a tree, walks what stands there and goes on. What it walks around the
place has its own arms, whose refusals are not reported at the place, and its own scopes: to the
scope of the place it adds fields behind those that are there, and the scopes that are opened from
there on it leaves alone.
-/

namespace PacketSchema

namespace Tree

open Build (ConfinedTo RefusesWithin)

variable {scope : ScopeId} {before middle entered inside walked after build : Build}

/-- A body that is walked at a scope only adds fields to it. -/
theorem block_appends {present : Scope} (body : List Statement)
    (found : build.schema.forest.scope? scope = some present) :
    ∃ more, (buildBlock false scope body build).schema.forest.scope? scope =
      some ⟨present.parent, present.fields ++ more⟩ := by
  -- The body is placed in a list of blocks that holds its own ones at their numbers.
  let pad : Block := .packet ⟨⟨⟨0, 0⟩, ""⟩, none, body⟩
  have stands := stands_append (List.replicate build.schema.forest.size pad)
    (blockOpenings scope.index build.schema.forest.size body)
  rw [List.length_replicate] at stands
  obtain ⟨added, last, -⟩ := (block_placed body found stands).fields
  exact ⟨added, last⟩

structure EntersBlock (scope : ScopeId) (before middle entered : Build) : Prop where
  reaches : before.schema.Reaches middle.schema
  issued : middle.schema.forest.Issued scope
  opens : Schema.Entered scope middle.schema entered.schema
  coherent : entered.schema.Coherent

theorem enters_block (coherent : before.schema.Coherent)
    (issued : before.schema.forest.Issued scope) (reaches : before.schema.Reaches middle.schema)
    (enters : Schema.Enters scope middle.schema entered.schema) :
    EntersBlock scope before middle entered := by
  have kept := (Schema.Reaches.parent_kept reaches coherent.formed issued).1
  have reached := coherent.reached reaches
  have opens := enters.opens reached kept
  exact ⟨reaches, kept, opens, reached.reached opens.spares.reaches⟩

theorem enters_optional (coherent : build.schema.Coherent)
    (issued : build.schema.forest.Issued scope) (earlier : List Statement) (location : Location)
    (ident : Token) (condition : Disjunction) :
    EntersBlock scope build (buildBlock false scope earlier build)
      (optionalOpened scope location ident condition (buildBlock false scope earlier build)) := by
  apply enters_block coherent issued
  · exact buildBlock_reaches earlier scope build coherent.formed issued
  · rw [optionalOpened]
    cases checked :
      condition.resolve (buildBlock false scope earlier build).schema.forest scope with
    | refused problems => exact .plain
    | accepted resolved =>
        exact Build.declare_enters location (Disjunction.condition_accepted checked).2 rfl

theorem enters_arm (coherent : build.schema.Coherent) (issued : build.schema.forest.Issued scope)
    (earlier : List Statement) (location : Location) (ident : Token) (above : List Arm)
    (guard : Option Disjunction) (tag : Tag) :
    let reached := walkArms scope ident.item above
      (unionOpened scope location ident (buildBlock false scope earlier build))
    EntersBlock scope build reached.2 (armOpened scope guard tag reached.2) := by
  apply enters_block coherent issued ?_ .plain
  have first := @buildBlock_reaches false earlier scope build coherent.formed issued
  have declared := first.trans (@Build.declare_reaches _ scope (.union (.empty ident.item)) location
    (by simp [ScopeForest.Grounds, Field.references, Union.empty])
    (by simp [Field.blocks, Union.empty]))
  have kept := (Schema.Reaches.parent_kept declared coherent.formed issued).1
  rw [← buildArms_eq]
  exact declared.trans (buildArms_reaches above scope ident.item _ _
    (coherent.reached declared).formed kept)

/-- A place that a walk at a scope comes to is at this scope or at one that the walk opened. -/
structure Station.Reached (scope : ScopeId) (build : Build) (station : Station) : Prop where
  reaches : build.schema.Reaches station.build.schema
  issued : station.build.schema.forest.Issued station.scope
  deep : scope.index ≤ station.scope.index

variable {station : Station}

theorem EntersBlock.below (enters : EntersBlock scope before middle entered)
    (reached : station.Reached ⟨middle.schema.forest.size⟩ entered) :
    scope.index < station.scope.index :=
  Nat.lt_of_lt_of_le enters.issued reached.deep

/-- A place in the block is a place for the walk around it. -/
theorem EntersBlock.reached (enters : EntersBlock scope before middle entered)
    (inner : station.Reached ⟨middle.schema.forest.size⟩ entered) :
    station.Reached scope before where
  reaches := (enters.reaches.trans enters.opens.spares.reaches).trans inner.reaches
  issued := inner.issued
  deep := Nat.le_of_lt (enters.below inner)

theorem BlockHole.station_reached : ∀ (hole : BlockHole) {scope : ScopeId} {build : Build},
    build.schema.Coherent → build.schema.forest.Issued scope →
      (hole.station scope build).Reached scope build
  | .here earlier later, scope, build, coherent, issued => by
      have walked := @buildBlock_reaches false earlier scope build coherent.formed
        issued
      have kept := (Schema.Reaches.parent_kept walked coherent.formed issued).1
      exact ⟨walked, kept, Nat.le_refl _⟩
  | .optional earlier location ident condition body later, _, _, coherent, issued => by
      have enters := enters_optional coherent issued earlier location ident condition
      exact enters.reached (body.station_reached enters.coherent enters.opens.issued_child)
  | .arm earlier location ident above place guard tag body below later, _, _, coherent,
      issued => by
      have enters := enters_arm coherent issued earlier location ident above guard tag
      exact enters.reached (body.station_reached enters.coherent enters.opens.issued_child)

/-- A walk that goes on leaves a scope alone, and all scopes that were opened when it had come to
this one. -/
structure Station.Kept (station : Station) (inside after : Build) : Prop where
  size : inside.schema.forest.size ≤ after.schema.forest.size
  scopes : ∀ id, inside.schema.forest.Issued id →
    id = station.scope ∨ ¬station.build.schema.forest.Issued id →
      after.schema.forest.scope? id = inside.schema.forest.scope? id

theorem Station.Kept.trans (first : station.Kept inside middle)
    (second : station.Kept middle after) : station.Kept inside after where
  size := first.size.trans second.size
  scopes id issued new := (second.scopes id (Nat.lt_of_lt_of_le issued first.size) new).trans
    (first.scopes id issued new)

/-- An outer scope was there before. -/
theorem Station.kept_of_confined (confined : ConfinedTo scope inside after)
    (outer : scope.index < station.scope.index)
    (issued : station.build.schema.forest.Issued station.scope) :
    station.Kept inside after where
  size := confined.size
  scopes id there new := by
    apply confined.others id there
    rintro rfl
    rcases new with rfl | new
    · exact Nat.lt_irrefl _ outer
    · exact new (Nat.lt_trans outer issued)

/-- What comes behind the block of an arm: the arm is offered, then come the arms below it and the
statements behind the union. -/
theorem arm_left_confined (ident : String) (location : Location) (guard : Option Disjunction)
    (tag : Tag) (reached : Option Union × Build) (below : List Arm) (later : List Statement) :
    ConfinedTo scope walked (buildBlock false scope later (walkArms scope ident below
      (armClosed scope ident location guard tag reached walked)).2) := by
  have closed : ConfinedTo scope walked
      (armClosed scope ident location guard tag reached walked).2 := by
    rw [armClosed]
    split
    · exact .refl scope walked
    · exact Build.confined_add_arm walked scope ident location _ _
  exact (closed.trans (walk_arms_confined scope ident below _)).trans
    (buildBlock_confined later scope _)

/-- What is walked in the scope of the place is the rest of its block. What comes behind the block
changes neither this scope nor a newer one. -/
theorem BlockHole.resume_kept : ∀ (hole : BlockHole) {scope : ScopeId} {build : Build},
    build.schema.Coherent → build.schema.forest.Issued scope → ∃ rest, ∀ after,
      (hole.station scope build).Kept
        (buildBlock false (hole.station scope build).scope rest after)
        (hole.resume scope build after)
  | .here _ later, _, _, _, _ => ⟨later, fun _ => ⟨Nat.le_refl _, fun _ _ _ => rfl⟩⟩
  | .optional earlier location ident condition body later, scope, _, coherent, issued => by
      have enters := enters_optional coherent issued earlier location ident condition
      have inner := body.station_reached enters.coherent enters.opens.issued_child
      obtain ⟨rest, goes⟩ := body.resume_kept enters.coherent enters.opens.issued_child
      refine ⟨rest, fun after => (goes after).trans ?_⟩
      exact Station.kept_of_confined (buildBlock_confined later scope _) (enters.below inner)
        inner.issued
  | .arm earlier location ident above place guard tag body below later, scope, _, coherent,
      issued => by
      have enters := enters_arm coherent issued earlier location ident above guard tag
      have inner := body.station_reached enters.coherent enters.opens.issued_child
      obtain ⟨rest, goes⟩ := body.resume_kept enters.coherent enters.opens.issued_child
      refine ⟨rest, fun after => (goes after).trans ?_⟩
      exact Station.kept_of_confined (arm_left_confined ident.item place guard tag _ below later)
        (enters.below inner) inner.issued

theorem Station.kept_of_prefix
    (begins : inside.schema.forest.scopes <+: after.schema.forest.scopes) :
    station.Kept inside after where
  size := begins.length_le
  scopes _ issued _ := ScopeForest.scope_of_prefix begins issued

namespace ModuleHole

variable (hole : ModuleHole)

theorem before_coherent : hole.visit.before.schema.Coherent :=
  Schema.coherent_empty.reached
    (buildPackets_reaches hole.earlier .empty Schema.coherent_empty.formed)

theorem opened_coherent : hole.visit.opened.schema.Coherent :=
  hole.before_coherent.reached hole.visit.opened_reaches

theorem station_reached : hole.station.Reached hole.visit.scope hole.visit.opened :=
  hole.body.station_reached hole.opened_coherent hole.visit.opened_issued

theorem station_coherent : hole.station.build.schema.Coherent :=
  hole.opened_coherent.reached hole.station_reached.reaches

/-- What stands at the place is walked, then the rest of its block, and all the rest of the module
leaves the scope of the place alone and those that were opened there. -/
theorem build_kept (inside : List Statement) :
    ∃ rest, hole.station.Kept
      (buildBlock false hole.station.scope rest
        (buildBlock false hole.station.scope inside hole.station.build))
      ((hole.fill inside).build false) := by
  let visit : Visit := ⟨hole.packet inside, buildPackets false hole.earlier .empty⟩
  have coherent : visit.before.schema.Coherent := hole.before_coherent
  have whole : (hole.fill inside).build false =
      buildPackets false hole.later (visit.after false) := by
    rw [Module.build, fill, buildPackets_append, buildPackets_cons]
    rfl
  have walked : visit.walked false = hole.body.resume hole.visit.scope hole.visit.opened
      (buildBlock false hole.station.scope inside hole.station.build) :=
    hole.body.build_fill inside hole.visit.scope hole.visit.opened
  have begins : (visit.walked false).schema.forest.scopes <+:
      ((hole.fill inside).build false).schema.forest.scopes := by
    rw [whole, ← visit.after_forest]
    exact (buildPackets_extends hole.later (visit.after false)
      (coherent.reached (visit.after_reaches coherent))).scopes
  obtain ⟨rest, goes⟩ := hole.body.resume_kept hole.opened_coherent hole.visit.opened_issued
  refine ⟨rest, (goes _).trans (Station.kept_of_prefix ?_)⟩
  rwa [walked] at begins

/-- Behind a statement its scope only gets more fields, and the scopes that it opened stay as they
are. -/
theorem visited_kept (statement : Statement) :
    (∀ present, (hole.visited statement).schema.forest.scope? hole.station.scope = some present →
      ∃ more, ((hole.fill [statement]).build false).schema.forest.scope? hole.station.scope =
        some ⟨present.parent, present.fields ++ more⟩) ∧
    ∀ id, ¬hole.station.build.schema.forest.Issued id →
      (hole.visited statement).schema.forest.Issued id →
        ((hole.fill [statement]).build false).schema.forest.scope? id =
          (hole.visited statement).schema.forest.scope? id := by
  obtain ⟨rest, kept⟩ := hole.build_kept [statement]
  rw [buildBlock_cons, buildBlock] at kept
  constructor
  · intro present found
    obtain ⟨more, last⟩ := block_appends rest found
    exact ⟨more, (kept.scopes _ (ScopeForest.issued_of_scope last) (.inl rfl)).trans last⟩
  · intro id new issued
    have confined : ConfinedTo hole.station.scope (hole.visited statement) _ :=
      @buildBlock_confined false rest _ _
    have other : id ≠ hole.station.scope := by
      rintro rfl
      exact new hole.station_reached.issued
    exact (kept.scopes id (confined.issued issued) (.inr new)).trans
      (confined.others id issued other)

end ModuleHole

theorem arm_left_refuses (scope : ScopeId) (ident : String) (location : Location)
    (guard : Option Disjunction) (tag : Tag) (reached : Option Union × Build) (below : List Arm)
    (later : List Statement) :
    RefusesWithin (location :: (armListLocations below ++ blockArmLocations later)) walked
      (buildBlock false scope later (walkArms scope ident below
        (armClosed scope ident location guard tag reached walked)).2) := by
  have closed := @arm_closed_refuses walked scope ident location guard tag reached
  have arms := closed.trans (walk_arms_refuses below scope ident _)
  have block := arms.trans (buildBlock_refuses later scope _)
  rwa [List.singleton_append, List.cons_append] at block

namespace BlockHole

def armsBefore : BlockHole → List Location
  | .here earlier _ => blockArmLocations earlier
  | .optional earlier _ _ _ body _ => blockArmLocations earlier ++ body.armsBefore
  | .arm earlier _ _ above place _ _ body _ _ =>
      blockArmLocations earlier ++ (armListLocations above ++ place :: body.armsBefore)

def armsBehind : BlockHole → List Location
  | .here _ later => blockArmLocations later
  | .optional _ _ _ _ body later => body.armsBehind ++ blockArmLocations later
  | .arm _ _ _ _ _ _ _ body below later =>
      body.armsBehind ++ (armListLocations below ++ blockArmLocations later)

theorem arm_locations_fill (inside : List Statement) : ∀ hole : BlockHole,
    blockArmLocations (hole.fill inside) =
      hole.armsBefore ++ (blockArmLocations inside ++ hole.armsBehind)
  | .here earlier later => by
      rw [fill, block_arm_locations_append, block_arm_locations_append]
      rfl
  | .optional earlier location ident condition body later => by
      rw [fill, block_arm_locations_append, blockArmLocations, Statement.armLocations,
        arm_locations_fill inside body, armsBefore, armsBehind]
      simp only [List.append_assoc]
  | .arm earlier location ident above place guard tag body below later => by
      rw [fill, block_arm_locations_append, blockArmLocations, Statement.armLocations,
        arm_list_locations_append, armListLocations, Arm.armLocations,
        arm_locations_fill inside body, armsBefore, armsBehind]
      simp only [List.append_assoc, List.cons_append]

/-- On the way to the place only arms before it and around it are refused. -/
theorem station_refuses : ∀ (hole : BlockHole) (scope : ScopeId) (build : Build),
    RefusesWithin hole.armsBefore build (hole.station scope build).build
  | .here earlier _, scope, build => buildBlock_refuses earlier scope build
  | .optional earlier location ident condition body _, scope, build => by
      have opened := (buildBlock_refuses earlier scope build).trans
        (optional_opened_refuses scope location ident condition)
      rw [List.append_nil] at opened
      exact opened.trans (body.station_refuses _ _)
  | .arm earlier location ident above place guard tag body _ _, scope, build => by
      have declared := (buildBlock_refuses earlier scope build).trans
        (union_opened_refuses scope location ident)
      have opened := (declared.trans (walk_arms_refuses above scope ident.item _)).trans
        (arm_opened_refuses scope guard tag)
      apply (opened.trans (body.station_refuses _ _)).weaken
      rw [armsBefore]
      simp only [List.append_nil, List.append_assoc]
      intro found member
      simp only [List.mem_append, List.mem_cons] at member ⊢
      tauto

/-- Behind the place only arms around it and behind it are refused. -/
theorem resume_refuses : ∀ (hole : BlockHole) (scope : ScopeId) (build after : Build),
    RefusesWithin (hole.armsBefore ++ hole.armsBehind) after (hole.resume scope build after)
  | .here _ later, scope, _, after =>
      (buildBlock_refuses later scope after).weaken (List.subset_append_right _ _)
  | .optional earlier _ _ _ body later, scope, _, after => by
      apply ((body.resume_refuses _ _ after).trans (buildBlock_refuses later scope _)).weaken
      intro found member
      simp only [armsBefore, armsBehind, List.mem_append] at member ⊢
      tauto
  | .arm earlier _ ident _ place guard tag body below later, scope, _, after => by
      apply ((body.resume_refuses _ _ after).trans
        (arm_left_refuses scope ident.item place guard tag _ below later)).weaken
      intro found member
      simp only [armsBefore, armsBehind, List.mem_append, List.mem_cons] at member ⊢
      tauto

end BlockHole

namespace ModuleHole

variable (hole : ModuleHole)

def armsBefore : List Location :=
  (hole.earlier.flatMap fun packet => blockArmLocations packet.body) ++ hole.body.armsBefore

def armsBehind : List Location :=
  hole.body.armsBehind ++ hole.later.flatMap fun packet => blockArmLocations packet.body

theorem arm_locations_fill (inside : List Statement) :
    (hole.fill inside).armLocations =
      hole.armsBefore ++ (blockArmLocations inside ++ hole.armsBehind) := by
  rw [Module.armLocations, fill, List.flatMap_append, List.flatMap_cons, packet,
    hole.body.arm_locations_fill, armsBefore, armsBehind]
  simp only [List.append_assoc]

theorem station_refuses : RefusesWithin hole.armsBefore .empty hole.station.build := by
  have opened := (buildPackets_refuses hole.earlier .empty).trans
    ((hole.packet []).opened_refuses (buildPackets false hole.earlier .empty))
  rw [List.append_nil] at opened
  exact opened.trans (hole.body.station_refuses hole.visit.scope hole.visit.opened)

theorem resume_refuses (after : Build) :
    RefusesWithin (hole.armsBefore ++ hole.armsBehind) after (hole.resume after) := by
  have walked := (hole.body.resume_refuses hole.visit.scope hole.visit.opened after).trans
    (Build.refuses_register hole.visit.record hole.ident.location hole.visit.derivation)
  apply (walked.trans (buildPackets_refuses hole.later _)).weaken
  intro found member
  simp only [armsBefore, armsBehind, List.append_nil, List.mem_append] at member ⊢
  tauto

/-- What the whole walk reports as refused at places of arms that stand at the place is what is
reported so when the place is walked. -/
theorem refused_at_fill {inside : List Statement} {places : List Location}
    (apart : (hole.fill inside).armLocations.Nodup) (own : places ⊆ blockArmLocations inside) :
    refusedAt places hole.station.build.diagnostics = [] ∧
      refusedAt places ((hole.fill inside).build false).diagnostics =
        refusedAt places
          (buildBlock false hole.station.scope inside hole.station.build).diagnostics := by
  rw [hole.arm_locations_fill] at apart
  obtain ⟨-, insideApart, beforeApart⟩ := List.nodup_append'.mp apart
  obtain ⟨-, -, behindApart⟩ := List.nodup_append'.mp insideApart
  have before : ∀ place ∈ hole.armsBefore, place ∉ places := fun place listed member =>
    beforeApart listed (List.mem_append_left _ (own member))
  have behind : ∀ place ∈ hole.armsBehind, place ∉ places := fun place listed member =>
    behindApart (own member) listed
  refine ⟨hole.station_refuses.refused_at before, ?_⟩
  rw [hole.build_fill]
  apply (hole.resume_refuses _).refused_at
  intro place member
  rcases List.mem_append.mp member with listed | listed
  · exact before place listed
  · exact behind place listed

end ModuleHole

end Tree

end PacketSchema
