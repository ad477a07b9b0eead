import PacketSchema.Proofs.Image.Faithful
import PacketSchema.Proofs.Image.Placed
import PacketSchema.Proofs.Walk.Steady

/-!
# Bodies and their blocks

However much is wrong with a body, a walk that does not stop opens one scope for each block in it,
in the order of the text, and walks the body of that block there. The walk is followed statement
by statement: what each of them adds to the scope that it stands in, and that the scopes it opens
are those of its blocks. A construct that is refused opens its scopes like any other one.
-/

namespace PacketSchema

namespace Build

variable {build : Build} {scope : ScopeId} {present : Scope}

theorem reported_note (build : Build) (location : Location) (error : SchemaError) :
    Reported (build.note location error).diagnostics [location] :=
  ⟨⟨location, error⟩, List.mem_append_right _ (List.mem_singleton_self _),
    List.mem_singleton_self _⟩

/-- What is declared is in its scope or was reported, and no scope is created by it. -/
theorem declare_placed (field : Field) (location : Location)
    (found : build.schema.forest.scope? scope = some present) :
    ∃ added, (build.declare scope field location).2.schema.forest.scope? scope =
        some ⟨present.parent, present.fields ++ added⟩ ∧
      (build.declare scope field location).2.schema.forest.size = build.schema.forest.size ∧
      (added = [field] ∨
        added = [] ∧ Reported (build.declare scope field location).2.diagnostics [location]) := by
  rcases declare_cases build scope field location with ⟨error, _, same⟩ | ⟨grown, accepted, same⟩
  · rw [same]
    refine ⟨[], ?_, rfl, .inr ⟨rfl, build.reported_note location error⟩⟩
    rw [List.append_nil]
    exact found
  · rw [same]
    exact ⟨[field], Schema.scope_appended found accepted, Schema.size_appended accepted, .inl rfl⟩

/-- The fields of a scope while the arms of a union are walked: the union stands last, or its
declaration was refused and its arms are not for this scope. -/
inductive UnionAt (ident : String) (fields : List Field) (presents : List Arm) :
    Bool → List Field → Prop
  | declared (fresh : ∀ earlier ∈ fields, earlier.ident ≠ ident) :
      UnionAt ident fields presents true (fields ++ [.union ⟨ident, presents⟩])
  | refused : UnionAt ident fields presents false fields

variable {ident : String} {parent : Option ScopeId} {fields current : List Field}
  {presents : List Arm} {arm : Arm} {refused : Option Union}

theorem add_arm_is_none (location : Location) :
    (build.addArm scope ident location arm refused).1.isNone = refused.isNone := by
  unfold addArm
  split <;> split <;> rfl

/-- An arm is taken or was reported, whichever union it is for. -/
theorem add_arm_placed (location : Location) (arm : Arm)
    (found : build.schema.forest.scope? scope = some ⟨parent, current⟩)
    (walked : UnionAt ident fields presents refused.isNone current) :
    ∃ taken next, (build.addArm scope ident location arm refused).2.schema.forest.scope? scope =
        some ⟨parent, next⟩ ∧
      UnionAt ident fields (presents ++ taken) refused.isNone next ∧
      (build.addArm scope ident location arm refused).2.schema.forest.size =
        build.schema.forest.size ∧
      (taken = [arm] ∨ taken = [] ∧
        Reported (build.addArm scope ident location arm refused).2.diagnostics [location]) := by
  cases refused with
  | none =>
      cases walked with
      | declared fresh =>
          unfold addArm
          cases accepted : build.schema.appendArm scope ident arm with
          | error error =>
              refine ⟨[], _, found, ?_, rfl, .inr ⟨rfl, build.reported_note location error⟩⟩
              rw [List.append_nil]
              exact .declared fresh
          | ok grown =>
              obtain ⟨last, size, _⟩ := Schema.scope_arm_added found fresh accepted
              exact ⟨[arm], _, last, .declared fresh, size, .inl rfl⟩
  | some choice =>
      cases walked with
      | refused =>
          cases appended : choice.append arm with
          | error error =>
              have outcome : build.addArm scope ident location arm (some choice) =
                  (some choice, build.note location error) := by simp only [addArm, appended]
              rw [outcome]
              exact ⟨[], _, found, .refused, rfl, .inr ⟨rfl, build.reported_note location error⟩⟩
          | ok grown =>
              have outcome : build.addArm scope ident location arm (some choice) =
                  (some grown, build) := by simp only [addArm, appended]
              rw [outcome]
              exact ⟨[arm], _, found, .refused, rfl, .inl rfl⟩

end Build

namespace Tree

open Build (ConfinedTo UnionAt)

variable {blocks : List Block} {before middle after : Build} {scope : ScopeId}
  {part first second : List Block}

/-- A walk opens the scopes of a part of the blocks: these are its new scopes, and each is the
scope of its block. -/
structure OpensAll (blocks : List Block) (before after : Build) (part : List Block) : Prop where
  size : after.schema.forest.size = before.schema.forest.size + part.length
  inside : Throughout (Mirrored blocks after) before.schema.forest.size part

theorem opens_none (size : after.schema.forest.size = before.schema.forest.size) :
    OpensAll blocks before after [] :=
  ⟨size, throughout_nil⟩

/-- Scopes that were opened stay what they are as long as an older scope is walked. -/
theorem OpensAll.kept (opens : OpensAll blocks before middle part)
    (issued : before.schema.forest.Issued scope) (confined : ConfinedTo scope middle after) :
    Throughout (Mirrored blocks after) before.schema.forest.size part := by
  refine opens.inside.imp fun number block low high mirrored => ?_
  have there : middle.schema.forest.Issued ⟨number⟩ := by
    rw [ScopeForest.Issued, opens.size]
    exact high
  exact mirrored.kept (confined.others ⟨number⟩ there (ScopeForest.ne_of_issued issued low))
    confined.diagnostics

theorem OpensAll.trans (early : OpensAll blocks before middle first)
    (late : OpensAll blocks middle after second) (issued : before.schema.forest.Issued scope)
    (confined : ConfinedTo scope middle after) :
    OpensAll blocks before after (first ++ second) where
  size := by
    rw [late.size, early.size, List.length_append, Nat.add_assoc]
  inside := by
    have others := late.inside
    rw [early.size] at others
    exact throughout_append.mpr ⟨early.kept issued confined, others⟩

theorem OpensAll.start (opens : OpensAll blocks middle after part)
    (same : middle.schema.forest.size = before.schema.forest.size) :
    OpensAll blocks before after part := by
  obtain ⟨size, inside⟩ := opens
  rw [same] at size inside
  exact ⟨size, inside⟩

/-- Nothing is opened after a part of the walk. -/
theorem OpensAll.extend (opens : OpensAll blocks before middle part)
    (issued : before.schema.forest.Issued scope) (confined : ConfinedTo scope middle after)
    (size : after.schema.forest.size = middle.schema.forest.size) :
    OpensAll blocks before after part :=
  ⟨size.trans opens.size, opens.kept issued confined⟩

structure BodyPlaced (blocks : List Block) (outer : Nat) (body : List Statement) (present : Scope)
    (before after : Build) : Prop where
  fields : ∃ added, after.schema.forest.scope? ⟨outer⟩ =
      some ⟨present.parent, present.fields ++ added⟩ ∧
    BlockPlacedAs blocks after.diagnostics outer before.schema.forest.size body added
  opens : OpensAll blocks before after (blockOpenings outer before.schema.forest.size body)

/-- A block is opened, then its body is walked at its scope, which is the last one. -/
theorem opens_block {number : Nat} (block : Block) {body : List Statement} {outer : Option ScopeId}
    (own : block.body = body) (above : (block.parent (blocks.take number)).map ScopeId.mk = outer)
    (size : middle.schema.forest.size = number + 1)
    (placed : BodyPlaced blocks number body ⟨outer, []⟩ middle after)
    (start : before.schema.forest.size = number) :
    OpensAll blocks before after (block :: blockOpenings number (number + 1) body) := by
  have opens := placed.opens
  obtain ⟨added, found, inside⟩ := placed.fields
  rw [size] at opens inside
  constructor
  · rw [opens.size, size, start, List.length_cons]
    omega
  · rw [start]
    have others := opens.inside
    rw [size] at others
    refine throughout_cons.mpr ⟨⟨added, ?_, ?_⟩, others⟩
    · rw [above]
      exact found
    · rw [own]
      exact inside

/-- The scope of an optional block is there, whatever came of the field. -/
structure OptionalOpened (blocks : List Block) (outer : Nat) (written : Statement)
    (present : Scope) (before after : Build) : Prop where
  size : after.schema.forest.size = before.schema.forest.size + 1
  child : after.schema.forest.scope? ⟨before.schema.forest.size⟩ = some ⟨some ⟨outer⟩, []⟩
  field : ∃ added, after.schema.forest.scope? ⟨outer⟩ =
      some ⟨present.parent, present.fields ++ added⟩ ∧
    written.PlacedAs blocks after.diagnostics outer before.schema.forest.size added

theorem optional_opened {outer : Nat} {present : Scope} {build : Build} {body : List Statement}
    (location : Location) (ident : Token) (condition : Disjunction)
    (found : build.schema.forest.scope? ⟨outer⟩ = some present)
    (own : blocks[build.schema.forest.size]? =
      some (.optional outer location ident condition body)) :
    OptionalOpened blocks outer (.optional location ident condition body) present build
      (optionalOpened ⟨outer⟩ location ident condition build) := by
  have issued := ScopeForest.issued_of_scope found
  have opened : (build.createScope ⟨outer⟩).2.schema.forest.scope? ⟨outer⟩ = some present :=
    (ScopeForest.scope_create_old issued (some ⟨outer⟩)).trans found
  have child : (build.createScope ⟨outer⟩).2.schema.forest.scope? ⟨build.schema.forest.size⟩ =
      some ⟨some ⟨outer⟩, []⟩ := ScopeForest.scope_create_new _ _
  have size : (build.createScope ⟨outer⟩).2.schema.forest.size =
      build.schema.forest.size + 1 := ScopeForest.size_create _ _
  unfold optionalOpened
  cases checked : condition.resolve build.schema.forest ⟨outer⟩ with
  | refused problems =>
      refine ⟨size, child, [], ?_, .left ?_⟩
      · rw [List.append_nil]
        exact opened
      · exact Checked.reported checked condition.reasoned
          (fun _ problem => List.mem_cons_of_mem _ (condition.located problem)) _
  | accepted resolved =>
      have confined := Build.confined_declare (build.createScope ⟨outer⟩).2 ⟨outer⟩
        (.optional ident.item resolved ⟨build.schema.forest.size⟩) location
      have kept := confined.others ⟨build.schema.forest.size⟩ (ScopeForest.issued_of_scope child)
        (ScopeForest.ne_of_issued issued (Nat.le_refl _))
      obtain ⟨added, last, same, rfl | ⟨rfl, reported⟩⟩ := Build.declare_placed
        (.optional ident.item resolved ⟨build.schema.forest.size⟩) location opened
      · exact ⟨same.trans size, kept.trans child, _, last,
          .optional (Disjunction.condition_accepted checked).1 own⟩
      · exact ⟨same.trans size, kept.trans child, _, last,
          .left (reported.among List.mem_cons_self)⟩

/-- An arm is for the same union as the one before it, declared or not. -/
theorem Arm.build_is_none (arm : Arm) (scope : ScopeId) (ident : String)
    (refused : Option Union) (build : Build) :
    (arm.build false scope ident refused build).1.isNone = refused.isNone := by
  obtain ⟨location, guard, tag, body⟩ := arm
  rw [Arm.build]
  generalize Checked.both Prod.mk
    (.option (fun written => written.resolve build.schema.forest scope) guard)
    tag.resolve = checked
  cases checked with
  | refused problems => rfl
  | accepted resolved => exact Build.add_arm_is_none location

mutual

theorem Statement.placed : ∀ (statement : Statement) {outer : Nat} {build : Build}
    {present : Scope}, build.schema.forest.scope? ⟨outer⟩ = some present →
      Stands blocks build.schema.forest.size
        (statement.openings outer build.schema.forest.size) →
      (∃ added, (statement.build false ⟨outer⟩ build).schema.forest.scope? ⟨outer⟩ =
          some ⟨present.parent, present.fields ++ added⟩ ∧
        statement.PlacedAs blocks (statement.build false ⟨outer⟩ build).diagnostics outer
          build.schema.forest.size added) ∧
      OpensAll blocks build (statement.build false ⟨outer⟩ build)
        (statement.openings outer build.schema.forest.size)
  | .always location ident descriptor, outer, build, present, found, _ => by
      rw [Statement.build, Statement.openings]
      cases checked : descriptor.resolve build.schema.forest ⟨outer⟩ ident.item with
      | refused problems =>
          refine ⟨⟨[], ?_, .left ?_⟩, opens_none rfl⟩
          · rw [List.append_nil]
            exact found
          · exact Checked.reported checked (descriptor.reasoned ident.item)
              (fun _ problem => List.mem_cons_of_mem _ (descriptor.located ident.item problem)) _
      | accepted encoding =>
          obtain ⟨added, last, size, rfl | ⟨rfl, reported⟩⟩ :=
            Build.declare_placed (.always ident.item encoding) location found
          · exact ⟨⟨_, last, .always (Descriptor.encoding_accepted checked).1⟩, opens_none size⟩
          · exact ⟨⟨_, last, .left (reported.among List.mem_cons_self)⟩, opens_none size⟩
  | .optional location ident condition body, outer, build, present, found, stands => by
      rw [Statement.openings] at stands
      obtain ⟨own, insideStands⟩ := throughout_cons.mp stands
      have declared := optional_opened location ident condition found own
      obtain ⟨added, last, placed⟩ := declared.field
      rw [optional_build_eq, Statement.openings]
      have walked := block_placed body declared.child (by rwa [declared.size])
      have confined := @buildBlock_confined false body ⟨build.schema.forest.size⟩
        (optionalOpened ⟨outer⟩ location ident condition build)
      have issued := ScopeForest.issued_of_scope found
      have kept := confined.others ⟨outer⟩ (ScopeForest.issued_of_scope last)
        (ScopeForest.ne_of_issued issued (Nat.le_refl _)).symm
      exact ⟨⟨added, kept.trans last, placed.later confined.diagnostics⟩,
        opens_block (.optional outer location ident condition body) rfl rfl declared.size walked
          rfl⟩
  | .union location ident arms, outer, build, present, found, stands => by
      rw [Statement.openings] at stands
      rw [Statement.build, Statement.openings]
      have armsConfined := fun refused middle => (@buildArms_confined false arms ⟨outer⟩
        ident.item refused middle).diagnostics
      rcases Build.declare_cases build ⟨outer⟩ (.union (.empty ident.item)) location with
        ⟨error, _, same⟩ | ⟨grown, accepted, same⟩
      · -- The arms are walked all the same, for a union of their own that stands in no scope.
        rw [same]
        have reported := build.reported_note location error
        have walked : UnionAt ident.item present.fields [] false present.fields := .refused
        obtain ⟨⟨taken, next, last, walked, _⟩, opens⟩ := arms_placed arms
          (some (.empty ident.item)) (build.note location error) found walked stands
        cases walked
        refine ⟨⟨[], ?_, .left (reported.later (armsConfined _ _))⟩, opens.start rfl⟩
        rw [List.append_nil]
        exact last
      · rw [same]
        obtain ⟨opened, fresh⟩ := union_opened found accepted
        have size : ({ build with schema := grown } : Build).schema.forest.size =
            build.schema.forest.size := Schema.size_appended accepted
        obtain ⟨⟨taken, next, last, walked, placed⟩, opens⟩ := arms_placed arms none
          { build with schema := grown } opened (.declared fresh) (by rwa [size])
        rw [size] at placed opens
        cases walked
        exact ⟨⟨_, last, .union placed⟩, opens.start size⟩

theorem Arm.placed : ∀ (arm : Arm) (refused : Option Union) (build : Build) {outer : Nat}
    {ident : String} {parent : Option ScopeId} {fields current : List Field}
    {presents : List PacketSchema.Arm},
      build.schema.forest.scope? ⟨outer⟩ = some ⟨parent, current⟩ →
      UnionAt ident fields presents refused.isNone current →
      Stands blocks build.schema.forest.size (arm.openings outer build.schema.forest.size) →
      (∃ taken next, (arm.build false ⟨outer⟩ ident refused build).2.schema.forest.scope? ⟨outer⟩ =
          some ⟨parent, next⟩ ∧ UnionAt ident fields (presents ++ taken) refused.isNone next ∧
        arm.PlacedAs blocks (arm.build false ⟨outer⟩ ident refused build).2.diagnostics outer
          build.schema.forest.size taken) ∧
      OpensAll blocks build (arm.build false ⟨outer⟩ ident refused build).2
        (arm.openings outer build.schema.forest.size)
  | .mk location guard tag body, refused, build, outer, ident, parent, fields, current, presents,
      found, union, stands => by
      rw [Arm.openings] at stands
      obtain ⟨own, insideStands⟩ := throughout_cons.mp stands
      rw [Arm.build, Arm.openings]
      generalize checkedIs : Checked.both Prod.mk
        (.option (fun written => written.resolve build.schema.forest ⟨outer⟩) guard)
        tag.resolve = checked
      have issued := ScopeForest.issued_of_scope found
      have opened : ((build.report checked.problems).createScope ⟨outer⟩).2.schema.forest.scope?
          ⟨outer⟩ = some ⟨parent, current⟩ :=
        (ScopeForest.scope_create_old issued (some ⟨outer⟩)).trans found
      have child : ((build.report checked.problems).createScope ⟨outer⟩).2.schema.forest.scope?
          ⟨build.schema.forest.size⟩ = some ⟨some ⟨outer⟩, []⟩ :=
        ScopeForest.scope_create_new _ _
      have size : ((build.report checked.problems).createScope ⟨outer⟩).2.schema.forest.size =
          build.schema.forest.size + 1 := ScopeForest.size_create _ _
      -- The body is walked whether the arm is refused or not, and before it is offered to a union.
      have walked := block_placed body child (by rwa [size])
      have opens : OpensAll blocks build _ _ :=
        opens_block (.arm outer (.mk location guard tag body)) rfl rfl size walked rfl
      have confined := @buildBlock_confined false body ⟨build.schema.forest.size⟩
        ((build.report checked.problems).createScope ⟨outer⟩).2
      have kept := (confined.others ⟨outer⟩ (ScopeForest.issued_of_scope opened)
        (ScopeForest.ne_of_issued issued (Nat.le_refl _)).symm).trans opened
      cases checked with
      | refused problems =>
          refine ⟨⟨[], current, kept, ?_, .left ?_⟩, opens⟩
          · rw [List.append_nil]
            exact union
          · exact (Arm.reported checkedIs build.diagnostics).later confined.diagnostics
      | accepted resolved =>
          obtain ⟨condition, resolvedTag⟩ := resolved
          obtain ⟨taken, next, last, grown, same, outcome⟩ := Build.add_arm_placed location
            ⟨condition, resolvedTag, ⟨build.schema.forest.size⟩⟩ kept union
          obtain ⟨_, _, guardFound, tagFound, pair⟩ := Checked.both_eq_accepted.mp checkedIs
          cases pair
          have means : (Arm.mk location guard tag body).Means
              ⟨condition, resolvedTag, ⟨build.schema.forest.size⟩⟩ :=
            Arm.means_of_accepted guardFound tagFound
          refine ⟨⟨taken, next, last, grown, ?_⟩,
            opens.extend issued (Build.confined_add_arm _ _ _ _ _ _) same⟩
          rcases outcome with rfl | ⟨rfl, reported⟩
          · exact .kept means rfl own
          · exact .left (reported.among List.mem_cons_self)

theorem block_placed : ∀ (statements : List Statement) {outer : Nat} {build : Build}
    {present : Scope}, build.schema.forest.scope? ⟨outer⟩ = some present →
      Stands blocks build.schema.forest.size
        (blockOpenings outer build.schema.forest.size statements) →
      BodyPlaced blocks outer statements present build
        (buildBlock false ⟨outer⟩ statements build)
  | [], outer, build, present, found, _ => by
      rw [buildBlock]
      refine ⟨⟨[], ?_, .nil⟩, opens_none rfl⟩
      rw [List.append_nil]
      exact found
  | statement :: rest, outer, build, present, found, stands => by
      rw [blockOpenings] at stands
      obtain ⟨firstStands, restStands⟩ := throughout_append.mp stands
      obtain ⟨⟨added, middle, here⟩, opens⟩ := statement.placed found firstStands
      have size := opens.size
      rw [statement.openings_length] at size restStands
      have walked := block_placed rest middle (by rwa [size])
      have confined := @buildBlock_confined false rest ⟨outer⟩ (statement.build false ⟨outer⟩ build)
      obtain ⟨others, last, later⟩ := walked.fields
      rw [buildBlock_cons]
      have issued := ScopeForest.issued_of_scope found
      constructor
      · refine ⟨added ++ others, ?_, ?_⟩
        · rw [← List.append_assoc]
          exact last
        · rw [size] at later
          exact .cons (here.later confined.diagnostics) later
      · have whole := opens.trans walked.opens issued confined
        rwa [size] at whole

theorem arms_placed : ∀ (arms : List Arm) (refused : Option Union) (build : Build)
    {outer : Nat} {ident : String} {parent : Option ScopeId} {fields current : List Field}
    {presents : List PacketSchema.Arm},
      build.schema.forest.scope? ⟨outer⟩ = some ⟨parent, current⟩ →
      UnionAt ident fields presents refused.isNone current →
      Stands blocks build.schema.forest.size (armOpenings outer build.schema.forest.size arms) →
      (∃ taken next, (buildArms false ⟨outer⟩ ident arms refused build).schema.forest.scope?
          ⟨outer⟩ = some ⟨parent, next⟩ ∧
        UnionAt ident fields (presents ++ taken) refused.isNone next ∧
        ArmsPlacedAs blocks (buildArms false ⟨outer⟩ ident arms refused build).diagnostics outer
          build.schema.forest.size arms taken) ∧
      OpensAll blocks build (buildArms false ⟨outer⟩ ident arms refused build)
        (armOpenings outer build.schema.forest.size arms)
  | [], refused, build, outer, ident, parent, fields, current, presents, found, walked, _ => by
      rw [buildArms]
      refine ⟨⟨[], current, found, ?_, .nil⟩, opens_none rfl⟩
      rw [List.append_nil]
      exact walked
  | arm :: rest, refused, build, outer, ident, parent, fields, current, presents, found, walked,
      stands => by
      rw [armOpenings] at stands
      obtain ⟨firstStands, restStands⟩ := throughout_append.mp stands
      obtain ⟨⟨taken, middle, there, grown, here⟩, opens⟩ :=
        arm.placed refused build found walked firstStands
      have size := opens.size
      rw [arm.openings_length] at size restStands
      have same := arm.build_is_none ⟨outer⟩ ident refused build
      rw [← same] at grown
      obtain ⟨⟨others, next, last, whole, later⟩, inside⟩ :=
        arms_placed rest _ _ there grown (by rwa [size])
      have confined := @buildArms_confined false rest ⟨outer⟩ ident
        (arm.build false ⟨outer⟩ ident refused build).1
        (arm.build false ⟨outer⟩ ident refused build).2
      have issued := ScopeForest.issued_of_scope found
      rw [buildArms, if_neg build.never_halted]
      refine ⟨⟨taken ++ others, next, last, ?_, ?_⟩, ?_⟩
      · rw [← List.append_assoc, ← same]
        exact whole
      · rw [size] at later
        exact .cons (here.later confined.diagnostics) later
      · have whole := opens.trans inside issued confined
        rwa [size] at whole

end

end Tree

end PacketSchema
