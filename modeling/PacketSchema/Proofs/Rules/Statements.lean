import PacketSchema.Proofs.Rules.Body

/-!
# Lawful statements

The faultless walk of a body answers exactly where every statement in it is lawful. One induction
proves both directions: each part of the walk succeeds exactly where its own rules hold, and
wherever it ends, the next part stands before the same visible statements.
-/

namespace PacketSchema.Tree

variable {scope : ScopeId} {visible : List Binding} {schema grown : Schema} {ident : String}
  {earlier : List Arm}

/-- Two parts of a walk can be made exactly where the first one can and, wherever that ends, the
second one can. -/
theorem exists_both_iff {First : Schema → Prop} {Second : Schema → Schema → Prop} {P Q : Prop}
    (first : (∃ middle, First middle) ↔ P)
    (second : ∀ middle, First middle → ((∃ last, Second middle last) ↔ Q)) :
    (∃ last middle, First middle ∧ Second middle last) ↔ P ∧ Q := by
  constructor
  · intro answered
    rcases answered with ⟨last, middle, made, rest⟩
    exact ⟨first.mp ⟨middle, made⟩, (second middle made).mp ⟨last, rest⟩⟩
  · intro allowed
    rcases first.mpr allowed.1 with ⟨middle, made⟩
    rcases (second middle made).mpr allowed.2 with ⟨last, rest⟩
    exact ⟨last, middle, made, rest⟩

/-- The union itself is not among what can be referred to. -/
theorem admitted_with_union (visible : List Binding) (name : String) (bound : Nat)
    (leaf : Value) :
    leaf.Admitted (visible ++ [⟨name, .union⟩]) bound ↔ leaf.Admitted visible bound := by
  cases leaf <;> simp [Value.Admitted, Value.Visible]

def Arm.Admitted (visible : List Binding) (arm : Arm) : Prop :=
  (∀ leaf ∈ selectionLeaves arm.guard, leaf.Admitted visible signedSize) ∧
    InRange signedSize arm.tag.value

theorem always_lawful_iff (location : Location) (name : Token) (descriptor : Descriptor) :
    Site.Lawful ⟨visible, .always location name descriptor⟩ ↔
      (∀ binding ∈ visible, binding.ident ≠ name.item) ∧
        (descriptor.width ≠ none ∨ descriptor.count ≠ none) ∧
          ∀ leaf ∈ descriptor.leaves, leaf.Admitted visible UInt64.size := by
  rw [admitted_iff]
  constructor
  · intro lawful
    exact ⟨lawful.fresh, lawful.sized descriptor rfl,
      fun leaf member => lawful.referred leaf (List.mem_append_left _ member),
      lawful.sizesInRange⟩
  · intro allowed
    refine ⟨allowed.1, ?_, ?_, allowed.2.2.2, ?_, ?_, .nil⟩
    · simpa only [Statement.sizes, Statement.descriptor?, Option.elim_some, Statement.operands,
        List.append_nil] using allowed.2.2.1
    · intro written same
      cases same
      exact allowed.2.1
    · simp [Statement.operands]
    · simp [Statement.arms]

theorem optional_lawful_iff (location : Location) (name : Token) (condition : Disjunction)
    (body : List Statement) :
    Site.Lawful ⟨visible, .optional location name condition body⟩ ↔
      (∀ binding ∈ visible, binding.ident ≠ name.item) ∧
        ∀ leaf ∈ condition.leaves, leaf.Admitted visible signedSize := by
  rw [admitted_iff]
  constructor
  · intro lawful
    exact ⟨lawful.fresh, fun leaf member => lawful.referred leaf (List.mem_append_right _ member),
      lawful.operandsInRange⟩
  · intro allowed
    refine ⟨allowed.1, allowed.2.1, ?_, ?_, allowed.2.2, ?_, .nil⟩
    · intro written same
      cases same
    · simp [Statement.sizes, Statement.descriptor?]
    · simp [Statement.arms]

theorem union_lawful_iff (location : Location) (name : Token) (arms : List Arm) :
    Site.Lawful ⟨visible, .union location name arms⟩ ↔
      (∀ binding ∈ visible, binding.ident ≠ name.item) ∧
        (∀ arm ∈ arms, arm.Admitted visible) ∧ arms.Pairwise Arm.Apart := by
  constructor
  · intro lawful
    refine ⟨lawful.fresh, ?_, lawful.armsApart⟩
    intro arm member
    have inside : ∀ leaf ∈ selectionLeaves arm.guard,
        leaf ∈ (Statement.union location name arms).operands :=
      fun leaf found => List.mem_flatMap.mpr ⟨arm, member, found⟩
    refine ⟨?_, lawful.tagsInRange arm member⟩
    intro leaf found
    exact ⟨lawful.referred leaf (List.mem_append_right _ (inside leaf found)),
      lawful.operandsInRange leaf (inside leaf found)⟩
  · intro allowed
    have admitted : ∀ leaf ∈ (Statement.union location name arms).operands,
        leaf.Admitted visible signedSize := by
      intro leaf found
      rcases List.mem_flatMap.mp found with ⟨arm, member, inside⟩
      exact (allowed.2.1 arm member).1 leaf inside
    refine ⟨allowed.1, fun leaf found => (admitted leaf found).1, ?_, ?_,
      fun leaf found => (admitted leaf found).2, fun arm member => (allowed.2.1 arm member).2,
      allowed.2.2⟩
    · intro written same
      cases same
    · simp [Statement.sizes, Statement.descriptor?]

/-- The schema in which an arm is added, once the arm's body has been walked. -/
theorem arm_inside {walked : Schema} {body : List Statement} (sound : schema.Sound)
    (sees : schema.forest.Sees scope visible)
    (holds : schema.Holds scope ident earlier)
    (inside : faultlessBlock ⟨schema.forest.size⟩ body (schema.createScope (some scope)).2 =
      some walked) :
    walked.Sound ∧ walked.Holds scope ident earlier ∧ schema.Reaches walked := by
  have opened := sound.opened sees.issued
  have new := schema.opened_issued (some scope)
  have walk := block_walked inside
  have openedIssued : (schema.createScope (some scope)).2.forest.Issued scope :=
    ScopeForest.issued_create sees.issued (some scope)
  refine ⟨walk.sound opened new, ?_, ?_⟩
  · apply holds.kept
    exact (walk.scope_kept openedIssued sees.issued).trans
      (ScopeForest.scope_create_old sees.issued (some scope))
  · exact .trans (.single (.openBlock sees.issued)) (walk.reaches opened.formed new)

theorem Arm.holds_extended {arm : Arm} (sound : schema.Sound)
    (sees : schema.forest.Sees scope visible) (holds : schema.Holds scope ident earlier)
    (answered : arm.faultless scope ident schema = some grown) :
    grown.Holds scope ident (earlier ++ [arm]) := by
  cases arm with
  | mk location guard tag body =>
      rcases faultless_arm_eq_some.mp answered with
        ⟨condition, guardFound, resolved, tagFound, walked, inside, added⟩
      have state := arm_inside sound sees holds inside
      exact state.2.1.extended (Arm.means_of_accepted guardFound tagFound) added

/-- An arm is taken where its own rules hold, those of its body do and it is apart from the arms
before it. -/
theorem arm_answered_iff {location : Location} {guard : Option Disjunction} {tag : Tag}
    {body : List Statement} {rules : Prop} (sound : schema.Sound)
    (sees : schema.forest.Sees scope visible) (holds : schema.Holds scope ident earlier)
    (bodyIff : (∃ walked, faultlessBlock ⟨schema.forest.size⟩ body
      (schema.createScope (some scope)).2 = some walked) ↔ rules) :
    (∃ grown, (Arm.mk location guard tag body).faultless scope ident schema = some grown) ↔
      (Arm.mk location guard tag body).Admitted visible ∧ rules ∧
        ∀ before ∈ earlier, before.Apart (.mk location guard tag body) := by
  have appendIff : ∀ {condition resolved walked},
      Checked.option (fun written : Disjunction => written.resolve schema.forest scope) guard =
        .accepted condition →
      tag.resolve = .accepted resolved →
      faultlessBlock ⟨schema.forest.size⟩ body (schema.createScope (some scope)).2 = some walked →
      ((∃ grown, walked.appendArm scope ident ⟨condition, resolved, ⟨schema.forest.size⟩⟩ =
          .ok grown) ↔
        ∀ before ∈ earlier, before.Apart (.mk location guard tag body)) := by
    intro condition resolved walked guardFound tagFound inside
    have state := arm_inside sound sees holds inside
    have grounded := Schema.Reaches.grounds_kept state.2.2 sound.formed
      (selection_accepted guardFound).2
    exact state.2.1.append_iff state.1.grounded (Arm.means_of_accepted guardFound tagFound)
      grounded
  constructor
  · intro answered
    rcases answered with ⟨grown, answered⟩
    rcases faultless_arm_eq_some.mp answered with
      ⟨condition, guardFound, resolved, tagFound, walked, inside, added⟩
    have guardAdmitted := (selection_accepted_iff sees guard).mp ⟨condition, guardFound⟩
    have tagInRange := tag.accepted_iff.mp ⟨resolved, tagFound⟩
    exact ⟨⟨guardAdmitted, tagInRange⟩, bodyIff.mp ⟨walked, inside⟩,
      (appendIff guardFound tagFound inside).mp ⟨grown, added⟩⟩
  · intro allowed
    rcases (selection_accepted_iff sees guard).mpr allowed.1.1 with ⟨condition, guardFound⟩
    rcases tag.accepted_iff.mpr allowed.1.2 with ⟨resolved, tagFound⟩
    rcases bodyIff.mpr allowed.2.1 with ⟨walked, inside⟩
    rcases (appendIff guardFound tagFound inside).mpr allowed.2.2 with ⟨grown, added⟩
    exact ⟨grown, faultless_arm_eq_some.mpr
      ⟨condition, guardFound, resolved, tagFound, walked, inside, added⟩⟩

theorem always_answered_iff (location : Location) (name : Token) (descriptor : Descriptor)
    (sees : schema.forest.Sees scope visible) :
    (∃ grown, (Statement.always location name descriptor).faultless scope schema = some grown) ↔
      Site.Lawful ⟨visible, .always location name descriptor⟩ := by
  rw [always_lawful_iff, ← descriptor.accepted_iff sees name.item]
  have appendIff : ∀ encoding, (∃ grown, schema.appendField scope
      (.always name.item encoding) = .ok grown) ↔ _ :=
    fun encoding => Schema.append_field_accepted_iff sees
  simp only [faultless_always_eq_some]
  constructor
  · intro answered
    rcases answered with ⟨grown, encoding, accepted, appended⟩
    exact ⟨(appendIff encoding).mp ⟨grown, appended⟩, encoding, accepted⟩
  · intro allowed
    rcases allowed with ⟨fresh, encoding, accepted⟩
    rcases (appendIff encoding).mpr fresh with ⟨grown, appended⟩
    exact ⟨grown, encoding, accepted, appended⟩

/-- The body of an optional is walked after the optional was declared. -/
theorem optional_answered_iff (location : Location) (name : Token) (condition : Disjunction)
    {body : List Statement} {rules : Prop} (sound : schema.Sound)
    (sees : schema.forest.Sees scope visible)
    (bodyIff : ∀ {declared : Schema}, declared.Sound →
      declared.forest.Sees ⟨schema.forest.size⟩ (visible ++ [⟨name.item, .optional⟩]) →
      ((∃ grown, faultlessBlock ⟨schema.forest.size⟩ body declared = some grown) ↔ rules)) :
    (∃ grown, (Statement.optional location name condition body).faultless scope schema =
        some grown) ↔
      Site.Lawful ⟨visible, .optional location name condition body⟩ ∧ rules := by
  rw [optional_lawful_iff, ← condition.accepted_iff sees]
  have openedSees : (schema.createScope (some scope)).2.forest.Sees scope visible :=
    sees.create_kept (by simpa using sees.issued)
  simp only [faultless_optional_eq_some]
  constructor
  · intro answered
    rcases answered with ⟨grown, resolved, accepted, declared, appended, inside⟩
    have state := optional_declared location sound sees accepted appended
    exact ⟨⟨(Schema.append_field_accepted_iff openedSees).mp ⟨declared, appended⟩, resolved,
      accepted⟩, (bodyIff state.1 state.2.2).mp ⟨grown, inside⟩⟩
  · intro allowed
    rcases allowed with ⟨⟨fresh, resolved, accepted⟩, inside⟩
    have appendIff : (∃ grown, (schema.createScope (some scope)).2.appendField scope
        (.optional name.item resolved ⟨schema.forest.size⟩) = .ok grown) ↔ _ :=
      Schema.append_field_accepted_iff openedSees
    rcases appendIff.mpr fresh with ⟨declared, appended⟩
    have state := optional_declared location sound sees accepted appended
    rcases (bodyIff state.1 state.2.2).mpr inside with ⟨grown, walked⟩
    exact ⟨grown, resolved, accepted, declared, appended, walked⟩

mutual

theorem Statement.answered_iff : ∀ (statement : Statement) {scope : ScopeId}
    {visible : List Binding} {schema : Schema}, schema.Sound → schema.forest.Sees scope visible →
      ((∃ grown, statement.faultless scope schema = some grown) ↔
        ∀ site ∈ statement.sites visible, site.Lawful)
  | .always location name descriptor, scope, visible, schema, _, sees => by
      rw [Statement.sites, List.forall_mem_singleton]
      exact always_answered_iff location name descriptor sees
  | .optional location name condition body, scope, visible, schema, sound, sees => by
      rw [Statement.sites, List.forall_mem_cons]
      exact optional_answered_iff location name condition sound sees (block_answered_iff body)
  | .union location name arms, scope, visible, schema, sound, sees => by
      rw [Statement.sites, List.forall_mem_cons, union_lawful_iff, and_assoc, and_assoc]
      simp only [faultless_union_eq_some]
      apply exists_both_iff (Schema.append_field_accepted_iff sees)
      intro declared appended
      have state := union_declared location sound sees appended
      rw [arms_answered_iff arms state.1 state.2.1 state.2.2]
      simp only [Arm.Admitted, admitted_with_union, List.not_mem_nil, false_implies, implies_true,
        true_and]
      exact and_congr_right fun _ => and_comm

theorem Arm.answered_iff : ∀ (arm : Arm) {scope : ScopeId} {visible : List Binding}
    {schema : Schema} {ident : String} {earlier : List Arm}, schema.Sound →
      schema.forest.Sees scope visible → schema.Holds scope ident earlier →
      ((∃ grown, arm.faultless scope ident schema = some grown) ↔
        arm.Admitted visible ∧ (∀ site ∈ arm.sites visible, site.Lawful) ∧
          ∀ before ∈ earlier, before.Apart arm)
  | .mk location guard tag body, scope, visible, schema, ident, earlier, sound, sees, holds => by
      rw [Arm.sites]
      exact arm_answered_iff sound sees holds
        (block_answered_iff body (sound.opened sees.issued) sees.created)

theorem block_answered_iff : ∀ (statements : List Statement) {scope : ScopeId}
    {visible : List Binding} {schema : Schema}, schema.Sound → schema.forest.Sees scope visible →
      ((∃ grown, faultlessBlock scope statements schema = some grown) ↔
        ∀ site ∈ blockSites visible statements, site.Lawful)
  | [], scope, visible, schema, _, _ => by simp [faultlessBlock, blockSites]
  | statement :: rest, scope, visible, schema, sound, sees => by
      rw [blockSites, List.forall_mem_append]
      simp only [faultless_block_cons_eq_some]
      apply exists_both_iff (statement.answered_iff sound sees)
      intro middle first
      exact block_answered_iff rest ((Statement.walked first).sound sound sees.issued)
        (Statement.sees_added sound sees first)

theorem arms_answered_iff : ∀ (arms : List Arm) {scope : ScopeId} {visible : List Binding}
    {schema : Schema} {ident : String} {earlier : List Arm}, schema.Sound →
      schema.forest.Sees scope visible → schema.Holds scope ident earlier →
      ((∃ grown, faultlessArms scope ident arms schema = some grown) ↔
        (∀ arm ∈ arms, arm.Admitted visible) ∧
          (∀ site ∈ armSites visible arms, site.Lawful) ∧
            (∀ before ∈ earlier, ∀ arm ∈ arms, before.Apart arm) ∧ arms.Pairwise Arm.Apart)
  | [], scope, visible, schema, ident, earlier, _, _, _ => by simp [faultlessArms, armSites]
  | arm :: rest, scope, visible, schema, ident, earlier, sound, sees, holds => by
      have both : (∃ grown middle, arm.faultless scope ident schema = some middle ∧
          faultlessArms scope ident rest middle = some grown) ↔ _ :=
        exists_both_iff (arm.answered_iff sound sees holds) fun middle first =>
          arms_answered_iff rest ((Arm.walked first).sound sound sees.issued)
            (Arm.sees_kept sound sees first) (Arm.holds_extended sound sees holds first)
      simp only [faultless_arms_cons_eq_some, both, armSites, List.forall_mem_cons,
        List.forall_mem_append, List.pairwise_cons, List.not_mem_nil, false_implies, implies_true,
        and_true, forall_and]
      constructor
      · intro allowed
        rcases allowed with
          ⟨⟨admitted, inside, apart⟩, others, sites, ⟨fromEarlier, fromArm⟩, among⟩
        exact ⟨⟨admitted, others⟩, ⟨inside, sites⟩, ⟨apart, fromEarlier⟩, fromArm, among⟩
      · intro allowed
        rcases allowed with
          ⟨⟨admitted, others⟩, ⟨inside, sites⟩, ⟨apart, fromEarlier⟩, fromArm, among⟩
        exact ⟨⟨admitted, inside, apart⟩, others, sites, ⟨fromEarlier, fromArm⟩, among⟩

end

end PacketSchema.Tree
