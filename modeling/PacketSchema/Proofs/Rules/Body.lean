import PacketSchema.Proofs.Rules.Acceptance
import PacketSchema.Proofs.Rules.Union
import PacketSchema.Proofs.Walk.Faultless

/-!
# Bodies

The faultless walk of a body carries two invariants: the schema is sound, and the scope it walks
in sees the statements that the rules call visible. What is walked inside a block is walked in a
newer scope, so it changes nothing that is seen around it.
-/

namespace PacketSchema

namespace Schema

variable {schema before after : Schema} {scope child : ScopeId} {visible : List Tree.Binding}
  {ident : String} {arms : List Tree.Arm}

/-- Scopes stand below older ones, and what is stored resolves. -/
structure Sound (schema : Schema) : Prop where
  formed : schema.Formed
  grounded : schema.Grounded

theorem Reaches.sound (reaches : Reaches before after) (sound : before.Sound) : after.Sound where
  formed := Reaches.formed reaches sound.formed
  grounded := Reaches.grounded reaches sound.formed sound.grounded

theorem Sound.opened (sound : schema.Sound) (issued : schema.forest.Issued scope) :
    (schema.createScope (some scope)).2.Sound :=
  Reaches.sound (.single (.openBlock issued)) sound

theorem opened_issued (schema : Schema) (parent : Option ScopeId) :
    (schema.createScope parent).2.forest.Issued ⟨schema.forest.size⟩ :=
  ScopeForest.issued_of_scope (ScopeForest.scope_create_new schema.forest parent)

theorem Walked.sound (walked : before.Walked scope after) (sound : before.Sound)
    (issued : before.forest.Issued scope) : after.Sound :=
  Reaches.sound (walked.reaches sound.formed issued) sound

theorem Walked.scope_kept (walked : before.Walked child after)
    (issued : before.forest.Issued scope) (newer : scope.index < child.index) :
    after.forest.scope? scope = before.forest.scope? scope := by
  apply walked.confined.others scope issued
  intro same
  rw [same] at newer
  exact Nat.lt_irrefl _ newer

/-- A walk in a newer scope changes nothing that an older one sees. -/
theorem Walked.sees_kept (walked : before.Walked child after) (sound : before.Sound)
    (childIssued : before.forest.Issued child) (sees : before.forest.Sees scope visible)
    (newer : scope.index < child.index) : after.forest.Sees scope visible := by
  have ordered := (walked.sound sound childIssued).formed.ordered
  apply sees.kept ordered
  intro other bound
  exact walked.scope_kept (Nat.lt_of_le_of_lt bound sees.issued) (Nat.lt_of_le_of_lt bound newer)

theorem Holds.kept (holds : before.Holds scope ident arms)
    (same : after.forest.scope? scope = before.forest.scope? scope) :
    after.Holds scope ident arms := by
  rcases holds with ⟨choice, declared, meaning⟩
  exact ⟨choice, by rw [ScopeForest.field?, same, ← ScopeForest.field?, declared], meaning⟩

theorem declared_sees (sees : before.forest.Sees scope visible) {field : Field}
    (accepted : before.appendField scope field = .ok after) :
    after.forest.Sees scope (visible ++ [⟨field.ident, field.kind⟩]) :=
  sees.declared (append_field_eq_ok accepted).1

theorem append_field_accepted_iff (sees : schema.forest.Sees scope visible) {field : Field} :
    (∃ grown, schema.appendField scope field = .ok grown) ↔
      ∀ binding ∈ visible, binding.ident ≠ field.ident := by
  rw [← sees.append_iff]
  unfold appendField
  cases schema.forest.append scope field <;> simp

end Schema

namespace Tree

variable {scope : ScopeId} {visible : List Binding} {schema grown : Schema} {ident : String}
  {earlier : List Arm}

theorem Arm.sees_kept {arm : Arm} (sound : schema.Sound)
    (sees : schema.forest.Sees scope visible)
    (answered : arm.faultless scope ident schema = some grown) :
    grown.forest.Sees scope visible := by
  cases arm with
  | mk location guard tag body =>
      rcases faultless_arm_eq_some.mp answered with ⟨_, _, _, _, walked, inside, added⟩
      have openedSees : (schema.createScope (some scope)).2.forest.Sees scope visible :=
        sees.create_kept (by simpa using sees.issued)
      have walkedSees := (block_walked inside).sees_kept (sound.opened sees.issued)
        (schema.opened_issued (some scope)) openedSees sees.issued
      exact walkedSees.arm_added (Schema.append_arm_eq_ok added).1

theorem arms_sees_kept {arms : List Arm} (sound : schema.Sound)
    (sees : schema.forest.Sees scope visible)
    (answered : faultlessArms scope ident arms schema = some grown) :
    grown.forest.Sees scope visible := by
  induction arms generalizing schema with
  | nil =>
      cases answered
      exact sees
  | cons arm rest later =>
      rcases faultless_arms_cons_eq_some.mp answered with ⟨middle, first, remaining⟩
      exact later ((Arm.walked first).sound sound sees.issued) (arm.sees_kept sound sees first)
        remaining

/-- The schema in which the body of an optional statement is walked. -/
theorem optional_declared (location : Location) {name : Token} {condition : Disjunction}
    {resolved : Condition} {declared : Schema} (sound : schema.Sound)
    (sees : schema.forest.Sees scope visible)
    (accepted : condition.resolve schema.forest scope = .accepted resolved)
    (appended : (schema.createScope (some scope)).2.appendField scope
      (.optional name.item resolved ⟨schema.forest.size⟩) = .ok declared) :
    declared.Sound ∧ declared.forest.Sees scope (visible ++ [⟨name.item, .optional⟩]) ∧
      declared.forest.Sees ⟨schema.forest.size⟩ (visible ++ [⟨name.item, .optional⟩]) := by
  -- So far the walk is that of the same statement without a body.
  have head : (Statement.optional location name condition []).faultless scope schema =
      some declared :=
    faultless_optional_eq_some.mpr ⟨resolved, accepted, declared, appended, rfl⟩
  have openedSees : (schema.createScope (some scope)).2.forest.Sees scope visible :=
    sees.create_kept (by simpa using sees.issued)
  have declaredSees := Schema.declared_sees openedSees appended
  refine ⟨(Statement.walked head).sound sound sees.issued, declaredSees, ?_⟩
  apply declaredSees.below
  rw [(ScopeForest.append_eq_ok (Schema.append_field_eq_ok appended).1).2,
    ScopeForest.scope_update_fields_ne]
  · exact ScopeForest.scope_create_new schema.forest (some scope)
  · intro same
    have issued := sees.issued
    rw [← same] at issued
    exact Nat.lt_irrefl _ issued

theorem union_declared (location : Location) {name : Token} {declared : Schema}
    (sound : schema.Sound) (sees : schema.forest.Sees scope visible)
    (appended : schema.appendField scope (.union (.empty name.item)) = .ok declared) :
    declared.Sound ∧ declared.forest.Sees scope (visible ++ [⟨name.item, .union⟩]) ∧
      declared.Holds scope name.item [] := by
  have head : (Statement.union location name []).faultless scope schema = some declared :=
    faultless_union_eq_some.mpr ⟨declared, appended, rfl⟩
  have bound := ScopeForest.field_declared (Schema.append_field_eq_ok appended).1
  exact ⟨(Statement.walked head).sound sound sees.issued, Schema.declared_sees sees appended,
    _, bound, .nil⟩

/-- After a statement its own binding is visible as well. -/
theorem Statement.sees_added {statement : Statement} (sound : schema.Sound)
    (sees : schema.forest.Sees scope visible)
    (answered : statement.faultless scope schema = some grown) :
    grown.forest.Sees scope (visible ++ [statement.binding]) := by
  cases statement with
  | always location name descriptor =>
      rcases faultless_always_eq_some.mp answered with ⟨encoding, _, appended⟩
      exact Schema.declared_sees sees appended
  | optional location name condition body =>
      rcases faultless_optional_eq_some.mp answered with
        ⟨resolved, accepted, declared, appended, inside⟩
      have opened := optional_declared location sound sees accepted appended
      exact (block_walked inside).sees_kept opened.1 opened.2.2.issued opened.2.1 sees.issued
  | union location name arms =>
      rcases faultless_union_eq_some.mp answered with ⟨declared, appended, inside⟩
      have opened := union_declared location sound sees appended
      exact arms_sees_kept opened.1 opened.2.1 inside

end Tree

end PacketSchema
