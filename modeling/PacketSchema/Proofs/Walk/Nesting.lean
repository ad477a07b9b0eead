import PacketSchema.Proofs.Walk.Nested

/-!
# A walk nests

The walk of a body, fast or not and with whatever faults, is a nested walk at its scope. A block
whose condition did not resolve, or whose field was refused, is entered all the same; only its
field is then missing. An arm is added to the last field of its scope, because between a union
and the end of its last arm nothing is declared there: the bodies in between are walked below.
-/

namespace PacketSchema

open Schema (Coherent Enters Exits Nests Reaches)

namespace ScopeForest

variable {forest grown : ScopeForest} {id : ScopeId} {ident : String} {arm : Arm}

theorem EndsIn.kept (ends : forest.EndsIn id ident)
    (same : grown.fieldsOf id = forest.fieldsOf id) : grown.EndsIn id ident := by
  obtain ⟨earlier, choice, split, named⟩ := ends
  exact ⟨earlier, choice, same.trans split, named⟩

theorem ends_in_declared (accepted : forest.append id (.union (.empty ident)) = .ok grown) :
    grown.EndsIn id ident :=
  ⟨forest.fieldsOf id, .empty ident, fields_appended accepted, rfl⟩

theorem EndsIn.arm_added (ends : forest.EndsIn id ident)
    (accepted : forest.appendArm id ident arm = .ok grown) : grown.EndsIn id ident := by
  obtain ⟨earlier, last, split, named⟩ := ends
  obtain ⟨choice, sameName, _, exchanged⟩ := fields_arm_added accepted
  have taken : exchange ⟨choice.ident, choice.arms ++ [arm]⟩ (.union last) =
      .union ⟨choice.ident, choice.arms ++ [arm]⟩ := if_pos (named.trans sameName.symm)
  refine ⟨earlier.map (exchange ⟨choice.ident, choice.arms ++ [arm]⟩),
    ⟨choice.ident, choice.arms ++ [arm]⟩, ?_, sameName⟩
  rw [exchanged, split, List.map_append, List.map_singleton, taken]

end ScopeForest

namespace Build

variable {build walked : Build} {scope : ScopeId} {ident : String} {arm : Arm}
  {refused : Option Union}

theorem declare_nests {field : Field} (location : Location)
    (grounded : build.schema.forest.Grounds scope field.references)
    (blockless : field.blocks = []) :
    Nests scope build.schema (build.declare scope field location).2.schema := by
  rcases declare_cases build scope field location with ⟨error, _, same⟩ | ⟨grown, accepted, same⟩
  · rw [same]
    exact .done
  · rw [same]
    exact .declare .done accepted grounded blockless

/-- A block is entered with its field or without. -/
theorem declare_enters {field : Field} (location : Location)
    (grounded : build.schema.forest.Grounds scope field.references)
    (blocks : field.blocks = [⟨build.schema.forest.size⟩]) :
    Enters scope build.schema
      ((build.createScope scope).2.declare scope field location).2.schema := by
  rcases declare_cases (build.createScope scope).2 scope field location with
    ⟨error, _, same⟩ | ⟨grown, accepted, same⟩
  · rw [same]
    exact .plain
  · rw [same]
    exact .declaring accepted grounded blocks

/-- Whether an arm is taken or not, a block is left, and what ended in the union still does. -/
theorem add_arm_leaves (location : Location) (arm : Arm)
    (grounded : build.schema.forest.Grounds scope (selectionReferences arm.condition))
    (block : arm.scope = ⟨build.schema.forest.size⟩)
    (ends : refused = none → walked.schema.forest.EndsIn scope ident) :
    Exits scope build.schema walked.schema
        (walked.addArm scope ident location arm refused).2.schema ∧
      ((walked.addArm scope ident location arm refused).1 = none →
        (walked.addArm scope ident location arm refused).2.schema.forest.EndsIn scope ident) := by
  cases refused with
  | none =>
      cases accepted : walked.schema.appendArm scope ident arm with
      | error error =>
          simp only [addArm, accepted]
          exact ⟨.plain, fun _ => ends rfl⟩
      | ok grown =>
          simp only [addArm, accepted]
          exact ⟨.joining accepted grounded block (ends rfl),
            fun _ => (ends rfl).arm_added (Schema.append_arm_eq_ok accepted).1⟩
  | some refused =>
      cases appended : refused.append arm with
      | error error =>
          simp only [addArm, appended]
          exact ⟨.plain, fun nothing => by cases nothing⟩
      | ok grown =>
          simp only [addArm, appended]
          exact ⟨.plain, fun nothing => by cases nothing⟩

end Build

namespace Schema

variable {before middle entered walked after : Schema} {scope : ScopeId} {ident : String}

/-- What goes on in a block leaves the fields of its outer scope as they were. -/
theorem Entered.ends_kept (opened : Entered scope before entered) (coherent : before.Coherent)
    (issued : before.forest.Issued scope) (inner : Nests ⟨before.forest.size⟩ entered walked)
    (ends : entered.forest.EndsIn scope ident) : walked.forest.EndsIn scope ident := by
  have enteredCoherent := coherent.reached opened.spares.reaches
  have spares := inner.spares enteredCoherent opened.issued_child
  have kept := (Reaches.parent_kept opened.spares.reaches coherent.formed issued).1
  exact ends.kept (spares.fields kept (ScopeForest.ne_of_issued issued (Nat.le_refl _)).symm)

theorem Nests.coherent (nests : Nests scope before after) (coherent : before.Coherent)
    (issued : before.forest.Issued scope) : after.Coherent ∧ after.forest.Issued scope := by
  have reaches := (nests.spares coherent issued).reaches
  exact ⟨coherent.reached reaches, (Reaches.parent_kept reaches coherent.formed issued).1⟩

end Schema

namespace Tree

variable {failFast : Bool} {scope : ScopeId} {build walked : Build}

theorem optional_opened_enters (location : Location) (ident : Token) (condition : Disjunction) :
    Enters scope build.schema (optionalOpened scope location ident condition build).schema := by
  rw [optionalOpened]
  cases checked : condition.resolve build.schema.forest scope with
  | refused problems => exact .plain
  | accepted resolved =>
      exact Build.declare_enters location (Disjunction.condition_accepted checked).2 rfl

theorem union_opened_nests (location : Location) (ident : Token) :
    Nests scope build.schema (unionOpened scope location ident build).2.schema ∧
      ((unionOpened scope location ident build).1 = none →
        (unionOpened scope location ident build).2.schema.forest.EndsIn scope ident.item) := by
  rw [unionOpened]
  rcases build.declare_cases scope (.union (.empty ident.item)) location with
    ⟨error, _, same⟩ | ⟨grown, accepted, same⟩
  · rw [same]
    exact ⟨.done, nofun⟩
  · rw [same]
    exact ⟨.declare .done accepted ScopeForest.grounds_nil rfl,
      fun _ => ScopeForest.ends_in_declared (Schema.append_field_eq_ok accepted).1⟩

theorem arm_closed_leaves {reached : Option Union × Build} {ident : String} (location : Location)
    (guard : Option Disjunction) (tag : Tag)
    (ends : reached.1 = none → walked.schema.forest.EndsIn scope ident) :
    Exits scope reached.2.schema walked.schema
        (armClosed scope ident location guard tag reached walked).2.schema ∧
      ((armClosed scope ident location guard tag reached walked).1 = none →
        (armClosed scope ident location guard tag reached walked).2.schema.forest.EndsIn
          scope ident) := by
  rw [armClosed]
  split
  next => exact ⟨.plain, ends⟩
  next condition resolved checked =>
    obtain ⟨_, _, guardFound, _, same⟩ := Checked.both_eq_accepted.mp checked
    cases same
    exact Build.add_arm_leaves location _ (selection_accepted guardFound).2 rfl ends

/-- What a walk comes to nests in the scope of the walk, and an arm that goes to a union of the
schema finds this union at the end of its scope. -/
def Account.nesting : Account where
  statement _ scope before after := before.schema.Coherent → before.schema.forest.Issued scope →
    Nests scope before.schema after.schema
  arm _ scope ident before after :=
    before.2.schema.Coherent → before.2.schema.forest.Issued scope →
      (before.1 = none → before.2.schema.forest.EndsIn scope ident) →
      Nests scope before.2.schema after.2.schema ∧
        (after.1 = none → after.2.schema.forest.EndsIn scope ident)
  block _ scope before after := before.schema.Coherent → before.schema.forest.Issued scope →
    Nests scope before.schema after.schema
  arms _ scope ident before after :=
    before.2.schema.Coherent → before.2.schema.forest.Issued scope →
      (before.1 = none → before.2.schema.forest.EndsIn scope ident) →
      Nests scope before.2.schema after.schema

theorem walks_nest : Account.nesting.Holds failFast where
  always location ident descriptor scope build _ _ := by
    rw [always_build_eq]
    cases checked : descriptor.resolve build.schema.forest scope ident.item with
    | refused problems => exact .done
    | accepted encoding =>
        exact Build.declare_nests location (Descriptor.encoding_accepted checked).2 rfl
  optional location ident condition _ scope build inside coherent issued := by
    have enters : Enters scope build.schema
        (optionalOpened scope location ident condition build).schema :=
      optional_opened_enters location ident condition
    have opened := enters.opens coherent issued
    have inner := inside (coherent.reached opened.spares.reaches) opened.issued_child
    exact .block .done enters inner .plain
  union location ident _ scope build inside coherent issued := by
    obtain ⟨declared, ends⟩ := @union_opened_nests scope build location ident
    obtain ⟨reached, kept⟩ := declared.coherent coherent issued
    exact declared.trans (inside reached kept ends)
  arm location guard tag _ scope ident reached inside coherent issued ends := by
    have enters : Enters scope reached.2.schema (armOpened scope guard tag reached.2).schema :=
      .plain
    have opened := enters.opens coherent issued
    have inner := inside (coherent.reached opened.spares.reaches) opened.issued_child
    have kept := fun own => opened.ends_kept coherent issued inner
      ((ends own).kept (ScopeForest.fields_created _ _ _))
    obtain ⟨leaves, after⟩ := arm_closed_leaves location guard tag kept
    exact ⟨.block .done enters inner leaves, after⟩
  still _ _ _ _ _ _ := .done
  goes_on _ _ _ _ first later coherent issued := by
    have walked := first coherent issued
    obtain ⟨reached, kept⟩ := walked.coherent coherent issued
    exact walked.trans (later reached kept)
  arms_still _ _ _ _ _ _ _ _ := .done
  arms_go_on _ _ _ _ _ first later coherent issued ends := by
    obtain ⟨walked, after⟩ := first coherent issued ends
    obtain ⟨reached, kept⟩ := walked.coherent coherent issued
    exact walked.trans (later reached kept after)

end Tree

end PacketSchema
