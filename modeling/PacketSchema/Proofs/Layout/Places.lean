import PacketSchema.Proofs.Walk.Nesting

/-!
# Places in a layout

A field is known by its scope and its place there. A place keeps its field while more fields are
declared, but for a union that takes an arm, and what is above a scope stays above it; so what is
found in a schema after a step is traced to what was there before, or to what the step brought in.
-/

namespace PacketSchema

open Schema (Coherent Reaches)

namespace ScopeForest

/-- One scope is right below another one on the way up from a third. -/
structure Descends (forest : ScopeForest) (outer below inner : ScopeId) : Prop where
  linked : forest.parent? below = some outer
  member : below ∈ forest.lineage inner

variable {forest grown : ScopeForest} {id target outer below inner : ScopeId} {field : Field}
  {ident : String} {arm : Arm} {index : Nat}

theorem Descends.outer_lt (descends : forest.Descends outer below inner)
    (ordered : forest.Ordered) : outer.index < inner.index :=
  Nat.lt_of_lt_of_le (ordered below outer descends.linked)
    (ordered.mem_lineage_le inner below descends.member)

theorem issued_of_field (found : (forest.fieldsOf id)[index]? = some field) :
    forest.Issued id := by
  by_contra absent
  rw [fields_of_not_issued absent] at found
  cases found

/-- A field of a scope that declares one more field. -/
theorem field_appended_cases (accepted : forest.append target field = .ok grown) {present : Field}
    (found : (grown.fieldsOf id)[index]? = some present) :
    (forest.fieldsOf id)[index]? = some present ∨
      id = target ∧ index = (forest.fieldsOf target).length ∧ present = field := by
  by_cases here : id = target
  · subst here
    rw [fields_appended accepted, List.getElem?_append] at found
    split at found
    · exact .inl found
    next beyond =>
      obtain ⟨last, same⟩ := List.getElem?_eq_some_iff.mp found
      rw [List.length_singleton] at last
      exact .inr ⟨rfl, by omega, by rw [← same, List.getElem_singleton]⟩
  · rw [fields_appended_other accepted here] at found
    exact .inl found

/-- A field of a scope in which a union takes an arm: as it was, or that union. -/
theorem field_arm_added_cases (accepted : forest.appendArm target ident arm = .ok grown)
    (distinct : (forest.identsOf target).Nodup) {present : Field}
    (found : (grown.fieldsOf id)[index]? = some present) :
    (forest.fieldsOf id)[index]? = some present ∨
      id = target ∧ ∃ choice, choice.ident = ident ∧
        (forest.fieldsOf id)[index]? = some (.union choice) ∧
        present = .union ⟨choice.ident, choice.arms ++ [arm]⟩ := by
  by_cases here : id = target
  · subst here
    obtain ⟨choice, named, declared, exchanged⟩ := fields_arm_added accepted
    rw [exchanged, List.getElem?_map, Option.map_eq_some_iff] at found
    obtain ⟨old, before, rfl⟩ := found
    by_cases same : old.ident = choice.ident
    · have only : old = .union choice :=
        List.inj_on_of_nodup_map distinct (List.mem_of_getElem? before) declared same
      subst only
      exact .inr ⟨rfl, choice, named, before, if_pos rfl⟩
    · have kept : exchange ⟨choice.ident, choice.arms ++ [arm]⟩ old = old := exchange_of_ne same
      rw [kept]
      exact .inl before
  · rw [fields_arm_added_other accepted here] at found
    exact .inl found

/-- Where an identifier names the last field of a scope, it names no other one. -/
theorem EndsIn.last (ends : forest.EndsIn id ident) (distinct : (forest.identsOf id).Nodup)
    (found : (forest.fieldsOf id)[index]? = some field) (named : field.ident = ident) :
    index + 1 = (forest.fieldsOf id).length := by
  obtain ⟨earlier, choice, split, same⟩ := ends
  obtain ⟨bound, _⟩ := List.getElem?_eq_some_iff.mp found
  have listed : (forest.identsOf id)[index]? = some ident := by
    rw [identsOf, List.getElem?_map, found, Option.map_some, named]
  have final : (forest.identsOf id)[earlier.length]? = some ident := by
    rw [identsOf, split, List.map_append, ← List.length_map (f := Field.ident),
      List.map_singleton, List.getElem?_concat_length]
    exact congrArg some same
  have inside : index < (forest.identsOf id).length := by rwa [identsOf, List.length_map]
  have place : index = earlier.length :=
    (List.getElem?_inj inside distinct).mp (listed.trans final.symm)
  rw [place, split, List.length_append, List.length_singleton]

end ScopeForest

namespace Schema

open ScopeForest (Descends)

variable {before after : Schema} {scope inner outer below : ScopeId} {field : Field}

theorem Coherent.idents_distinct (coherent : before.Coherent) (id : ScopeId) :
    (before.forest.identsOf id).Nodup := by
  by_cases issued : before.forest.Issued id
  · obtain ⟨present, found⟩ := ScopeForest.issued_iff_scope.mp issued
    rw [ScopeForest.identsOf, ScopeForest.fields_of_scope found]
    exact coherent.distinct id present found
  · rw [ScopeForest.identsOf, ScopeForest.fields_of_not_issued issued]
    exact List.nodup_nil

theorem Coherent.grounds_field (coherent : before.Coherent) {index : Nat}
    (found : (before.forest.fieldsOf scope)[index]? = some field) :
    before.forest.Grounds scope field.references := by
  obtain ⟨present, here, member⟩ := ScopeForest.scope_of_field (List.mem_of_getElem? found)
  exact coherent.grounded.fields scope present here field member

theorem Coherent.block_below (coherent : before.Coherent) {index : Nat}
    (found : (before.forest.fieldsOf scope)[index]? = some field) {block : ScopeId}
    (names : block ∈ field.blocks) : before.forest.parent? block = some scope := by
  obtain ⟨present, here, member⟩ := ScopeForest.scope_of_field (List.mem_of_getElem? found)
  exact coherent.numbered.blocks scope present here field member block names

/-- What is above an old scope is what was above it. -/
theorem descends_reflected (coherent : before.Coherent) (reaches : Reaches before after)
    (issued : before.forest.Issued inner) (descends : after.forest.Descends outer below inner) :
    before.forest.Descends outer below inner := by
  have member := descends.member
  rw [coherent.lineage_kept reaches issued] at member
  have old := coherent.ordered.issued_of_mem_lineage issued member
  exact ⟨(Reaches.parent_kept reaches coherent.formed old).2.symm.trans descends.linked, member⟩

/-- A scope that is new is nobody's block. -/
theorem Coherent.block_issued (coherent : before.Coherent) {index : Nat}
    (found : (before.forest.fieldsOf scope)[index]? = some field) {block : ScopeId}
    (names : block ∈ field.blocks) : before.forest.Issued block :=
  ScopeForest.issued_of_parent (coherent.block_below found names)

/-- Where the field of a block is declared at once, its references are still grounded after the
block was created, and nothing stands in the block. -/
theorem declaring_spec (coherent : before.Coherent) (issued : before.forest.Issued scope)
    (accepted : (before.createScope (some scope)).2.appendField scope field = .ok after)
    (grounded : before.forest.Grounds scope field.references)
    (blocks : field.blocks = [⟨before.forest.size⟩]) :
    Reaches (before.createScope (some scope)).2 after ∧
      (before.createScope (some scope)).2.forest.Grounds scope field.references ∧
      ∀ block ∈ field.blocks, ∀ id,
        block ∈ (before.createScope (some scope)).2.forest.lineage id →
          (before.createScope (some scope)).2.forest.fieldsOf id = [] := by
  have created := spares_created issued
  have openedCoherent := coherent.reached created.reaches
  have fresh := Reaches.grounds_kept created.reaches coherent.formed grounded
  have below : (before.createScope (some scope)).2.forest.parent? ⟨before.forest.size⟩ =
      some scope := ScopeForest.parent_of_scope (ScopeForest.scope_create_new _ _)
  refine ⟨(spares_declared accepted fresh (by simpa [blocks] using below)).reaches, fresh, ?_⟩
  intro block names id member
  rw [blocks, List.mem_singleton] at names
  have bound := openedCoherent.ordered.mem_lineage_le id block member
  rw [names] at bound
  exact (ScopeForest.fields_created before.forest (some scope) id).trans
    (ScopeForest.fields_of_not_issued (Nat.not_lt_of_le bound))

end Schema

end PacketSchema
