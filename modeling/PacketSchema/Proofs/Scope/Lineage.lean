import PacketSchema.Model.Scope

/-!
# Lineages of an ordered forest

A forest is ordered when every parent has a smaller number than its child. In such a forest a
walk up the parents ends by itself: the bound of the walk is never what stops it, so a lineage
obeys the recursion that one reads off the parent links. Numbers that were never issued are not
excluded; their lineage is the number alone.
-/

namespace PacketSchema.ScopeForest

variable {forest grown : ScopeForest} {id parent : ScopeId} {scope : Scope}

def Issued (forest : ScopeForest) (id : ScopeId) : Prop := id.index < forest.size

instance : Decidable (forest.Issued id) := inferInstanceAs (Decidable (id.index < forest.size))

/-- Parents are created before their children. -/
def Ordered (forest : ScopeForest) : Prop :=
  ∀ id parent, forest.parent? id = some parent → parent.index < id.index

theorem issued_iff_scope : forest.Issued id ↔ ∃ scope, forest.scope? id = some scope := by
  simp only [Issued, size, scope?, List.getElem?_eq_some_iff]
  exact ⟨fun bound => ⟨_, bound, rfl⟩, fun ⟨_, bound, _⟩ => bound⟩

theorem issued_of_scope (found : forest.scope? id = some scope) : forest.Issued id :=
  issued_iff_scope.mpr ⟨scope, found⟩

theorem scope_none_of_not_issued (absent : ¬forest.Issued id) : forest.scope? id = none := by
  rw [scope?, List.getElem?_eq_none_iff]
  exact Nat.le_of_not_lt absent

/-- A forest that keeps all scopes of another one begins with them. -/
theorem scopes_prefix_of_kept
    (kept : ∀ id, forest.Issued id → grown.scope? id = forest.scope? id) :
    forest.scopes <+: grown.scopes := by
  rw [List.prefix_iff_getElem?]
  intro index bound
  exact (kept ⟨index⟩ bound).trans (List.getElem?_eq_getElem bound)

theorem scope_of_prefix (begins : forest.scopes <+: grown.scopes) (issued : forest.Issued id) :
    grown.scope? id = forest.scope? id := by
  rw [scope?, scope?, List.getElem?_eq_getElem issued]
  exact List.prefix_iff_getElem?.mp begins id.index issued

theorem parent_of_scope (found : forest.scope? id = some scope) :
    forest.parent? id = scope.parent := by
  simp only [parent?, found, Option.bind_some]

theorem issued_of_parent (linked : forest.parent? id = some parent) : forest.Issued id := by
  obtain ⟨scope, found, _⟩ := Option.bind_eq_some_iff.mp linked
  exact issued_of_scope found

theorem Ordered.issued_parent (ordered : forest.Ordered)
    (linked : forest.parent? id = some parent) : forest.Issued parent :=
  Nat.lt_trans (ordered id parent linked) (issued_of_parent linked)

/-- What holds of a scope whenever it holds of its parent holds of every scope. -/
theorem Ordered.induction (ordered : forest.Ordered) {motive : ScopeId → Prop}
    (step : ∀ id, (∀ parent, forest.parent? id = some parent → motive parent) → motive id)
    (id : ScopeId) : motive id := by
  suffices bounded : ∀ count id, id.index < count → motive id from
    bounded (id.index + 1) id (Nat.lt_succ_self _)
  intro count
  induction count with
  | zero => intro id bound; omega
  | succ count below =>
      intro id bound
      apply step
      intro parent linked
      have smaller := ordered id parent linked
      exact below parent (by omega)

/-- Lineages are read off the parents alone. -/
theorem lineage_congr (size : grown.size = forest.size)
    (parents : ∀ id, grown.parent? id = forest.parent? id) (id : ScopeId) :
    grown.lineage id = forest.lineage id := by
  have within : ∀ (steps : Nat) (id : ScopeId),
      grown.lineageWithin steps id = forest.lineageWithin steps id := by
    intro steps
    induction steps with
    | zero => intro id; rfl
    | succ steps shorter =>
        intro id
        simp only [lineageWithin, parents, shorter]
  rw [lineage, size, within, lineage]

/-- Once a walk may take more steps than the number it starts from, further steps add nothing. -/
theorem Ordered.lineage_within_eq (ordered : forest.Ordered) (id : ScopeId) (steps extra : Nat)
    (enough : id.index < steps) :
    forest.lineageWithin (steps + extra) id = forest.lineageWithin steps id := by
  induction steps generalizing id with
  | zero => omega
  | succ steps shorter =>
      rw [Nat.add_right_comm, lineageWithin, lineageWithin]
      cases linked : forest.parent? id with
      | none => rfl
      | some parent =>
          have smaller := ordered id parent linked
          simp only [shorter parent (by omega)]

/-- A lineage is the scope itself and then the lineage of its parent. -/
theorem Ordered.lineage_eq (ordered : forest.Ordered) (id : ScopeId) :
    forest.lineage id = id :: ((forest.parent? id).map forest.lineage).getD [] := by
  rw [lineage, lineageWithin]
  cases linked : forest.parent? id with
  | none => rfl
  | some parent =>
      have bound := ordered.issued_parent linked
      have steps := ordered.lineage_within_eq parent forest.size 1 bound
      simpa only [Option.map_some, Option.getD_some, lineage] using congrArg (id :: ·) steps.symm

/-- A lineage ends at a scope without a parent, and not where its bound is used up. -/
theorem Ordered.lineage_ends (ordered : forest.Ordered) (id : ScopeId) :
    ∃ root, (forest.lineage id).getLast? = some root ∧ forest.parent? root = none := by
  induction id using ordered.induction with
  | step id above =>
      rw [ordered.lineage_eq]
      cases linked : forest.parent? id with
      | none => exact ⟨id, rfl, linked⟩
      | some parent =>
          obtain ⟨root, last, ends⟩ := above parent linked
          refine ⟨root, ?_, ends⟩
          rw [Option.map_some, Option.getD_some, List.getLast?_cons, last, Option.getD_some]

theorem Ordered.mem_lineage_le (ordered : forest.Ordered) (id : ScopeId) :
    ∀ ancestor ∈ forest.lineage id, ancestor.index ≤ id.index := by
  induction id using ordered.induction with
  | step id above =>
      intro ancestor member
      rw [ordered.lineage_eq] at member
      cases linked : forest.parent? id with
      | none =>
          simp only [linked, Option.map_none, Option.getD_none, List.mem_singleton] at member
          exact Nat.le_of_eq (congrArg ScopeId.index member)
      | some parent =>
          simp only [linked, Option.map_some, Option.getD_some, List.mem_cons] at member
          rcases member with rfl | higher
          · exact Nat.le_refl _
          · have smaller := ordered id parent linked
            have bound := above parent linked ancestor higher
            omega

theorem Ordered.issued_of_mem_lineage (ordered : forest.Ordered) (issued : forest.Issued id)
    {ancestor : ScopeId} (member : ancestor ∈ forest.lineage id) : forest.Issued ancestor :=
  Nat.lt_of_le_of_lt (ordered.mem_lineage_le id ancestor member) issued

theorem scope_create_old (issued : forest.Issued id) (parent : Option ScopeId) :
    (forest.create parent).2.scope? id = forest.scope? id :=
  List.getElem?_append_left issued

@[simp] theorem scope_create_new (forest : ScopeForest) (parent : Option ScopeId) :
    (forest.create parent).2.scope? ⟨forest.size⟩ = some ⟨parent, []⟩ := by
  simp only [scope?, create, size, List.getElem?_concat_length]

@[simp] theorem size_create (forest : ScopeForest) (parent : Option ScopeId) :
    (forest.create parent).2.size = forest.size + 1 := by
  simp only [size, create, List.length_append, List.length_singleton]

@[simp] theorem size_update_fields (forest : ScopeForest) (id : ScopeId)
    (update : List Field → List Field) : (forest.updateFields id update).size = forest.size := by
  simp only [size, updateFields, List.length_modify]

theorem scope_update_fields (forest : ScopeForest) (id other : ScopeId)
    (update : List Field → List Field) :
    (forest.updateFields id update).scope? other =
      (forest.scope? other).map fun scope =>
        if other = id then { scope with fields := update scope.fields } else scope := by
  simp only [scope?, updateFields, List.getElem?_modify]
  cases forest.scopes[other.index]? with
  | none => rfl
  | some scope =>
      have same : id.index = other.index ↔ other = id := by
        cases id; cases other; simp [eq_comm]
      simp only [Option.map_eq_map, Option.map_some, same]

theorem scope_update_fields_ne {other : ScopeId} (different : other ≠ id)
    (update : List Field → List Field) :
    (forest.updateFields id update).scope? other = forest.scope? other := by
  simp [scope_update_fields, different]

@[simp] theorem parent_update_fields (forest : ScopeForest) (id other : ScopeId)
    (update : List Field → List Field) :
    (forest.updateFields id update).parent? other = forest.parent? other := by
  rw [parent?, parent?, scope_update_fields]
  cases forest.scope? other with
  | none => rfl
  | some scope =>
      by_cases same : other = id
      · simp only [same, if_true, Option.map_some, Option.bind_some]
      · simp only [same, if_false, Option.map_some, Option.bind_some]

theorem issued_create (issued : forest.Issued id) (parent : Option ScopeId) :
    (forest.create parent).2.Issued id := by
  rw [Issued, size_create]
  exact Nat.lt_succ_of_lt issued

/-- A number that comes later than all issued ones is none of them. -/
theorem ne_of_issued (issued : forest.Issued id) {index : Nat} (later : forest.size ≤ index) :
    (⟨index⟩ : ScopeId) ≠ id := by
  intro same
  rw [← same, Issued] at issued
  exact Nat.not_lt_of_le later issued

theorem eq_new_of_issued_create {parent : Option ScopeId} (new : ¬forest.Issued id)
    (issued : (forest.create parent).2.Issued id) : id = ⟨forest.size⟩ := by
  cases id with
  | mk index =>
      rw [Issued, size_create] at issued
      rw [Issued] at new
      have same : index = forest.size := by
        simp only at issued new
        omega
      rw [same]

theorem Ordered.create (ordered : forest.Ordered) {parent : Option ScopeId}
    (issued : ∀ id ∈ parent, forest.Issued id) : (forest.create parent).2.Ordered := by
  intro id above linked
  by_cases old : forest.Issued id
  · rw [parent?, scope_create_old old] at linked
    exact ordered id above linked
  · cases eq_new_of_issued_create old (issued_of_parent linked)
    rw [parent_of_scope (scope_create_new forest parent)] at linked
    exact issued above linked

theorem Ordered.update_fields (ordered : forest.Ordered) (id : ScopeId)
    (update : List Field → List Field) : (forest.updateFields id update).Ordered := by
  intro other parent linked
  rw [parent_update_fields] at linked
  exact ordered other parent linked

end PacketSchema.ScopeForest
