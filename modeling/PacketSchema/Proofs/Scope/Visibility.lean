import PacketSchema.Proofs.Scope.Lineage

/-!
# What an identifier means from a scope

In an ordered forest a look-up obeys the recursion over parent links: a scope's own fields first,
then whatever its parent sees. Three changes are made to a forest: a scope is created, a field is
declared, the fields of a scope are rewritten under their names. None of them moves a binding that
was found before: a declaration is refused where its identifier is already seen, so a new field
is never nearer than an old one of the same name.
-/

namespace PacketSchema

theorem Scope.ident_of_find {scope : Scope} {ident : String} {field : Field}
    (found : scope.find? ident = some field) : field.ident = ident :=
  eq_of_beq (List.find?_some (p := fun field : Field => field.ident == ident) found)

namespace ScopeForest

variable {forest grown : ScopeForest} {id owner target : ScopeId} {scope : Scope}
  {ident : String} {field bound : Field}

theorem field_of_scope (found : forest.scope? id = some scope) :
    forest.field? id ident = scope.find? ident := by
  simp only [field?, found, Option.bind_some]

/-- A binding found along a list of scopes is in the first of them that has one. -/
theorem first_binding_split {ids : List ScopeId}
    (found : forest.firstBinding ident ids = .ok (some (owner, field))) :
    ∃ nearer farther, ids = nearer ++ owner :: farther ∧
      (∀ closer ∈ nearer, forest.field? closer ident = none) ∧
      forest.field? owner ident = some field := by
  induction ids with
  | nil => simp [firstBinding] at found
  | cons id rest tail =>
      simp only [firstBinding] at found
      cases present : forest.scope? id with
      | none => simp [present] at found
      | some scope =>
          simp only [present] at found
          cases own : scope.find? ident with
          | some here =>
              simp only [own, Except.ok.injEq, Option.some.injEq, Prod.mk.injEq] at found
              obtain ⟨rfl, rfl⟩ := found
              exact ⟨[], rest, rfl, by simp, by rw [field_of_scope present, own]⟩
          | none =>
              simp only [own] at found
              obtain ⟨nearer, farther, rfl, absent, declared⟩ := tail found
              refine ⟨id :: nearer, farther, rfl, ?_, declared⟩
              intro closer member
              rcases List.mem_cons.mp member with rfl | later
              · rw [field_of_scope present, own]
              · exact absent closer later

theorem lookup_not_issued (absent : ¬forest.Issued id) :
    forest.lookup id ident = .error (.unissuedScope id) := by
  simp only [lookup, lineage, lineageWithin, firstBinding, scope_none_of_not_issued absent]

theorem issued_of_lookup {binding : Option (ScopeId × Field)}
    (answered : forest.lookup id ident = .ok binding) : forest.Issued id :=
  Decidable.byContradiction fun absent => by
    simp [lookup_not_issued absent] at answered

/-- A scope that sees nothing of a name declares none of it. -/
theorem unbound_of_lookup (absent : forest.lookup id ident = .ok none)
    (found : forest.scope? id = some scope) : scope.find? ident = none := by
  rw [lookup, lineage, lineageWithin, firstBinding] at absent
  simp only [found] at absent
  cases own : scope.find? ident with
  | none => rfl
  | some field => simp [own] at absent

/-- A scope's own field, or what the parent sees. -/
theorem Ordered.lookup_eq (ordered : forest.Ordered) (found : forest.scope? id = some scope)
    (ident : String) :
    forest.lookup id ident =
      match scope.find? ident with
      | some field => .ok (some (id, field))
      | none =>
          match scope.parent with
          | none => .ok none
          | some parent => forest.lookup parent ident := by
  rw [lookup, ordered.lineage_eq, firstBinding, parent_of_scope found]
  simp only [found]
  cases scope.find? ident with
  | some field => rfl
  | none => cases scope.parent <;> rfl

theorem first_binding_ok {ids : List ScopeId} (issued : ∀ id ∈ ids, forest.Issued id)
    (ident : String) : ∃ binding, forest.firstBinding ident ids = .ok binding := by
  induction ids with
  | nil => exact ⟨none, rfl⟩
  | cons id rest further =>
      rw [List.forall_mem_cons] at issued
      obtain ⟨scope, found⟩ := issued_iff_scope.mp issued.1
      simp only [firstBinding, found]
      cases scope.find? ident with
      | some field => exact ⟨_, rfl⟩
      | none => exact further issued.2

theorem Ordered.lookup_ok (ordered : forest.Ordered) (issued : forest.Issued id)
    (ident : String) : ∃ binding, forest.lookup id ident = .ok binding :=
  first_binding_ok (fun _ => ordered.issued_of_mem_lineage issued) ident

/-- At a scope that is there a field is refused for one reason. -/
theorem Ordered.append_error {error : SchemaError} (ordered : forest.Ordered)
    (issued : forest.Issued id) (rejected : forest.append id field = .error error) :
    error = .fieldRedefined field.ident := by
  obtain ⟨binding, seen⟩ := ordered.lookup_ok issued field.ident
  unfold append at rejected
  rw [seen] at rejected
  cases binding with
  | none => cases rejected
  | some bound =>
      cases rejected
      rfl

/-- A look-up reads no scope with a larger number than the one it starts from. -/
theorem Ordered.lookup_congr (ordered : forest.Ordered) (grownOrdered : grown.Ordered)
    (agree : ∀ other, other.index ≤ id.index → grown.scope? other = forest.scope? other) :
    grown.lookup id ident = forest.lookup id ident := by
  induction id using ordered.induction with
  | step id above =>
      have here := agree id (Nat.le_refl _)
      cases found : forest.scope? id with
      | none =>
          have absent : ¬forest.Issued id := by simp [issued_iff_scope, found]
          have grownAbsent : ¬grown.Issued id := by simp [issued_iff_scope, here, found]
          rw [lookup_not_issued absent, lookup_not_issued grownAbsent]
      | some scope =>
          rw [ordered.lookup_eq found, grownOrdered.lookup_eq (here.trans found)]
          cases scope.find? ident with
          | some field => rfl
          | none =>
              cases linked : scope.parent with
              | none => rfl
              | some parent =>
                  have link := (parent_of_scope found).trans linked
                  have smaller := ordered id parent link
                  exact above parent link fun other bound => agree other (by omega)

theorem Ordered.lookup_create (ordered : forest.Ordered) (issued : forest.Issued id)
    {parent : Option ScopeId} (parentIssued : ∀ above ∈ parent, forest.Issued above) :
    (forest.create parent).2.lookup id ident = forest.lookup id ident :=
  ordered.lookup_congr (ordered.create parentIssued) fun _ bound =>
    scope_create_old (Nat.lt_of_le_of_lt bound issued) parent

/-- A scope sees a field that was declared in it, and else what it saw before. -/
theorem Ordered.lookup_declared (ordered : forest.Ordered) (issued : forest.Issued id)
    (fresh : forest.lookup id field.ident = .ok none) :
    (forest.updateFields id fun fields => fields ++ [field]).lookup id ident =
      if field.ident = ident then .ok (some (id, field)) else forest.lookup id ident := by
  obtain ⟨scope, found⟩ := issued_iff_scope.mp issued
  have declared : (forest.updateFields id fun fields => fields ++ [field]).scope? id =
      some { scope with fields := scope.fields ++ [field] } := by
    simp only [scope_update_fields, found, Option.map_some, if_true]
  have grownOrdered := ordered.update_fields id fun fields => fields ++ [field]
  have farther : ∀ parent, scope.parent = some parent →
      (forest.updateFields id fun fields => fields ++ [field]).lookup parent ident =
        forest.lookup parent ident := by
    intro parent linked
    have smaller := ordered id parent ((parent_of_scope found).trans linked)
    apply ordered.lookup_congr grownOrdered
    intro other bound
    apply scope_update_fields_ne
    rintro rfl
    omega
  rw [ordered.lookup_eq found] at fresh
  rw [grownOrdered.lookup_eq declared, ordered.lookup_eq found]
  simp only [Scope.find?, List.find?_append, List.find?_singleton, beq_iff_eq] at fresh ⊢
  by_cases same : field.ident = ident
  · subst same
    cases own : scope.fields.find? fun present => present.ident == field.ident with
    | some present => simp [own] at fresh
    | none => simp
  · simp only [if_neg same, Option.or_none]
    cases scope.fields.find? fun present => present.ident == ident with
    | some present => rfl
    | none =>
        cases linked : scope.parent with
        | none => rfl
        | some parent => exact farther parent linked

/-- A declaration that is not refused moves no binding: the scope it is made in saw none of its
name, so every scope that sees one sees it from below. -/
theorem Ordered.lookup_declare_kept (ordered : forest.Ordered)
    (fresh : forest.lookup target field.ident = .ok none)
    (seen : forest.lookup id ident = .ok (some (owner, bound))) :
    (forest.updateFields target fun fields => fields ++ [field]).lookup id ident =
      .ok (some (owner, bound)) := by
  induction id using ordered.induction with
  | step id above =>
      have issued := issued_of_lookup seen
      by_cases here : id = target
      · subst here
        rw [ordered.lookup_declared issued fresh]
        have different : field.ident ≠ ident := by
          rintro rfl
          simp [fresh] at seen
        rw [if_neg different, seen]
      · obtain ⟨scope, found⟩ := issued_iff_scope.mp issued
        have unchanged := (scope_update_fields_ne here fun fields => fields ++ [field]).trans found
        rw [ordered.lookup_eq found] at seen
        rw [(ordered.update_fields target _).lookup_eq unchanged]
        cases own : scope.find? ident with
        | some present => simpa only [own] using seen
        | none =>
            simp only [own] at seen ⊢
            cases linked : scope.parent with
            | none => simp [linked] at seen
            | some parent =>
                simp only [linked] at seen ⊢
                exact above parent ((parent_of_scope found).trans linked) seen

/-- Rewriting the fields of a scope one by one, each under its own identifier, rewrites what is
found there and moves nothing. -/
theorem Ordered.lookup_map_fields (ordered : forest.Ordered) {change : Field → Field}
    (keeps : ∀ field, (change field).ident = field.ident) :
    (forest.updateFields target (List.map change)).lookup id ident =
      (forest.lookup id ident).map (Option.map fun (owner, field) =>
        (owner, if owner = target then change field else field)) := by
  induction id using ordered.induction with
  | step id above =>
      cases found : forest.scope? id with
      | none =>
          have absent : ¬forest.Issued id := by simp [issued_iff_scope, found]
          have grownAbsent : ¬(forest.updateFields target (List.map change)).Issued id := by
            simpa only [Issued, size_update_fields] using absent
          rw [lookup_not_issued absent, lookup_not_issued grownAbsent]
          rfl
      | some scope =>
          have changed : (forest.updateFields target (List.map change)).scope? id =
              some (if id = target then { scope with fields := scope.fields.map change }
                else scope) := by
            simp only [scope_update_fields, found, Option.map_some]
          have ownChanged :
              (if id = target then { scope with fields := scope.fields.map change }
                else scope).find? ident =
              (scope.find? ident).map fun field =>
                if id = target then change field else field := by
            by_cases here : id = target
            · simp only [here, if_true, Scope.find?, List.find?_map, Function.comp_def, keeps]
            · simp [here]
          have sameParent : (if id = target then { scope with fields := scope.fields.map change }
              else scope).parent = scope.parent := by split <;> rfl
          rw [ordered.lookup_eq found, (ordered.update_fields target _).lookup_eq changed,
            ownChanged, sameParent]
          cases scope.find? ident with
          | some field => rfl
          | none =>
              cases linked : scope.parent with
              | none => rfl
              | some parent => exact above parent ((parent_of_scope found).trans linked)

end ScopeForest

end PacketSchema
