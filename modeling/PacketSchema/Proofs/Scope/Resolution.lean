import PacketSchema.Proofs.Scope.Visibility

/-!
# Resolved references

A reference is grounded in a scope when it resolves to itself from there. It stays so under every
change of the forest, because no change moves a binding and none turns an always field into
anything else. Nothing is said about identifiers that do not resolve: those may resolve later.
-/

namespace PacketSchema.ScopeForest

variable {forest grown : ScopeForest} {id target : ScopeId} {ident : String} {field : Field}
  {reference : FieldRef} {first second : List FieldRef}

/-- The references resolve to themselves from a scope. -/
def Grounds (forest : ScopeForest) (id : ScopeId) (references : List FieldRef) : Prop :=
  ∀ reference ∈ references, forest.resolve id reference.ident = .ok reference

theorem grounds_nil : forest.Grounds id [] := by simp [Grounds]

theorem grounds_singleton :
    forest.Grounds id [reference] ↔ forest.resolve id reference.ident = .ok reference := by
  simp [Grounds]

theorem grounds_append :
    forest.Grounds id (first ++ second) ↔
      forest.Grounds id first ∧ forest.Grounds id second := by
  simp only [Grounds, List.mem_append, or_imp, forall_and]

theorem resolve_eq_ok_iff :
    forest.resolve id ident = .ok reference ↔
      reference.ident = ident ∧ ∃ encoding,
        forest.lookup id ident = .ok (some (reference.scope, .always ident encoding)) := by
  constructor
  · intro resolved
    unfold resolve at resolved
    split at resolved
    · simp at resolved
    · simp at resolved
    next owner name encoding found =>
      obtain ⟨_, _, _, _, declared⟩ := first_binding_split found
      obtain ⟨scope, _, own⟩ := Option.bind_eq_some_iff.mp declared
      have named : name = ident := Scope.ident_of_find own
      subst named
      cases resolved
      exact ⟨rfl, encoding, found⟩
    · simp at resolved
  · rintro ⟨rfl, encoding, found⟩
    simp only [resolve, found]

/-- What a resolved reference says: its owner is in the lineage, declares an always field of that
name, and nothing nearer declares the name at all. -/
theorem nearest_of_resolve (resolved : forest.resolve id ident = .ok reference) :
    ∃ nearer farther encoding, forest.lineage id = nearer ++ reference.scope :: farther ∧
      (∀ closer ∈ nearer, forest.field? closer ident = none) ∧
      forest.field? reference.scope ident = some (.always ident encoding) := by
  obtain ⟨_, encoding, found⟩ := resolve_eq_ok_iff.mp resolved
  obtain ⟨nearer, farther, split, absent, declared⟩ := first_binding_split found
  exact ⟨nearer, farther, encoding, split, absent, declared⟩

theorem Ordered.resolve_create (ordered : forest.Ordered) {parent : Option ScopeId}
    (parentIssued : ∀ above ∈ parent, forest.Issued above)
    (resolved : forest.resolve id ident = .ok reference) :
    (forest.create parent).2.resolve id ident = .ok reference := by
  obtain ⟨named, encoding, found⟩ := resolve_eq_ok_iff.mp resolved
  refine resolve_eq_ok_iff.mpr ⟨named, encoding, ?_⟩
  rw [ordered.lookup_create (issued_of_lookup found) parentIssued, found]

/-- Where a look-up is answered, a reference resolves or it is told why not. -/
theorem resolve_answers (answered : ∃ binding, forest.lookup id ident = .ok binding) :
    (∃ reference, forest.resolve id ident = .ok reference) ∨
      ∃ reason, forest.resolve id ident = .error (.unresolvedReference ident reason) := by
  obtain ⟨binding, seen⟩ := answered
  unfold resolve
  rw [seen]
  rcases binding with _ | ⟨owner, _ | _ | _⟩
  · exact .inr ⟨_, rfl⟩
  · exact .inl ⟨_, rfl⟩
  · exact .inr ⟨_, rfl⟩
  · exact .inr ⟨_, rfl⟩

theorem append_eq_ok (accepted : forest.append target field = .ok grown) :
    forest.lookup target field.ident = .ok none ∧
      grown = forest.updateFields target fun fields => fields ++ [field] := by
  unfold append at accepted
  split at accepted
  · simp at accepted
  · simp at accepted
  next fresh => exact ⟨fresh, (Except.ok.inj accepted).symm⟩

/-- A field that is declared is found in its scope under its identifier. -/
theorem field_declared (accepted : forest.append target field = .ok grown) :
    grown.field? target field.ident = some field := by
  rcases append_eq_ok accepted with ⟨fresh, rfl⟩
  rcases issued_iff_scope.mp (issued_of_lookup fresh) with ⟨present, found⟩
  have unbound := unbound_of_lookup fresh found
  have declared : (forest.updateFields target fun fields => fields ++ [field]).scope? target =
      some { present with fields := present.fields ++ [field] } := by
    simp only [scope_update_fields, found, Option.map_some, if_true]
  rw [field_of_scope declared]
  rw [Scope.find?] at unbound
  simp only [Scope.find?, List.find?_append, unbound, List.find?_singleton, beq_self_eq_true,
    if_true, Option.none_or]

theorem Ordered.resolve_append (ordered : forest.Ordered)
    (accepted : forest.append target field = .ok grown)
    (resolved : forest.resolve id ident = .ok reference) :
    grown.resolve id ident = .ok reference := by
  obtain ⟨fresh, rfl⟩ := append_eq_ok accepted
  obtain ⟨named, encoding, found⟩ := resolve_eq_ok_iff.mp resolved
  exact resolve_eq_ok_iff.mpr ⟨named, encoding, ordered.lookup_declare_kept fresh found⟩

/-- The rewriting of fields by which a union takes its new arms. -/
def exchange (choice : Union) (field : Field) : Field :=
  if field.ident = choice.ident then .union choice else field

theorem ident_exchange (choice : Union) (field : Field) :
    (exchange choice field).ident = field.ident := by
  unfold exchange
  split
  next same => exact same.symm
  · rfl

theorem exchange_of_ne {choice : Union} (different : field.ident ≠ choice.ident) :
    exchange choice field = field :=
  if_neg different

theorem append_arm_eq_ok {arm : Arm} (accepted : forest.appendArm target ident arm = .ok grown) :
    ∃ choice, choice.ident = ident ∧ forest.field? target ident = some (.union choice) ∧
      choice.conflict? arm = none ∧
      grown = forest.updateFields target
        (List.map (exchange ⟨choice.ident, choice.arms ++ [arm]⟩)) := by
  unfold appendArm at accepted
  split at accepted
  next choice declared =>
    obtain ⟨scope, _, own⟩ := Option.bind_eq_some_iff.mp declared
    have named : choice.ident = ident := Scope.ident_of_find own
    subst named
    refine ⟨choice, rfl, declared, ?_⟩
    simp only [Union.append] at accepted
    cases conflict : choice.conflict? arm with
    | some reason => simp [conflict] at accepted
    | none =>
        simp only [conflict, Except.ok.injEq] at accepted
        exact ⟨rfl, accepted.symm⟩
  · simp at accepted

theorem field_arm_added {choice : Union} {arm : Arm}
    (declared : forest.field? target ident = some (.union choice))
    (accepted : forest.appendArm target ident arm = .ok grown) :
    grown.field? target ident = some (.union ⟨ident, choice.arms ++ [arm]⟩) := by
  rcases append_arm_eq_ok accepted with ⟨other, named, found, _, rfl⟩
  rw [declared] at found
  cases found
  rcases Option.bind_eq_some_iff.mp declared with ⟨present, located, own⟩
  have changed : (forest.updateFields target (List.map (exchange
      ⟨choice.ident, choice.arms ++ [arm]⟩))).scope? target =
      some { present with fields := present.fields.map (exchange
        ⟨choice.ident, choice.arms ++ [arm]⟩) } := by
    simp only [scope_update_fields, located, Option.map_some, if_true]
  have taken : exchange ⟨choice.ident, choice.arms ++ [arm]⟩ (.union choice) =
      .union ⟨choice.ident, choice.arms ++ [arm]⟩ := if_pos rfl
  rw [field_of_scope changed]
  have renamed : (present.fields.map (exchange ⟨choice.ident, choice.arms ++ [arm]⟩)).find?
      (fun field => field.ident == ident) =
      (present.fields.find? fun field => field.ident == ident).map
        (exchange ⟨choice.ident, choice.arms ++ [arm]⟩) := by
    simp only [List.find?_map, Function.comp_def, ident_exchange]
  rw [Scope.find?] at own
  rw [Scope.find?, renamed, own, Option.map_some, taken, named]

theorem Ordered.resolve_append_arm (ordered : forest.Ordered) {arm : Arm} {name : String}
    (accepted : forest.appendArm target name arm = .ok grown)
    (resolved : forest.resolve id ident = .ok reference) :
    grown.resolve id ident = .ok reference := by
  obtain ⟨choice, rfl, declared, _, rfl⟩ := append_arm_eq_ok accepted
  obtain ⟨named, encoding, found⟩ := resolve_eq_ok_iff.mp resolved
  refine resolve_eq_ok_iff.mpr ⟨named, encoding, ?_⟩
  rw [ordered.lookup_map_fields (ident_exchange _), found]
  -- An always field is not the union of that name in the same scope, so it is not exchanged.
  have kept : ¬(reference.scope = target ∧ ident = choice.ident) := by
    rintro ⟨here, rfl⟩
    obtain ⟨_, _, _, _, owned⟩ := first_binding_split found
    rw [here, declared] at owned
    simp at owned
  have unchanged : (if reference.scope = target then
      exchange ⟨choice.ident, choice.arms ++ [arm]⟩ (.always ident encoding)
      else .always ident encoding) = .always ident encoding := by
    by_cases here : reference.scope = target
    · have different : (Field.always ident encoding).ident ≠ choice.ident :=
        fun same => kept ⟨here, same⟩
      rw [if_pos here]
      exact exchange_of_ne different
    · rw [if_neg here]
  simp only [Except.map, Option.map_some, unchanged]

end PacketSchema.ScopeForest
