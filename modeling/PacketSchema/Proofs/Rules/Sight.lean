import PacketSchema.Proofs.Resolving
import PacketSchema.Proofs.Rules.Lawful

/-!
# What a scope sees

A scope sees a list of bindings when a look-up from it finds exactly those: under each identifier
a field of the kind that the list gives it. This is what relates the rules, which speak of
visible statements, to the checks, which look identifiers up. A declaration is accepted where
nothing of its name is seen, and adds itself at the end; a reference resolves where an always
field of its name is seen.
-/

namespace PacketSchema

namespace ScopeForest

variable {forest grown : ScopeForest} {scope : ScopeId} {visible : List Tree.Binding}
  {ident : String} {field : Field}

structure Sees (forest : ScopeForest) (scope : ScopeId) (visible : List Tree.Binding) : Prop where
  ordered : forest.Ordered
  issued : forest.Issued scope
  bound : ∀ binding, binding ∈ visible ↔ ∃ owner field,
    forest.lookup scope binding.ident = .ok (some (owner, field)) ∧ field.kind = binding.kind

/-- The first scope of a packet without a parent sees nothing. -/
theorem Ordered.sees_root (ordered : forest.Ordered) :
    (forest.create none).2.Sees ⟨forest.size⟩ [] := by
  have grownOrdered : (forest.create none).2.Ordered := ordered.create (by simp)
  have created := scope_create_new forest none
  refine ⟨grownOrdered, issued_of_scope created, ?_⟩
  intro binding
  rw [grownOrdered.lookup_eq created]
  simp [Scope.find?]

/-- What a scope sees depends on no scope of a larger number. -/
theorem Sees.kept (sees : forest.Sees scope visible) (grownOrdered : grown.Ordered)
    (agree : ∀ other, other.index ≤ scope.index → grown.scope? other = forest.scope? other) :
    grown.Sees scope visible := by
  refine ⟨grownOrdered, ?_, ?_⟩
  · have known := issued_iff_scope.mp sees.issued
    rw [← agree scope (Nat.le_refl _)] at known
    exact issued_iff_scope.mpr known
  · intro binding
    rw [sees.ordered.lookup_congr grownOrdered agree]
    exact sees.bound binding

theorem Sees.create_kept (sees : forest.Sees scope visible) {parent : Option ScopeId}
    (parentIssued : ∀ above ∈ parent, forest.Issued above) :
    (forest.create parent).2.Sees scope visible :=
  sees.kept (sees.ordered.create parentIssued) fun _ bound =>
    scope_create_old (Nat.lt_of_le_of_lt bound sees.issued) parent

/-- A block without fields sees what is seen around it. -/
theorem Sees.below (sees : forest.Sees scope visible) {child : ScopeId}
    (empty : forest.scope? child = some ⟨some scope, []⟩) : forest.Sees child visible := by
  refine ⟨sees.ordered, issued_of_scope empty, ?_⟩
  intro binding
  rw [sees.ordered.lookup_eq empty]
  exact sees.bound binding

/-- So does a block that is new. -/
theorem Sees.created (sees : forest.Sees scope visible) :
    (forest.create (some scope)).2.Sees ⟨forest.size⟩ visible := by
  have kept : (forest.create (some scope)).2.Sees scope visible :=
    sees.create_kept (by simpa using sees.issued)
  exact kept.below (scope_create_new forest (some scope))

theorem Sees.unseen_iff (sees : forest.Sees scope visible) :
    forest.lookup scope ident = .ok none ↔ ∀ binding ∈ visible, binding.ident ≠ ident := by
  constructor
  · rintro absent binding member rfl
    rcases (sees.bound binding).mp member with ⟨owner, field, found, _⟩
    rw [absent] at found
    cases found
  · intro unseen
    rcases sees.ordered.lookup_ok sees.issued ident with ⟨answer, found⟩
    cases answer with
    | none => exact found
    | some binding =>
        have member : ⟨ident, binding.2.kind⟩ ∈ visible :=
          (sees.bound _).mpr ⟨binding.1, binding.2, found, rfl⟩
        exact absurd rfl (unseen _ member)

/-- A field can be declared where no visible statement has its identifier. -/
theorem Sees.append_iff (sees : forest.Sees scope visible) :
    (∃ grown, forest.append scope field = .ok grown) ↔
      ∀ binding ∈ visible, binding.ident ≠ field.ident := by
  rw [← sees.unseen_iff]
  constructor
  · rintro ⟨grown, accepted⟩
    exact (append_eq_ok accepted).1
  · intro fresh
    exact ⟨_, by rw [append, fresh]⟩

theorem Sees.declared (sees : forest.Sees scope visible)
    (accepted : forest.append scope field = .ok grown) :
    grown.Sees scope (visible ++ [⟨field.ident, field.kind⟩]) := by
  have appended := append_eq_ok accepted
  have fresh := appended.1
  rw [appended.2]
  refine ⟨sees.ordered.update_fields _ _, ?_, ?_⟩
  · rw [Issued, size_update_fields]
    exact sees.issued
  · intro binding
    rw [sees.ordered.lookup_declared sees.issued fresh, List.mem_append, List.mem_singleton]
    by_cases same : field.ident = binding.ident
    · have unseen := sees.unseen_iff.mp fresh
      rw [if_pos same]
      constructor
      · rintro (earlier | rfl)
        · exact absurd same.symm (unseen binding earlier)
        · exact ⟨scope, field, rfl, rfl⟩
      · rintro ⟨owner, found, here, kind⟩
        cases here
        right
        cases binding
        simp only [Tree.Binding.mk.injEq]
        exact ⟨same.symm, kind.symm⟩
    · rw [if_neg same, ← sees.bound binding]
      constructor
      · rintro (earlier | rfl)
        · exact earlier
        · exact absurd rfl same
      · exact .inl

/-- A reference resolves where an always statement of its name is visible. -/
theorem Sees.resolve_iff (sees : forest.Sees scope visible) :
    (∃ reference, forest.resolve scope ident = .ok reference) ↔
      ⟨ident, .always⟩ ∈ visible := by
  rw [sees.bound]
  constructor
  · rintro ⟨reference, resolved⟩
    have found := (resolve_eq_ok_iff.mp resolved).2
    rcases found with ⟨encoding, found⟩
    exact ⟨reference.scope, _, found, rfl⟩
  · rintro ⟨owner, field, found, kind⟩
    cases field with
    | always name encoding => exact ⟨⟨owner, ident⟩, by simp only [resolve, found]⟩
    | optional name condition block => cases kind
    | union choice => cases kind

theorem kind_exchange {choice : Union} (own : field.ident = choice.ident → field.kind = .union) :
    (exchange choice field).kind = field.kind := by
  unfold exchange
  split
  next same => exact (own same).symm
  · rfl

/-- The union that is exchanged is found under its own name only, and is a union as before. -/
theorem kind_arm_added {choice : Union} (arm : Arm) (named : choice.ident = ident)
    (declared : forest.field? scope ident = some (.union choice)) {below owner : ScopeId}
    {name : String} (found : forest.lookup below name = .ok (some (owner, field))) :
    (if owner = scope then exchange ⟨choice.ident, choice.arms ++ [arm]⟩ field else field).kind =
      field.kind := by
  by_cases here : owner = scope
  · rw [if_pos here]
    apply kind_exchange
    intro same
    rcases first_binding_split found with ⟨_, _, _, _, owned⟩
    rcases Option.bind_eq_some_iff.mp owned with ⟨_, _, own⟩
    have names : name = ident := (Scope.ident_of_find own).symm.trans (Eq.trans same named)
    rw [here, names, declared] at owned
    cases owned
    rfl
  · rw [if_neg here]

/-- An arm that a union takes is seen by none. -/
theorem Sees.arm_added (sees : forest.Sees scope visible) {arm : Arm}
    (accepted : forest.appendArm scope ident arm = .ok grown) : grown.Sees scope visible := by
  rcases append_arm_eq_ok accepted with ⟨choice, named, declared, _, rfl⟩
  refine ⟨sees.ordered.update_fields _ _, ?_, ?_⟩
  · rw [Issued, size_update_fields]
    exact sees.issued
  · intro binding
    rw [sees.bound binding, sees.ordered.lookup_map_fields (ident_exchange _)]
    rcases sees.ordered.lookup_ok sees.issued binding.ident with ⟨answer, found⟩
    rw [found]
    cases answer with
    | none => simp [Except.map]
    | some pair =>
        have kind := kind_arm_added arm named declared found
        simp only [Except.map, Option.map_some, Except.ok.injEq, Option.some.injEq]
        constructor
        · rintro ⟨owner, field, rfl, sameAs⟩
          exact ⟨owner, _, rfl, kind.trans sameAs⟩
        · rintro ⟨owner, field, same, sameAs⟩
          refine ⟨pair.1, pair.2, rfl, ?_⟩
          rw [← kind, ← sameAs, ← (Prod.mk.inj same).2]

end ScopeForest

end PacketSchema
