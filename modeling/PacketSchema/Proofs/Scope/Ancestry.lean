import PacketSchema.Proofs.Scope.Visibility

/-!
# Lineages as an order

In an ordered forest a scope is in the lineage of another one when a walk up the parents meets it.
This is an order by number in which what is above one scope is a chain: of two scopes in one
lineage the one with the smaller number is in the lineage of the other. A lineage reads parent
links only, and only those of scopes with smaller numbers, so it is the same in every forest that
keeps them.
-/

namespace PacketSchema.ScopeForest

variable {forest grown : ScopeForest} {id ancestor higher parent : ScopeId} {scope : Scope}
  {ident : String} {field : Field}

theorem mem_lineage_self (forest : ScopeForest) (id : ScopeId) : id ∈ forest.lineage id := by
  rw [lineage, lineageWithin]
  exact List.mem_cons_self

theorem Ordered.mem_lineage_iff (ordered : forest.Ordered) :
    ancestor ∈ forest.lineage id ↔
      ancestor = id ∨ ∃ parent, forest.parent? id = some parent ∧
        ancestor ∈ forest.lineage parent := by
  rw [ordered.lineage_eq, List.mem_cons]
  cases forest.parent? id with
  | none => simp
  | some parent => simp

theorem Ordered.mem_lineage_parent (ordered : forest.Ordered)
    (linked : forest.parent? id = some parent) (member : ancestor ∈ forest.lineage parent) :
    ancestor ∈ forest.lineage id :=
  ordered.mem_lineage_iff.mpr (.inr ⟨parent, linked, member⟩)

theorem Ordered.mem_lineage_trans (ordered : forest.Ordered)
    (above : higher ∈ forest.lineage ancestor) (member : ancestor ∈ forest.lineage id) :
    higher ∈ forest.lineage id := by
  induction id using ordered.induction with
  | step id inner =>
      rcases ordered.mem_lineage_iff.mp member with rfl | ⟨parent, linked, further⟩
      · exact above
      · exact ordered.mem_lineage_parent linked (inner parent linked further)

/-- What two scopes of one lineage are to each other is told by their numbers. -/
theorem Ordered.mem_lineage_of_le (ordered : forest.Ordered)
    (first : higher ∈ forest.lineage id) (second : ancestor ∈ forest.lineage id)
    (order : higher.index ≤ ancestor.index) : higher ∈ forest.lineage ancestor := by
  induction id using ordered.induction with
  | step id inner =>
      rcases ordered.mem_lineage_iff.mp second with rfl | ⟨parent, linked, further⟩
      · exact first
      · have smaller := ordered id parent linked
        have bound := ordered.mem_lineage_le parent ancestor further
        rcases ordered.mem_lineage_iff.mp first with rfl | ⟨other, again, beyond⟩
        · omega
        · rw [linked] at again
          cases again
          exact inner parent linked beyond further

/-- Nothing is above and below the same scope. -/
theorem Ordered.mem_lineage_antisymm (ordered : forest.Ordered)
    (above : ancestor ∈ forest.lineage id) (below : id ∈ forest.lineage ancestor) :
    ancestor = id := by
  have up := ordered.mem_lineage_le id ancestor above
  have down := ordered.mem_lineage_le ancestor id below
  exact congrArg ScopeId.mk (Nat.le_antisymm up down)

theorem Ordered.parent_mem_lineage (ordered : forest.Ordered)
    (linked : forest.parent? id = some parent) : parent ∈ forest.lineage id :=
  ordered.mem_lineage_parent linked (forest.mem_lineage_self parent)

/-- Every scope of a lineage but the first is in the lineage of the parent. -/
theorem Ordered.mem_lineage_of_ne (ordered : forest.Ordered)
    (linked : forest.parent? id = some parent) (member : ancestor ∈ forest.lineage id)
    (different : ancestor ≠ id) : ancestor ∈ forest.lineage parent := by
  rcases ordered.mem_lineage_iff.mp member with same | ⟨other, again, further⟩
  · exact absurd same different
  · rw [linked] at again
    cases again
    exact further

/-- The lineage of a scope is kept where parents are. -/
theorem Ordered.lineage_kept (ordered : forest.Ordered) (grownOrdered : grown.Ordered)
    (kept : ∀ id, forest.Issued id → grown.parent? id = forest.parent? id)
    (issued : forest.Issued id) : grown.lineage id = forest.lineage id := by
  induction id using ordered.induction with
  | step id above =>
      rw [ordered.lineage_eq, grownOrdered.lineage_eq, kept id issued]
      cases linked : forest.parent? id with
      | none => rfl
      | some parent =>
          rw [Option.map_some, Option.map_some,
            above parent linked (ordered.issued_parent linked)]

/-- What is not seen from a scope is declared nowhere in its lineage. -/
theorem Ordered.ident_ne_of_unseen (ordered : forest.Ordered)
    (absent : forest.lookup id ident = .ok none) (member : ancestor ∈ forest.lineage id)
    (found : forest.scope? ancestor = some scope) (declared : field ∈ scope.fields) :
    field.ident ≠ ident := by
  induction id using ordered.induction with
  | step id above =>
      obtain ⟨own, present⟩ := issued_iff_scope.mp (issued_of_lookup absent)
      have unbound := unbound_of_lookup absent present
      rcases ordered.mem_lineage_iff.mp member with rfl | ⟨parent, linked, further⟩
      · rw [found] at present
        cases present
        rw [Scope.find?, List.find?_eq_none] at unbound
        intro same
        exact unbound field declared (beq_iff_eq.mpr same)
      · rw [parent_of_scope present] at linked
        rw [ordered.lookup_eq present, unbound, linked] at absent
        exact above parent ((parent_of_scope present).trans linked) absent further

end PacketSchema.ScopeForest
