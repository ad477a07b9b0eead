import Mathlib.Data.List.Perm.Subperm
import PacketSchema.Proofs.Scope.Ancestry
import PacketSchema.Proofs.Scope.Stability

/-!
# The tree order of scopes

A walk up the parents hands out a scope, goes on to the parent of it and stops where there is none.
Nothing else stops it. That it stops at all is owed to the order in which scopes are created: a
parent is there before its child, in every forest that grows from the empty one, so the numbers
fall. What a walk hands out is then the lineage, and from each scope on it is the lineage of that
scope. To be in the lineage of a scope is therefore an order, in which what is above a scope is a
chain; and as no scope is given another parent, the order among scopes never changes.
-/

namespace PacketSchema.ScopeForest

open Relation (ReflTransGen)

variable {forest grown later : ScopeForest} {id ancestor : ScopeId} {next : Option ScopeId}
  {ids others : List ScopeId}

/-- A walk that has a scope to go on with, or none, hands out some scopes and is then at its
end. -/
inductive HandsOut (forest : ScopeForest) : Option ScopeId → List ScopeId → Prop
  | ended : HandsOut forest none []
  | further {id : ScopeId} {rest : List ScopeId}
      (above : HandsOut forest (forest.parent? id) rest) : HandsOut forest (some id) (id :: rest)

/-- What a walk hands out is told by where it begins. -/
theorem HandsOut.unique (walk : forest.HandsOut next ids) (other : forest.HandsOut next others) :
    ids = others := by
  induction walk generalizing others with
  | ended =>
      cases other
      rfl
  | further _ same =>
      cases other with
      | further above => rw [same above]

/-- From each scope that a walk hands out, the rest of the walk is a walk. -/
theorem HandsOut.walk_from (walk : forest.HandsOut next ids) (member : ancestor ∈ ids) :
    ∃ rest, rest <:+ ids ∧ forest.HandsOut (some ancestor) rest := by
  induction walk with
  | ended => cases member
  | further above later =>
      rcases List.mem_cons.mp member with rfl | higher
      · exact ⟨_, List.suffix_rfl, .further above⟩
      · obtain ⟨rest, ends, walk⟩ := later higher
        exact ⟨rest, ends.trans (List.suffix_cons _ _), walk⟩

/-- A walk that comes to its end meets no scope twice, or it would go on from there as before. -/
theorem HandsOut.nodup (walk : forest.HandsOut next ids) : ids.Nodup := by
  induction walk with
  | ended => exact List.nodup_nil
  | further above distinct =>
      refine List.nodup_cons.mpr ⟨?_, distinct⟩
      intro again
      obtain ⟨rest, ends, walk⟩ := above.walk_from again
      cases walk.unique (.further above)
      have shorter := ends.length_le
      rw [List.length_cons] at shorter
      omega

theorem HandsOut.lineage_within (walk : forest.HandsOut (some id) ids) {steps : Nat}
    (enough : ids.length ≤ steps) : forest.lineageWithin steps id = ids := by
  induction steps generalizing id ids with
  | zero =>
      cases walk
      cases enough
  | succ steps shorter =>
      cases walk with
      | further above =>
          rw [lineageWithin]
          cases linked : forest.parent? id with
          | none =>
              rw [linked] at above
              cases above
              rfl
          | some parent =>
              rw [linked] at above
              simp only [shorter above (Nat.le_of_succ_le_succ enough)]

/-- A walk that comes to its end among the scopes of a forest has handed out the lineage, also
where the forest is not ordered. -/
theorem HandsOut.lineage_eq (walk : forest.HandsOut (some id) ids)
    (issued : ∀ ancestor ∈ ids, forest.Issued ancestor) : forest.lineage id = ids := by
  have numbers : ids.map ScopeId.index ⊆ List.range forest.size := by
    intro index member
    obtain ⟨ancestor, met, rfl⟩ := List.mem_map.mp member
    exact List.mem_range.mpr (issued ancestor met)
  have distinct : (ids.map ScopeId.index).Nodup :=
    walk.nodup.map fun _ _ same => congrArg ScopeId.mk same
  have bound := (List.subperm_of_subset distinct numbers).length_le
  rw [List.length_map, List.length_range] at bound
  exact walk.lineage_within (Nat.le_succ_of_le bound)

/-- In an ordered forest a walk comes to its end, and has then handed out the lineage. -/
theorem Ordered.hands_out_lineage (ordered : forest.Ordered) (id : ScopeId) :
    forest.HandsOut (some id) (forest.lineage id) := by
  induction id using ordered.induction with
  | step id higher =>
      rw [ordered.lineage_eq]
      apply HandsOut.further
      cases linked : forest.parent? id with
      | none => exact .ended
      | some parent => exact higher parent linked

theorem Ordered.hands_out_iff (ordered : forest.Ordered) :
    forest.HandsOut (some id) ids ↔ ids = forest.lineage id := by
  constructor
  · intro walk
    exact walk.unique (ordered.hands_out_lineage id)
  · rintro rfl
    exact ordered.hands_out_lineage id

/-- A lineage goes down in numbers, step by step. -/
theorem Ordered.lineage_falling (ordered : forest.Ordered) (id : ScopeId) :
    (forest.lineage id).Pairwise fun lower higher => higher.index < lower.index := by
  induction id using ordered.induction with
  | step id above =>
      rw [ordered.lineage_eq]
      cases linked : forest.parent? id with
      | none => exact List.pairwise_singleton _ _
      | some parent =>
          refine List.pairwise_cons.mpr ⟨?_, above parent linked⟩
          intro higher member
          exact Nat.lt_of_le_of_lt (ordered.mem_lineage_le parent higher member)
            (ordered id parent linked)

/-- From each of its scopes on, a lineage is the lineage of that scope. -/
theorem Ordered.lineage_from (ordered : forest.Ordered) (member : ancestor ∈ forest.lineage id) :
    (forest.lineage id).dropWhile (· != ancestor) = forest.lineage ancestor := by
  induction id using ordered.induction with
  | step id above =>
      by_cases here : ancestor = id
      · subst here
        rw [ordered.lineage_eq]
        exact List.dropWhile_cons_of_neg (by simp)
      · obtain same | ⟨parent, linked, further⟩ := ordered.mem_lineage_iff.mp member
        · exact absurd same here
        · have passed : (id != ancestor) = true := bne_iff_ne.mpr (Ne.symm here)
          rw [ordered.lineage_eq id, linked, Option.map_some, Option.getD_some,
            List.dropWhile_cons, if_pos passed]
          exact above parent linked further

theorem is_in_lineage_iff :
    forest.isInLineage id ancestor = true ↔ ancestor ∈ forest.lineage id := by
  rw [isInLineage, List.contains_iff_mem]

/-- What holds of the lineage of a scope: a walk up the parents hands out this and stops, the scope
itself comes first, the numbers fall, a scope without a parent comes last, and from each of its
scopes on it is the lineage of that scope. -/
structure Lineal (forest : ScopeForest) (id : ScopeId) : Prop where
  walked : ∀ ids, forest.HandsOut (some id) ids ↔ ids = forest.lineage id
  first : (forest.lineage id).head? = some id
  falling : (forest.lineage id).Pairwise fun lower higher => higher.index < lower.index
  rooted : ∃ root, (forest.lineage id).getLast? = some root ∧ forest.parent? root = none
  issued : ∀ ancestor ∈ forest.lineage id, forest.Issued ancestor
  suffix : ∀ ancestor ∈ forest.lineage id,
    (forest.lineage id).dropWhile (· != ancestor) = forest.lineage ancestor

theorem Ordered.lineal (ordered : forest.Ordered) (issued : forest.Issued id) :
    forest.Lineal id where
  walked _ := ordered.hands_out_iff
  first := by rw [ordered.lineage_eq, List.head?_cons]
  falling := ordered.lineage_falling id
  rooted := ordered.lineage_ends id
  issued _ member := ordered.issued_of_mem_lineage issued member
  suffix _ member := ordered.lineage_from member

/-- Scopes are ordered by their lineages, and what is above one scope is a chain. -/
structure TreeOrdered (forest : ScopeForest) : Prop where
  refl : ∀ id, forest.isInLineage id id = true
  trans : ∀ id middle ancestor, forest.isInLineage id middle = true →
    forest.isInLineage middle ancestor = true → forest.isInLineage id ancestor = true
  antisymm : ∀ id ancestor, forest.isInLineage id ancestor = true →
    forest.isInLineage ancestor id = true → id = ancestor
  comparable : ∀ id left right, forest.isInLineage id left = true →
    forest.isInLineage id right = true →
    forest.isInLineage left right = true ∨ forest.isInLineage right left = true

theorem Ordered.tree_ordered (ordered : forest.Ordered) : forest.TreeOrdered := by
  constructor <;> simp only [is_in_lineage_iff]
  · exact forest.mem_lineage_self
  · intro id middle ancestor member above
    exact ordered.mem_lineage_trans above member
  · intro id ancestor above below
    exact (ordered.mem_lineage_antisymm above below).symm
  · intro id left right first second
    rcases Nat.le_total right.index left.index with higher | lower
    · exact .inl (ordered.mem_lineage_of_le second first higher)
    · exact .inr (ordered.mem_lineage_of_le first second lower)

/-- A parent is fixed when its child is created. -/
theorem parent_kept_of_grown (run : ReflTransGen Grows forest later) (sound : forest.Sound)
    (issued : forest.Issued id) : later.parent? id = forest.parent? id := by
  obtain ⟨scope, found⟩ := issued_iff_scope.mp issued
  obtain ⟨grownScope, there, cut⟩ := cut_of_grown run sound id.index scope found
  rw [parent_of_scope found, parent_of_scope there, cut.parent]

theorem lineage_kept_of_grown (run : ReflTransGen Grows forest later) (sound : forest.Sound)
    (issued : forest.Issued id) : later.lineage id = forest.lineage id :=
  sound.ordered.lineage_kept (sound_of_grown run sound).ordered
    (fun _ old => parent_kept_of_grown run sound old) issued

/-- Whatever was done to a forest, the lineage of each of its scopes is a walk up to a root that
falls in numbers and ends with the lineages of the scopes that it meets, the lineages are a tree
order, and whatever is done later leaves the lineages of the scopes that are there. -/
theorem lineages_form_tree_order (reached : ReflTransGen Grows .empty forest) :
    (∀ id, forest.Issued id → forest.Lineal id) ∧ forest.TreeOrdered ∧
      ∀ later, ReflTransGen Grows forest later → ∀ id, forest.Issued id →
        later.lineage id = forest.lineage id ∧
        ∀ ancestor, later.isInLineage id ancestor = forest.isInLineage id ancestor := by
  have sound := sound_of_grown reached sound_empty
  refine ⟨fun id issued => sound.ordered.lineal issued, sound.ordered.tree_ordered, ?_⟩
  intro later run id issued
  have kept := lineage_kept_of_grown run sound issued
  exact ⟨kept, fun ancestor => by rw [isInLineage, isInLineage, kept]⟩

/-- Two scopes side by side below a root, one of them with a scope below it, and a second root. -/
def branching : ScopeForest :=
  ⟨[⟨none, []⟩, ⟨some ⟨0⟩, []⟩, ⟨some ⟨0⟩, []⟩, ⟨none, []⟩, ⟨some ⟨2⟩, []⟩]⟩

theorem branching_reached : ReflTransGen Grows .empty branching :=
  ((((ReflTransGen.single (.root .empty)).tail (@Grows.child _ ⟨0⟩ (by decide))).tail
    (@Grows.child _ ⟨0⟩ (by decide))).tail (.root _)).tail (@Grows.child _ ⟨2⟩ (by decide))

/-- A field above and a scope below change nothing for the scopes that are there. -/
theorem branching_tree_order :
    branching.Issued ⟨4⟩ ∧ branching.lineage ⟨4⟩ = [⟨4⟩, ⟨2⟩, ⟨0⟩] ∧ branching.Lineal ⟨4⟩ ∧
      branching.TreeOrdered ∧ branching.isInLineage ⟨4⟩ ⟨1⟩ = false ∧
      ∃ later, ReflTransGen Grows branching later ∧ later.size = 6 ∧
        later.lineage ⟨4⟩ = branching.lineage ⟨4⟩ := by
  have grows : ReflTransGen Grows branching _ :=
    (ReflTransGen.single (.field branching ⟨0⟩ (.union (.empty "body")))).tail
      (@Grows.child _ ⟨4⟩ (by decide))
  obtain ⟨lineal, ordered, kept⟩ := lineages_form_tree_order branching_reached
  have issued : branching.Issued ⟨4⟩ := by decide
  exact ⟨issued, by decide, lineal ⟨4⟩ issued, ordered, by decide, _, grows, by decide,
    (kept _ grows ⟨4⟩ issued).1⟩

end PacketSchema.ScopeForest
