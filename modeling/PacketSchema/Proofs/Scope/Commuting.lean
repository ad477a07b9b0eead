import PacketSchema.Proofs.Scope.Ancestry
import PacketSchema.Proofs.Scope.Stability

/-!
# Declarations in either order

A declaration reads the names in the lineage of its scope and writes to the end of that scope. So
one declaration is seen by another only where its scope is in the lineage of the other one's and
the names are the same. Two declarations in different scopes may then change places, but for one
case: where the name is still free in the lower scope, it matters who comes first. Declared above
first, the name is refused below; declared below first, it is accepted in both scopes, for a look
up the parents does not see it there.
-/

namespace PacketSchema.ScopeForest

open Relation (ReflTransGen)

variable {forest grown : ScopeForest} {id target above left right : ScopeId} {ident : String}
  {field first second : Field}

theorem lineage_update_fields (forest : ScopeForest) (target id : ScopeId)
    (update : List Field → List Field) :
    (forest.updateFields target update).lineage id = forest.lineage id :=
  lineage_congr (size_update_fields forest target update)
    (fun other => parent_update_fields forest target other update) id

/-- A search along some scopes answers by what is declared in each of them under the name. -/
theorem first_binding_congr {ids : List ScopeId}
    (agree : ∀ id ∈ ids, (grown.scope? id).map (Scope.find? · ident) =
      (forest.scope? id).map (Scope.find? · ident)) :
    grown.firstBinding ident ids = forest.firstBinding ident ids := by
  induction ids with
  | nil => rfl
  | cons id rest later =>
      obtain ⟨here, others⟩ := List.forall_mem_cons.mp agree
      rw [firstBinding, firstBinding, later others]
      cases now : grown.scope? id with
      | none =>
          cases before : forest.scope? id with
          | none => rfl
          | some scope => simp [now, before] at here
      | some changed =>
          cases before : forest.scope? id with
          | none => simp [now, before] at here
          | some scope =>
              simp only [now, before, Option.map_some, Option.some.injEq] at here
              simp only [here]

/-- A declaration is not seen under another name, nor from a scope that is not below it. -/
theorem lookup_declared_apart (apart : field.ident ≠ ident ∨ target ∉ forest.lineage id) :
    (forest.updateFields target fun fields => fields ++ [field]).lookup id ident =
      forest.lookup id ident := by
  rw [lookup, lineage_update_fields, lookup]
  apply first_binding_congr
  intro above member
  rw [scope_update_fields, Option.map_map]
  cases forest.scope? above with
  | none => rfl
  | some scope =>
      simp only [Option.map_some, Function.comp_apply]
      split
      next here =>
        rcases apart with other | unrelated
        · simp [Scope.find?, List.find?_append, other]
        · rw [here] at member
          exact absurd member unrelated
      next => rfl

/-- Nothing is seen under a name where no scope of the lineage declares it. -/
theorem Ordered.lookup_eq_none_iff (ordered : forest.Ordered) (issued : forest.Issued id) :
    forest.lookup id ident = .ok none ↔
      ∀ above ∈ forest.lineage id, forest.field? above ident = none := by
  constructor
  · intro unseen above member
    obtain ⟨scope, found⟩ := issued_iff_scope.mp (ordered.issued_of_mem_lineage issued member)
    rw [field_of_scope found, Scope.find?, List.find?_eq_none]
    intro field declared
    rw [beq_iff_eq]
    exact ordered.ident_ne_of_unseen unseen member found declared
  · intro free
    obtain ⟨binding, seen⟩ := ordered.lookup_ok issued ident
    cases binding with
    | none => exact seen
    | some binding =>
        obtain ⟨owner, field⟩ := binding
        obtain ⟨nearer, farther, split, _, declared⟩ := first_binding_split seen
        have member : owner ∈ forest.lineage id := by
          rw [split]
          exact List.mem_append_right _ List.mem_cons_self
        rw [free owner member] at declared
        cases declared

def verdict (forest : ScopeForest) (id : ScopeId) (field : Field) : Except SchemaError Unit :=
  (forest.append id field).map fun _ => ()

/-- The forest to go on with after a declaration, be it refused. -/
def declared (forest : ScopeForest) (id : ScopeId) (field : Field) : ScopeForest :=
  forest.settle (forest.append id field)

theorem append_free (free : forest.lookup id field.ident = .ok none) :
    forest.append id field = .ok (forest.updateFields id fun fields => fields ++ [field]) := by
  rw [append, free]

theorem declared_free (free : forest.lookup id field.ident = .ok none) :
    forest.declared id field = forest.updateFields id fun fields => fields ++ [field] := by
  rw [declared, append_free free, settle]

theorem declared_seen (seen : forest.lookup id field.ident ≠ .ok none) :
    forest.declared id field = forest := by
  rw [declared]
  cases appended : forest.append id field with
  | error error => rfl
  | ok grown => exact absurd (append_eq_ok appended).1 seen

/-- The verdict on a declaration is that of the look-up before it. -/
theorem verdict_congr (same : grown.lookup id field.ident = forest.lookup id field.ident) :
    grown.verdict id field = forest.verdict id field := by
  rw [verdict, verdict, append, append, same]
  cases forest.lookup id field.ident with
  | error error => rfl
  | ok binding => cases binding <;> rfl

theorem verdict_free (free : forest.lookup id field.ident = .ok none) :
    forest.verdict id field = .ok () := by
  rw [verdict, append_free free]
  rfl

theorem verdict_bound {binding : ScopeId × Field}
    (bound : forest.lookup id field.ident = .ok (some binding)) :
    forest.verdict id field = .error (.fieldRedefined field.ident) := by
  rw [verdict, append, bound]
  rfl

/-- Where a declaration is not seen, the same is seen as before it. -/
theorem lookup_after_apart (apart : field.ident ≠ ident ∨ target ∉ forest.lineage id) :
    (forest.declared target field).lookup id ident = forest.lookup id ident := by
  by_cases free : forest.lookup target field.ident = .ok none
  · rw [declared_free free, lookup_declared_apart apart]
  · rw [declared_seen free]

/-- A declaration takes the place of no binding. -/
theorem Ordered.lookup_after_bound (ordered : forest.Ordered) {binding : ScopeId × Field}
    (bound : forest.lookup id ident = .ok (some binding)) :
    (forest.declared target field).lookup id ident = .ok (some binding) := by
  by_cases free : forest.lookup target field.ident = .ok none
  · rw [declared_free free]
    exact ordered.lookup_declare_kept free bound
  · rw [declared_seen free, bound]

/-- Two declarations that may change places: each has the verdict that it has without the other,
and both together leave the same forest. -/
structure Commute (forest : ScopeForest) (left : ScopeId) (first : Field) (right : ScopeId)
    (second : Field) : Prop where
  leftVerdict : (forest.declared right second).verdict left first = forest.verdict left first
  rightVerdict : (forest.declared left first).verdict right second = forest.verdict right second
  forests : (forest.declared left first).declared right second =
    (forest.declared right second).declared left first

theorem Commute.symm (commute : forest.Commute left first right second) :
    forest.Commute right second left first :=
  ⟨commute.rightVerdict, commute.leftVerdict, commute.forests.symm⟩

/-- What is written to different scopes may be written in either order. -/
theorem update_fields_comm (different : left ≠ right) (update change : List Field → List Field) :
    (forest.updateFields left update).updateFields right change =
      (forest.updateFields right change).updateFields left update := by
  rw [updateFields, updateFields, updateFields, updateFields, ScopeForest.mk.injEq]
  apply List.ext_getElem?
  intro index
  have apart : left.index ≠ right.index := fun same => different (congrArg ScopeId.mk same)
  simp only [List.getElem?_modify]
  by_cases atLeft : left.index = index
  · have notRight : right.index ≠ index := fun same => apart (atLeft.trans same.symm)
    simp [atLeft, notRight]
  · simp [atLeft]

/-- Declarations that do not see each other may change places. -/
theorem commute_of_unseen (different : left ≠ right)
    (unseenLeft : second.ident ≠ first.ident ∨ right ∉ forest.lineage left)
    (unseenRight : first.ident ≠ second.ident ∨ left ∉ forest.lineage right) :
    forest.Commute left first right second := by
  have keptLeft := @lookup_after_apart forest left right first.ident second unseenLeft
  have keptRight := @lookup_after_apart forest right left second.ident first unseenRight
  refine ⟨verdict_congr keptLeft, verdict_congr keptRight, ?_⟩
  by_cases freeLeft : forest.lookup left first.ident = .ok none
  · by_cases freeRight : forest.lookup right second.ident = .ok none
    · rw [declared_free (keptRight.trans freeRight), declared_free (keptLeft.trans freeLeft),
        declared_free freeLeft, declared_free freeRight]
      exact update_fields_comm different _ _
    · rw [declared_seen (keptRight.trans_ne freeRight), declared_seen freeRight]
  · rw [declared_seen freeLeft, declared_seen (keptLeft.trans_ne freeLeft)]

/-- Where the name is bound as seen from one of the scopes, the declaration there is refused
before and after the other one, and leaves the forest as it is. -/
theorem Ordered.commute_of_bound (ordered : forest.Ordered) {binding : ScopeId × Field}
    (bound : forest.lookup right second.ident = .ok (some binding)) :
    forest.Commute left first right second := by
  have still := @Ordered.lookup_after_bound forest right left second.ident first ordered _ bound
  have seen : forest.lookup right second.ident ≠ .ok none := by
    rw [bound]
    simp
  have seenAfter : (forest.declared left first).lookup right second.ident ≠ .ok none := by
    rw [still]
    simp
  refine ⟨?_, verdict_congr (still.trans bound.symm), ?_⟩
  · rw [declared_seen seen]
  · rw [declared_seen seenAfter, declared_seen seen]

/-- A declaration above another one, of a name that the lower scope does not see yet. -/
structure Forestalls (forest : ScopeForest) (upper : ScopeId) (first : Field) (lower : ScopeId)
    (second : Field) : Prop where
  named : first.ident = second.ident
  above : upper ∈ forest.lineage lower
  free : ∀ scope ∈ forest.lineage lower, forest.field? scope first.ident = none

/-- The two runs that differ: from above the name is taken from the lower scope, from below it is
taken from nobody. -/
theorem Ordered.verdicts_of_forestalls (ordered : forest.Ordered) (different : left ≠ right)
    (issued : forest.Issued right) (forestalls : forest.Forestalls left first right second) :
    forest.verdict left first = .ok () ∧
      (forest.declared left first).verdict right second =
        .error (.fieldRedefined second.ident) ∧
      forest.verdict right second = .ok () ∧
      (forest.declared right second).verdict left first = .ok () := by
  obtain ⟨named, above, free⟩ := forestalls
  have freeLeft : forest.lookup left first.ident = .ok none := by
    apply (ordered.lookup_eq_none_iff (ordered.issued_of_mem_lineage issued above)).mpr
    intro scope member
    exact free scope (ordered.mem_lineage_trans member above)
  have freeRight : forest.lookup right second.ident = .ok none := by
    rw [← named]
    exact (ordered.lookup_eq_none_iff issued).mpr free
  have notBelow : right ∉ forest.lineage left := fun below =>
    different (ordered.mem_lineage_antisymm above below)
  have unseen := @lookup_after_apart forest left right first.ident second (.inr notBelow)
  -- The lower scope now finds the field that was declared above it.
  have taken : (forest.declared left first).field? left second.ident = some first := by
    rw [← named, declared_free freeLeft]
    exact field_declared (append_free freeLeft)
  have stillAbove : left ∈ (forest.declared left first).lineage right := by
    rwa [declared_free freeLeft, lineage_update_fields]
  have grownOrdered : (forest.declared left first).Ordered := by
    rw [declared_free freeLeft]
    exact ordered.update_fields _ _
  have grownIssued : (forest.declared left first).Issued right := by
    rwa [declared_free freeLeft, Issued, size_update_fields]
  obtain ⟨binding, seen⟩ := grownOrdered.lookup_ok grownIssued second.ident
  have bound : binding ≠ none := by
    rintro rfl
    have absent := (grownOrdered.lookup_eq_none_iff grownIssued).mp seen left stillAbove
    rw [taken] at absent
    cases absent
  obtain ⟨binding, rfl⟩ := Option.ne_none_iff_exists'.mp bound
  exact ⟨verdict_free freeLeft, verdict_bound seen, verdict_free freeRight,
    verdict_free (unseen.trans freeLeft)⟩

theorem Ordered.not_commute_of_forestalls (ordered : forest.Ordered) (different : left ≠ right)
    (issued : forest.Issued right) (forestalls : forest.Forestalls left first right second) :
    ¬forest.Commute left first right second := by
  intro commute
  obtain ⟨_, refused, accepted, _⟩ :=
    ordered.verdicts_of_forestalls different issued forestalls
  have same := commute.rightVerdict
  rw [refused, accepted] at same
  cases same

/-- A declaration below another one is no obstacle but where that one takes its name. -/
theorem Ordered.commute_of_above (ordered : forest.Ordered) (different : left ≠ right)
    (issued : forest.Issued right) (above : left ∈ forest.lineage right)
    (notTaken : ¬forest.Forestalls left first right second) :
    forest.Commute left first right second := by
  by_cases named : first.ident = second.ident
  · obtain ⟨binding, seen⟩ := ordered.lookup_ok issued second.ident
    cases binding with
    | some binding => exact ordered.commute_of_bound seen
    | none =>
        have free := (ordered.lookup_eq_none_iff issued).mp seen
        rw [← named] at free
        exact absurd ⟨named, above, free⟩ notTaken
  · exact commute_of_unseen different (.inl (Ne.symm named)) (.inl named)

/-- Two declarations in different scopes may change places, whatever becomes of them, exactly
where neither takes the name of the other one. They do where the names differ or neither scope is
in the lineage of the other; and where one takes the name of the other, all four verdicts are
known. -/
theorem declarations_commute_iff (reached : ReflTransGen Grows .empty forest)
    (different : left ≠ right) (leftIssued : forest.Issued left)
    (rightIssued : forest.Issued right) (first second : Field) :
    (first.ident ≠ second.ident ∨
        (left ∉ forest.lineage right ∧ right ∉ forest.lineage left) →
      forest.Commute left first right second) ∧
    (first.ident = second.ident → left ∈ forest.lineage right →
        (∀ scope ∈ forest.lineage right, forest.field? scope first.ident = none) →
      forest.verdict left first = .ok () ∧
        (forest.declared left first).verdict right second =
          .error (.fieldRedefined second.ident) ∧
        forest.verdict right second = .ok () ∧
        (forest.declared right second).verdict left first = .ok ()) ∧
    (forest.Commute left first right second ↔
      ¬forest.Forestalls left first right second ∧
        ¬forest.Forestalls right second left first) := by
  have ordered := (sound_of_grown reached sound_empty).ordered
  have swapped := Ne.symm different
  refine ⟨?apart, ?forestalled, ?exactly⟩
  case apart =>
    rintro (other | ⟨notBelow, notAbove⟩)
    · exact commute_of_unseen different (.inl (Ne.symm other)) (.inl other)
    · exact commute_of_unseen different (.inr notAbove) (.inr notBelow)
  case forestalled =>
    intro named above free
    exact ordered.verdicts_of_forestalls different rightIssued ⟨named, above, free⟩
  case exactly =>
    constructor
    · intro commute
      exact ⟨fun taken => ordered.not_commute_of_forestalls different rightIssued taken commute,
        fun taken => ordered.not_commute_of_forestalls swapped leftIssued taken commute.symm⟩
    · rintro ⟨notTakenBelow, notTakenAbove⟩
      by_cases above : left ∈ forest.lineage right
      · exact ordered.commute_of_above different rightIssued above notTakenBelow
      · by_cases below : right ∈ forest.lineage left
        · exact (ordered.commute_of_above swapped leftIssued below notTakenAbove).symm
        · exact commute_of_unseen different (.inr below) (.inr above)

def nested : ScopeForest := ⟨[⟨none, []⟩, ⟨some ⟨0⟩, []⟩]⟩

theorem nested_reached : ReflTransGen Grows .empty nested :=
  (ReflTransGen.single (.root .empty)).tail (@Grows.child _ ⟨0⟩ (by decide))

/-- One name is declared in both scopes: the order decides, and only where the names are the
same. -/
theorem nested_declarations_commute :
    nested.verdict ⟨0⟩ (.union (.empty "body")) = .ok () ∧
      (nested.declared ⟨0⟩ (.union (.empty "body"))).verdict ⟨1⟩ (.union (.empty "body")) =
        .error (.fieldRedefined "body") ∧
      nested.verdict ⟨1⟩ (.union (.empty "body")) = .ok () ∧
      (nested.declared ⟨1⟩ (.union (.empty "body"))).verdict ⟨0⟩ (.union (.empty "body")) =
        .ok () ∧
      nested.Commute ⟨0⟩ (.union (.empty "body")) ⟨1⟩ (.union (.empty "rest")) := by
  have same := @declarations_commute_iff nested ⟨0⟩ ⟨1⟩ nested_reached (by decide) (by decide)
    (by decide) (.union (.empty "body")) (.union (.empty "body"))
  have other := @declarations_commute_iff nested ⟨0⟩ ⟨1⟩ nested_reached (by decide) (by decide)
    (by decide) (.union (.empty "body")) (.union (.empty "rest"))
  obtain ⟨above, below, free, both⟩ := same.2.1 rfl (by decide) (by decide)
  exact ⟨above, below, free, both, other.1 (.inl (by decide))⟩

end PacketSchema.ScopeForest
