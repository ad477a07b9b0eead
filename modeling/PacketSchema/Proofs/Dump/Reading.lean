import PacketSchema.Proofs.Formula
import PacketSchema.Proofs.Scope.Lineage

/-!
# Readings

A reading of a forest keeps everything but the owners of references. Forests that read alike
resolve alike, since look-up asks for parents, identifiers and kinds only. So where every reference
is grounded, the owners are determined: forests that read alike are the same.
-/

namespace PacketSchema

structure ArmReading where
  condition : Option Formula
  tag : Tag
  scope : ScopeId
deriving DecidableEq, Repr

inductive Reading where
  | always (ident : String) (layout : Layout)
  | optional (ident : String) (condition : Formula) (scope : ScopeId)
  | union (ident : String) (arms : List ArmReading)
deriving DecidableEq, Repr

def Reading.ident : Reading → String
  | .always ident _ => ident
  | .optional ident _ _ => ident
  | .union ident _ => ident

def Arm.reading (arm : Arm) : ArmReading :=
  ⟨arm.condition.map Condition.formula, arm.tag, arm.scope⟩

def Field.reading : Field → Reading
  | .always ident encoding => .always ident encoding.layout
  | .optional ident condition scope => .optional ident condition.formula scope
  | .union choice => .union choice.ident (choice.arms.map Arm.reading)

theorem Field.reading_ident (field : Field) : field.reading.ident = field.ident := by
  cases field <;> rfl

structure ScopeReading where
  parent : Option ScopeId
  fields : List Reading
deriving DecidableEq, Repr

def Scope.reading (scope : Scope) : ScopeReading := ⟨scope.parent, scope.fields.map Field.reading⟩

/-- Where scopes read alike, look-ups in them do. -/
theorem Scope.find_reading {scope other : Scope} (alike : scope.reading = other.reading)
    (ident : String) :
    (scope.find? ident).map Field.reading = (other.find? ident).map Field.reading := by
  have read : ∀ present : Scope, (present.find? ident).map Field.reading =
      present.reading.fields.find? fun reading => reading.ident == ident := by
    intro present
    rw [Scope.reading, List.find?_map, find?]
    simp only [Function.comp_def, Field.reading_ident]
  rw [read, read, alike]

namespace ScopeForest

variable {forest other : ScopeForest} {id : ScopeId} {ident : String} {field : Field}

structure Alike (forest other : ScopeForest) : Prop where
  size : forest.size = other.size
  scopes : ∀ id, (forest.scope? id).map Scope.reading = (other.scope? id).map Scope.reading

theorem Alike.symm (alike : forest.Alike other) : other.Alike forest where
  size := alike.size.symm
  scopes id := (alike.scopes id).symm

theorem Alike.scope_found (alike : forest.Alike other) {scope : Scope}
    (found : forest.scope? id = some scope) :
    ∃ present, other.scope? id = some present ∧ present.reading = scope.reading := by
  have same := alike.scopes id
  rw [found, Option.map_some] at same
  exact Option.map_eq_some_iff.mp same.symm

theorem Alike.parent_eq (alike : forest.Alike other) (id : ScopeId) :
    forest.parent? id = other.parent? id := by
  have read : ∀ present : ScopeForest,
      present.parent? id = ((present.scope? id).map Scope.reading).bind ScopeReading.parent := by
    intro present
    rw [parent?, Option.bind_map]
    rfl
  rw [read, read, alike.scopes]

theorem Alike.lineage_eq (alike : forest.Alike other) (id : ScopeId) :
    forest.lineage id = other.lineage id :=
  lineage_congr alike.size alike.parent_eq id

theorem Alike.first_binding (alike : forest.Alike other) (ids : List ScopeId) {owner : ScopeId}
    (found : forest.firstBinding ident ids = .ok (some (owner, field))) :
    ∃ present, other.firstBinding ident ids = .ok (some (owner, present)) ∧
      present.reading = field.reading := by
  induction ids with
  | nil => cases found
  | cons id rest later =>
      rw [firstBinding] at found
      cases here : forest.scope? id with
      | none =>
          rw [here] at found
          cases found
      | some scope =>
          rcases alike.scope_found here with ⟨present, there, same⟩
          rw [here] at found
          rw [firstBinding, there]
          have finds := Scope.find_reading same ident
          cases own : scope.find? ident with
          | none =>
              simp only [own] at found
              rw [own, Option.map_none, Option.map_eq_none_iff] at finds
              simp only [finds]
              exact later found
          | some declared =>
              simp only [own, Except.ok.injEq, Option.some.injEq, Prod.mk.injEq] at found
              rcases found with ⟨rfl, rfl⟩
              rw [own, Option.map_some] at finds
              rcases Option.map_eq_some_iff.mp finds with ⟨binding, inside, reads⟩
              simp only [inside]
              exact ⟨binding, rfl, reads⟩

/-- Where forests read alike, a name means the same field in both. -/
theorem Alike.resolve_eq_ok (alike : forest.Alike other) {reference : FieldRef}
    (resolved : forest.resolve id ident = .ok reference) :
    other.resolve id ident = .ok reference := by
  rcases resolve_eq_ok_iff.mp resolved with ⟨named, encoding, found⟩
  rw [lookup, alike.lineage_eq id] at found
  rcases alike.first_binding _ found with ⟨present, there, reads⟩
  cases present with
  | optional | union => cases reads
  | always name layout =>
      simp only [Field.reading, Reading.always.injEq] at reads
      rw [reads.1] at there
      exact resolve_eq_ok_iff.mpr ⟨named, layout, there⟩

theorem Alike.grounds (alike : forest.Alike other) {references : List FieldRef}
    (grounded : forest.Grounds id references) : other.Grounds id references :=
  fun reference member => alike.resolve_eq_ok (grounded reference member)

theorem arms_eq_of_reading {arms presents : List Arm}
    (grounded : forest.Grounds id (arms.flatMap fun arm => selectionReferences arm.condition))
    (presentsGrounded :
      forest.Grounds id (presents.flatMap fun arm => selectionReferences arm.condition))
    (same : arms.map Arm.reading = presents.map Arm.reading) : arms = presents := by
  induction arms generalizing presents with
  | nil => exact (List.map_eq_nil_iff.mp same.symm).symm
  | cons arm rest later =>
      cases presents with
      | nil => cases same
      | cons present others =>
          rw [List.flatMap_cons, grounds_append] at grounded presentsGrounded
          rw [List.map_cons, List.map_cons, List.cons.injEq] at same
          have condition : arm.condition = present.condition :=
            selection_eq_of_formula grounded.1 presentsGrounded.1
              (congrArg ArmReading.condition same.1)
          have tag : arm.tag = present.tag := congrArg ArmReading.tag same.1
          have scope : arm.scope = present.scope := congrArg ArmReading.scope same.1
          rw [later grounded.2 presentsGrounded.2 same.2]
          cases arm
          cases present
          simp only at condition tag scope
          rw [condition, tag, scope]

theorem field_eq_of_reading {present : Field} (grounded : forest.Grounds id field.references)
    (presentGrounded : forest.Grounds id present.references)
    (same : field.reading = present.reading) : field = present := by
  cases field with
  | always ident encoding =>
      cases present with
      | optional | union => cases same
      | always name layout =>
          simp only [Field.reading, Reading.always.injEq] at same
          rw [same.1, encoding_eq_of_layout grounded presentGrounded same.2]
  | optional ident condition scope =>
      cases present with
      | always | union => cases same
      | optional name guard block =>
          simp only [Field.reading, Reading.optional.injEq] at same
          rw [same.1, condition_eq_of_formula grounded presentGrounded same.2.1, same.2.2]
  | union choice =>
      cases present with
      | always | optional => cases same
      | union other =>
          simp only [Field.reading, Reading.union.injEq] at same
          have arms := arms_eq_of_reading grounded presentGrounded same.2
          cases choice
          cases other
          simp only at same arms
          rw [same.1, arms]

theorem fields_eq_of_reading {fields presents : List Field}
    (grounded : ∀ field ∈ fields, forest.Grounds id field.references)
    (presentsGrounded : ∀ field ∈ presents, forest.Grounds id field.references)
    (same : fields.map Field.reading = presents.map Field.reading) : fields = presents := by
  induction fields generalizing presents with
  | nil => exact (List.map_eq_nil_iff.mp same.symm).symm
  | cons field rest later =>
      cases presents with
      | nil => cases same
      | cons present others =>
          rw [List.forall_mem_cons] at grounded presentsGrounded
          rw [List.map_cons, List.map_cons, List.cons.injEq] at same
          rw [field_eq_of_reading grounded.1 presentsGrounded.1 same.1,
            later grounded.2 presentsGrounded.2 same.2]

/-- Grounded forests that read alike are the same. -/
theorem Alike.eq (alike : forest.Alike other)
    (grounded : ∀ id scope, forest.scope? id = some scope →
      ∀ field ∈ scope.fields, forest.Grounds id field.references)
    (otherGrounded : ∀ id scope, other.scope? id = some scope →
      ∀ field ∈ scope.fields, other.Grounds id field.references) : forest = other := by
  have scopes : ∀ id, forest.scope? id = other.scope? id := by
    intro id
    cases here : forest.scope? id with
    | none =>
        have same := alike.scopes id
        rw [here, Option.map_none] at same
        exact (Option.map_eq_none_iff.mp same.symm).symm
    | some scope =>
        rcases alike.scope_found here with ⟨present, there, reads⟩
        have parents : present.parent = scope.parent := congrArg ScopeReading.parent reads
        have fields : present.fields = scope.fields := by
          apply fields_eq_of_reading _ (grounded id scope here)
            (congrArg ScopeReading.fields reads)
          intro field member
          exact alike.symm.grounds (otherGrounded id present there field member)
        rw [there]
        cases scope
        cases present
        simp only at parents fields
        rw [parents, fields]
  cases forest
  cases other
  rw [mk.injEq]
  apply List.ext_getElem?
  intro index
  exact scopes ⟨index⟩

end ScopeForest

end PacketSchema
