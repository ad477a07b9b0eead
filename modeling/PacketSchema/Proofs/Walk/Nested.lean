import PacketSchema.Proofs.Numbers.Stored
import PacketSchema.Proofs.Scope.Ancestry
import PacketSchema.Proofs.Walk.Cut

/-!
# Nested walks

The walk of a body does all of its declarations at one scope, and whatever it does below that
scope it does block by block: a block is entered, walked to its end and left before anything else
happens at the scope. `Nests` says this of a schema before and after a walk and leaves out the
text, the diagnostics and where a fast walk stops. What depends on the order in which blocks are
opened and closed is proved by induction on it, once for every kind of statement.
-/

namespace PacketSchema

namespace ScopeForest

/-- The fields of a scope, in order; there are none where no scope was created. -/
def fieldsOf (forest : ScopeForest) (id : ScopeId) : List Field :=
  ((forest.scope? id).map Scope.fields).getD []

def identsOf (forest : ScopeForest) (id : ScopeId) : List String :=
  (forest.fieldsOf id).map Field.ident

def EndsIn (forest : ScopeForest) (id : ScopeId) (ident : String) : Prop :=
  ∃ earlier choice, forest.fieldsOf id = earlier ++ [.union choice] ∧ choice.ident = ident

variable {forest grown : ScopeForest} {id target : ScopeId} {scope : Scope} {field : Field}
  {ident : String} {arm : Arm}

theorem fields_of_scope (found : forest.scope? id = some scope) :
    forest.fieldsOf id = scope.fields := by
  rw [fieldsOf, found, Option.map_some, Option.getD_some]

theorem scope_of_field (member : field ∈ forest.fieldsOf id) :
    ∃ scope, forest.scope? id = some scope ∧ field ∈ scope.fields := by
  rw [fieldsOf] at member
  cases found : forest.scope? id with
  | none => simp [found] at member
  | some scope => exact ⟨scope, rfl, by simpa [found] using member⟩

theorem fields_of_not_issued (absent : ¬forest.Issued id) : forest.fieldsOf id = [] := by
  rw [fieldsOf, scope_none_of_not_issued absent]
  rfl

theorem fields_of_same (same : grown.scope? id = forest.scope? id) :
    grown.fieldsOf id = forest.fieldsOf id := by
  rw [fieldsOf, same, fieldsOf]

/-- A scope that is created adds no field anywhere. -/
theorem fields_created (forest : ScopeForest) (parent : Option ScopeId) (id : ScopeId) :
    (forest.create parent).2.fieldsOf id = forest.fieldsOf id := by
  by_cases old : forest.Issued id
  · exact fields_of_same (scope_create_old old parent)
  · rw [fields_of_not_issued old]
    by_cases new : (forest.create parent).2.Issued id
    · rw [eq_new_of_issued_create old new, fields_of_scope (scope_create_new forest parent)]
    · exact fields_of_not_issued new

theorem fields_appended (accepted : forest.append target field = .ok grown) :
    grown.fieldsOf target = forest.fieldsOf target ++ [field] := by
  obtain ⟨fresh, rfl⟩ := append_eq_ok accepted
  obtain ⟨scope, found⟩ := issued_iff_scope.mp (issued_of_lookup fresh)
  rw [fieldsOf, scope_update_fields, found, fields_of_scope found]
  simp

theorem fields_appended_other (accepted : forest.append target field = .ok grown)
    (other : id ≠ target) : grown.fieldsOf id = forest.fieldsOf id := by
  obtain ⟨_, rfl⟩ := append_eq_ok accepted
  exact fields_of_same (scope_update_fields_ne other _)

theorem idents_appended (accepted : forest.append target field = .ok grown) :
    grown.identsOf target = forest.identsOf target ++ [field.ident] := by
  rw [identsOf, fields_appended accepted, List.map_append, List.map_singleton, identsOf]

/-- The fields of the scope in which a union takes an arm. -/
theorem fields_arm_added (accepted : forest.appendArm target ident arm = .ok grown) :
    ∃ choice, choice.ident = ident ∧ .union choice ∈ forest.fieldsOf target ∧
      grown.fieldsOf target =
        (forest.fieldsOf target).map (exchange ⟨choice.ident, choice.arms ++ [arm]⟩) := by
  obtain ⟨choice, named, declared, _, rfl⟩ := append_arm_eq_ok accepted
  obtain ⟨scope, found, own⟩ := Option.bind_eq_some_iff.mp declared
  refine ⟨choice, named, ?_, ?_⟩
  · rw [fields_of_scope found]
    exact List.mem_of_find?_eq_some own
  · rw [fieldsOf, scope_update_fields, found, fields_of_scope found]
    simp

theorem fields_arm_added_other (accepted : forest.appendArm target ident arm = .ok grown)
    (other : id ≠ target) : grown.fieldsOf id = forest.fieldsOf id := by
  obtain ⟨_, _, _, _, rfl⟩ := append_arm_eq_ok accepted
  exact fields_of_same (scope_update_fields_ne other _)

/-- An arm renames nothing. -/
theorem idents_arm_added (accepted : forest.appendArm target ident arm = .ok grown)
    (id : ScopeId) : grown.identsOf id = forest.identsOf id := by
  by_cases here : id = target
  · obtain ⟨choice, _, _, exchanged⟩ := fields_arm_added accepted
    rw [identsOf, here, exchanged, List.map_map, identsOf]
    exact List.map_congr_left fun field _ => ident_exchange _ field
  · rw [identsOf, fields_arm_added_other accepted here, identsOf]

end ScopeForest

namespace Schema

open ScopeForest (Grounds)

variable {schema before middle entered walked after : Schema} {scope child : ScopeId}

/-- How a block is entered: its scope is created, and its field is declared at once or not. -/
inductive Enters (scope : ScopeId) (before : Schema) : Schema → Prop
  | plain : Enters scope before (before.createScope (some scope)).2
  | declaring {entered : Schema} {field : Field}
      (accepted : (before.createScope (some scope)).2.appendField scope field = .ok entered)
      (grounded : before.forest.Grounds scope field.references)
      (blocks : field.blocks = [⟨before.forest.size⟩]) : Enters scope before entered

/-- How a block is left: a union takes it for an arm, or not. The union is then the last field of
its scope, and the condition was resolved before the block was entered. -/
inductive Exits (scope : ScopeId) (before walked : Schema) : Schema → Prop
  | plain : Exits scope before walked walked
  | joining {after : Schema} {ident : String} {arm : Arm}
      (accepted : walked.appendArm scope ident arm = .ok after)
      (grounded : before.forest.Grounds scope (selectionReferences arm.condition))
      (block : arm.scope = ⟨before.forest.size⟩)
      (ends : walked.forest.EndsIn scope ident) : Exits scope before walked after

/-- What the walk of a body at a scope makes of a schema. -/
inductive Nests : ScopeId → Schema → Schema → Prop
  | done {scope : ScopeId} {schema : Schema} : Nests scope schema schema
  | declare {scope : ScopeId} {before middle after : Schema} {field : Field}
      (earlier : Nests scope before middle)
      (accepted : middle.appendField scope field = .ok after)
      (grounded : middle.forest.Grounds scope field.references)
      (blockless : field.blocks = []) : Nests scope before after
  | block {scope : ScopeId} {before middle entered walked after : Schema}
      (earlier : Nests scope before middle) (enters : Enters scope middle entered)
      (inner : Nests ⟨middle.forest.size⟩ entered walked)
      (leaves : Exits scope middle walked after) : Nests scope before after

theorem Nests.trans (first : Nests scope before middle) (second : Nests scope middle after) :
    Nests scope before after := by
  induction second with
  | done => exact first
  | declare _ accepted grounded blockless extended =>
      exact .declare (extended first) accepted grounded blockless
  | block _ enters inner leaves extended _ => exact .block (extended first) enters inner leaves

/-- What was proved of every schema that is reached, taken together. -/
structure Coherent (schema : Schema) : Prop where
  formed : schema.Formed
  grounded : schema.Grounded
  numbered : schema.Numbered
  distinct : schema.Distinct

theorem coherent_empty : Coherent .empty where
  formed := formed_empty
  grounded := grounded_empty
  numbered := numbered_empty
  distinct := distinct_empty

theorem Coherent.reached (coherent : before.Coherent) (reaches : Reaches before after) :
    after.Coherent where
  formed := Reaches.formed reaches coherent.formed
  grounded := Reaches.grounded reaches coherent.formed coherent.grounded
  numbered := Reaches.numbered reaches coherent.formed coherent.numbered
  distinct := Reaches.distinct reaches coherent.formed coherent.distinct

theorem Coherent.ordered (coherent : schema.Coherent) : schema.forest.Ordered :=
  coherent.formed.ordered

theorem Coherent.lineage_kept (coherent : before.Coherent) (reaches : Reaches before after)
    {id : ScopeId} (issued : before.forest.Issued id) :
    after.forest.lineage id = before.forest.lineage id :=
  coherent.ordered.lineage_kept (coherent.reached reaches).ordered
    (fun _ old => (Reaches.parent_kept reaches coherent.formed old).2) issued

/-- Steps that change the fields of no scope that was there but of one. -/
structure Spares (scope : ScopeId) (before after : Schema) : Prop where
  reaches : Reaches before after
  packets : after.packets = before.packets
  others : ∀ id, before.forest.Issued id → id ≠ scope →
    after.forest.scope? id = before.forest.scope? id

theorem Spares.refl (scope : ScopeId) (schema : Schema) : Spares scope schema schema where
  reaches := .refl
  packets := rfl
  others _ _ _ := rfl

theorem Spares.trans (coherent : before.Coherent) (first : Spares scope before middle)
    (second : Spares scope middle after) : Spares scope before after where
  reaches := first.reaches.trans second.reaches
  packets := second.packets.trans first.packets
  others id issued other := by
    have kept := (Reaches.parent_kept first.reaches coherent.formed issued).1
    exact (second.others id kept other).trans (first.others id issued other)

/-- What is done at a scope that is new spares all that was there before. -/
theorem Spares.inner (coherent : before.Coherent) (first : Spares scope before middle)
    (new : ¬before.forest.Issued child) (second : Spares child middle after) :
    Spares scope before after where
  reaches := first.reaches.trans second.reaches
  packets := second.packets.trans first.packets
  others id issued other := by
    have kept := (Reaches.parent_kept first.reaches coherent.formed issued).1
    have old : id ≠ child := by
      rintro rfl
      exact new issued
    exact (second.others id kept old).trans (first.others id issued other)

theorem Spares.fields (spares : Spares scope before after) {id : ScopeId}
    (issued : before.forest.Issued id) (other : id ≠ scope) :
    after.forest.fieldsOf id = before.forest.fieldsOf id :=
  ScopeForest.fields_of_same (spares.others id issued other)

theorem spares_created (issued : before.forest.Issued scope) :
    Spares scope before (before.createScope (some scope)).2 where
  reaches := .single (.openBlock issued)
  packets := rfl
  others _ old _ := ScopeForest.scope_create_old old (some scope)

theorem spares_declared {field : Field} (accepted : before.appendField scope field = .ok after)
    (grounded : before.forest.Grounds scope field.references)
    (inside : ∀ block ∈ field.blocks, before.forest.parent? block = some scope) :
    Spares scope before after where
  reaches := .single (.declare accepted grounded inside)
  packets := (append_field_eq_ok accepted).2
  others id _ other := by
    rw [(ScopeForest.append_eq_ok (append_field_eq_ok accepted).1).2]
    exact ScopeForest.scope_update_fields_ne other _

/-- What entering a block leaves behind: its scope, new, right below the scope it is entered from
and still without fields. -/
structure Entered (scope : ScopeId) (before entered : Schema) : Prop where
  spares : Spares scope before entered
  size : entered.forest.size = before.forest.size + 1
  below : entered.forest.parent? ⟨before.forest.size⟩ = some scope
  bare : entered.forest.fieldsOf ⟨before.forest.size⟩ = []

theorem new_not_issued (schema : Schema) : ¬schema.forest.Issued ⟨schema.forest.size⟩ :=
  Nat.lt_irrefl schema.forest.size

theorem Enters.opens (enters : Enters scope before entered) (coherent : before.Coherent)
    (issued : before.forest.Issued scope) : Entered scope before entered := by
  have created := spares_created issued
  have below : (before.createScope (some scope)).2.forest.parent? ⟨before.forest.size⟩ =
      some scope := ScopeForest.parent_of_scope (ScopeForest.scope_create_new _ _)
  have bare : (before.createScope (some scope)).2.forest.fieldsOf ⟨before.forest.size⟩ = [] :=
    (ScopeForest.fields_created _ _ _).trans
      (ScopeForest.fields_of_not_issued before.new_not_issued)
  cases enters with
  | plain => exact ⟨created, ScopeForest.size_create _ _, below, bare⟩
  | declaring accepted grounded blocks =>
      have openedCoherent := coherent.reached created.reaches
      have declared := spares_declared accepted
        (Reaches.grounds_kept created.reaches coherent.formed grounded)
        (by simpa [blocks] using below)
      obtain ⟨appended, _⟩ := append_field_eq_ok accepted
      have updated := (ScopeForest.append_eq_ok appended).2
      have different : (⟨before.forest.size⟩ : ScopeId) ≠ scope :=
        ScopeForest.ne_of_issued issued (Nat.le_refl _)
      refine ⟨created.trans coherent declared, ?_, ?_, ?_⟩
      · rw [updated, ScopeForest.size_update_fields]
        exact ScopeForest.size_create _ _
      · rw [updated, ScopeForest.parent_update_fields, below]
      · rw [ScopeForest.fields_appended_other appended different, bare]

theorem Entered.issued_child (entered : Entered scope before after) :
    after.forest.Issued ⟨before.forest.size⟩ :=
  ScopeForest.issued_of_parent entered.below

/-- Leaving a block changes fields of its outer scope only, and the number of no scope. -/
theorem Exits.spares (leaves : Exits scope before walked after) (coherent : before.Coherent)
    (reaches : Reaches before walked)
    (below : walked.forest.parent? ⟨before.forest.size⟩ = some scope) :
    Spares scope walked after ∧ after.forest.size = walked.forest.size := by
  cases leaves with
  | plain => exact ⟨.refl scope walked, rfl⟩
  | joining accepted grounded block =>
      have step : Step walked after := .addArm accepted
        (Reaches.grounds_kept reaches coherent.formed grounded) (by rw [block, below])
      obtain ⟨appended, packets⟩ := append_arm_eq_ok accepted
      obtain ⟨_, _, _, _, updated⟩ := ScopeForest.append_arm_eq_ok appended
      refine ⟨⟨.single step, packets, ?_⟩, ?_⟩
      · intro id _ other
        rw [updated]
        exact ScopeForest.scope_update_fields_ne other _
      · rw [updated, ScopeForest.size_update_fields]

/-- A nested walk changes, of all that was there, the fields of its scope alone. -/
theorem Nests.spares (nests : Nests scope before after) (coherent : before.Coherent)
    (issued : before.forest.Issued scope) : Spares scope before after := by
  induction nests with
  | done => exact .refl _ _
  | declare _ accepted grounded blockless earlier =>
      have first := earlier coherent issued
      exact first.trans coherent (spares_declared accepted grounded (by simp [blockless]))
  | @block scope before middle entered walked after _ enters _ leaves earlier inner =>
      have first := earlier coherent issued
      have middleCoherent := coherent.reached first.reaches
      have middleIssued := (Reaches.parent_kept first.reaches coherent.formed issued).1
      have opened := enters.opens middleCoherent middleIssued
      have enteredCoherent := middleCoherent.reached opened.spares.reaches
      have walk := inner enteredCoherent opened.issued_child
      have below := (Reaches.parent_kept walk.reaches enteredCoherent.formed
        opened.issued_child).2.trans opened.below
      have reaches := opened.spares.reaches.trans walk.reaches
      have last := (leaves.spares middleCoherent reaches below).1
      have whole := opened.spares.inner middleCoherent middle.new_not_issued walk
      exact (first.trans coherent whole).trans coherent last

/-- Every scope that a nested walk creates is below its scope. -/
theorem Nests.created_below (nests : Nests scope before after) (coherent : before.Coherent)
    (issued : before.forest.Issued scope) {id : ScopeId} (new : ¬before.forest.Issued id)
    (created : after.forest.Issued id) : scope ∈ after.forest.lineage id := by
  induction nests with
  | done => exact absurd created new
  | @declare scope before middle after field walk accepted grounded blockless earlier =>
      have middleCoherent := coherent.reached (walk.spares coherent issued).reaches
      have reaches := (spares_declared accepted grounded (by simp [blockless])).reaches
      have updated := (ScopeForest.append_eq_ok (append_field_eq_ok accepted).1).2
      have old : middle.forest.Issued id := by
        rwa [ScopeForest.Issued, updated, ScopeForest.size_update_fields] at created
      rw [middleCoherent.lineage_kept reaches old]
      exact earlier coherent issued new old
  | @block scope before middle entered walked after walk enters inside leaves earlier inner =>
      have first := walk.spares coherent issued
      have middleCoherent := coherent.reached first.reaches
      have middleIssued := (Reaches.parent_kept first.reaches coherent.formed issued).1
      have opened := enters.opens middleCoherent middleIssued
      have enteredCoherent := middleCoherent.reached opened.spares.reaches
      have walk := inside.spares enteredCoherent opened.issued_child
      have walkedCoherent := enteredCoherent.reached walk.reaches
      obtain ⟨childIssued, sameParent⟩ :=
        Reaches.parent_kept walk.reaches enteredCoherent.formed opened.issued_child
      have below := sameParent.trans opened.below
      have reaches := opened.spares.reaches.trans walk.reaches
      obtain ⟨last, sameSize⟩ := leaves.spares middleCoherent reaches below
      have walkedIssued : walked.forest.Issued id := by
        rwa [ScopeForest.Issued, sameSize] at created
      rw [walkedCoherent.lineage_kept last.reaches walkedIssued]
      by_cases old : middle.forest.Issued id
      · rw [middleCoherent.lineage_kept reaches old]
        exact earlier coherent issued new old
      · have underChild : ⟨middle.forest.size⟩ ∈ walked.forest.lineage id := by
          by_cases child : entered.forest.Issued id
          · have same : id = ⟨middle.forest.size⟩ := by
              rw [ScopeForest.Issued, opened.size] at child
              rw [ScopeForest.Issued] at old
              cases id
              simp only [ScopeId.mk.injEq] at child old ⊢
              omega
            rw [same]
            exact walked.forest.mem_lineage_self _
          · exact inner enteredCoherent opened.issued_child child walkedIssued
        exact walkedCoherent.ordered.mem_lineage_trans
          (walkedCoherent.ordered.parent_mem_lineage below) underChild

end Schema

end PacketSchema
