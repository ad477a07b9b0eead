import PacketSchema.Proofs.Layout.Places
import PacketSchema.Proofs.Walk.Visits

/-!
# References look backwards

A reference is resolved before the field that holds it is declared, and from a scope that is still
open: of every scope above it, only the fields up to the block that is being walked are there. So
the field that a reference names stands before the field that holds it, or, where it is declared
further up, before the field whose block the way up passes through. While a scope is open, the
blocks that it lies in belong to the last fields of their scopes; once it is left they need not be
the last any more, but the fields before them are the same.
-/

namespace PacketSchema

open Schema (Coherent Enters Entered Exits Nests Reaches Spares)

namespace ScopeForest

/-- A place holds what stands at another one: the place itself does, and in each scope further
up that of the field in whose block it lies. -/
inductive Holds (forest : ScopeForest) (id : ScopeId) (index : Nat) : ScopeId → Nat → Prop
  | own : Holds forest id index id index
  | block {outer below : ScopeId} {place : Nat} {holder : Field}
      (descends : forest.Descends outer below id)
      (declared : (forest.fieldsOf outer)[place]? = some holder)
      (names : below ∈ holder.blocks) : Holds forest id index outer place

/-- The always field that a reference names stands before a place of its scope. -/
def StandsBefore (forest : ScopeForest) (reference : FieldRef) (place : Nat) : Prop :=
  ∃ index encoding, index < place ∧
    (forest.fieldsOf reference.scope)[index]? = some (Field.always reference.ident encoding)

def Backward (forest : ScopeForest) : Prop :=
  ∀ id index field, (forest.fieldsOf id)[index]? = some field →
    ∀ reference ∈ field.references, ∀ place, forest.Holds id index reference.scope place →
      forest.StandsBefore reference place

/-- The blocks that a scope lies in belong to the last fields of their scopes. -/
def Open (forest : ScopeForest) (inner : ScopeId) : Prop :=
  ∀ outer below place holder, forest.Descends outer below inner →
    (forest.fieldsOf outer)[place]? = some holder → below ∈ holder.blocks →
      place + 1 = (forest.fieldsOf outer).length

variable {forest grown : ScopeForest} {id target outer below inner : ScopeId} {field : Field}
  {ident : String} {arm : Arm} {reference : FieldRef} {references : List FieldRef}
  {index place : Nat}

/-- The field that a grounded reference names is in its place in the scope of the reference. -/
theorem Grounds.declared (grounded : forest.Grounds id references)
    (member : reference ∈ references) :
    ∃ (index : Nat) (encoding : Encoding),
      (forest.fieldsOf reference.scope)[index]? = some (Field.always reference.ident encoding) := by
  obtain ⟨_, _, encoding, _, _, declared⟩ := nearest_of_resolve (grounded reference member)
  obtain ⟨scope, found, own⟩ := Option.bind_eq_some_iff.mp declared
  obtain ⟨index, here⟩ := List.mem_iff_getElem?.mp (List.mem_of_find?_eq_some own)
  exact ⟨index, encoding, by rwa [fields_of_scope found]⟩

/-- Where the last field is no always field, what a grounded reference names stands before it. -/
theorem Grounds.stands_before_last (grounded : forest.Grounds id references)
    (member : reference ∈ references) (other : field.kind ≠ .always)
    (declared : (forest.fieldsOf reference.scope)[place]? = some field)
    (last : place + 1 = (forest.fieldsOf reference.scope).length) :
    forest.StandsBefore reference place := by
  obtain ⟨index, encoding, found⟩ := grounded.declared member
  obtain ⟨bound, _⟩ := List.getElem?_eq_some_iff.mp found
  have different : index ≠ place := by
    rintro rfl
    rw [found, Option.some.injEq] at declared
    rw [← declared] at other
    exact other rfl
  exact ⟨index, encoding, by omega, found⟩

theorem kind_of_block (names : below ∈ field.blocks) : field.kind ≠ .always := by
  cases field with
  | always => cases names
  | optional => nofun
  | union => nofun

/-- What a reference that is resolved in an open scope names stands before every place that holds
a place after all always fields of that scope. -/
theorem Open.stands_before (opened : forest.Open id) (grounded : forest.Grounds id references)
    (member : reference ∈ references)
    (later : ∀ earlier encoding,
      (forest.fieldsOf id)[earlier]? = some (Field.always reference.ident encoding) →
        earlier < index)
    (holds : forest.Holds id index reference.scope place) :
    forest.StandsBefore reference place := by
  generalize ownerIs : reference.scope = owner at holds
  cases holds with
  | own =>
      obtain ⟨earlier, encoding, found⟩ := grounded.declared member
      exact ⟨earlier, encoding, later earlier encoding (ownerIs ▸ found), found⟩
  | block descends declared names =>
      have last := opened _ _ _ _ descends declared names
      subst ownerIs
      exact grounded.stands_before_last member (kind_of_block names) declared last

end ScopeForest

namespace Schema

open ScopeForest (Backward Descends Holds Open StandsBefore)

variable {before middle entered walked after : Schema} {scope inner outer below : ScopeId}
  {field : Field} {ident : String} {arm : Arm} {reference : FieldRef} {place : Nat}

/-- An always field stays where it is. -/
theorem stands_before_kept (coherent : before.Coherent) (reaches : Reaches before after)
    (stands : before.forest.StandsBefore reference place) :
    after.forest.StandsBefore reference place := by
  obtain ⟨index, encoding, order, found⟩ := stands
  obtain ⟨scope, present, _⟩ := ScopeForest.scope_of_field (List.mem_of_getElem? found)
  rw [ScopeForest.fields_of_scope present] at found
  have cut := Reaches.cut reaches coherent.formed coherent.distinct
  obtain ⟨grown, here, same⟩ := cut.scopes _ scope present
  obtain ⟨last, there, field⟩ := same.fields index _ found
  cases field with
  | same => exact ⟨index, encoding, order, by rwa [ScopeForest.fields_of_scope here]⟩

theorem backward_created (coherent : before.Coherent) (reaches : Reaches before after)
    (same : ∀ id, after.forest.fieldsOf id = before.forest.fieldsOf id)
    (backward : before.forest.Backward) : after.forest.Backward := by
  intro id index present found reference member place holds
  rw [same] at found
  have issued := ScopeForest.issued_of_field found
  apply stands_before_kept coherent reaches
  apply backward id index present found reference member
  cases holds with
  | own => exact .own
  | block descends declared names =>
      rw [same] at declared
      exact .block (descends_reflected coherent reaches issued descends) declared names

/-- A field is declared at the end of an open scope, and nothing was declared in its blocks. -/
theorem backward_declared (coherent : before.Coherent) (reaches : Reaches before after)
    (backward : before.forest.Backward) (opened : before.forest.Open scope)
    (accepted : before.forest.append scope field = .ok after.forest)
    (grounded : before.forest.Grounds scope field.references)
    (bare : ∀ block ∈ field.blocks, ∀ id, block ∈ before.forest.lineage id →
      before.forest.fieldsOf id = []) : after.forest.Backward := by
  intro id index present found reference member place holds
  apply stands_before_kept coherent reaches
  rcases ScopeForest.field_appended_cases accepted found with old | ⟨rfl, rfl, rfl⟩
  · apply backward id index present old reference member
    cases holds with
    | own => exact .own
    | block descends declared names =>
        have above := descends_reflected coherent reaches (ScopeForest.issued_of_field old) descends
        rcases ScopeForest.field_appended_cases accepted declared with was | ⟨_, _, rfl⟩
        · exact .block above was names
        · rw [bare _ names id above.member] at old
          cases old
  · have issued := ScopeForest.issued_of_lookup (ScopeForest.append_eq_ok accepted).1
    apply opened.stands_before grounded member
    · intro earlier encoding here
      exact (List.getElem?_eq_some_iff.mp here).1
    · generalize reference.scope = owner at holds
      cases holds with
      | own => exact .own
      | block descends declared names =>
          have above := descends_reflected coherent reaches issued descends
          have different : owner ≠ id := by
            rintro rfl
            exact Nat.lt_irrefl _ (above.outer_lt coherent.ordered)
          rw [ScopeForest.fields_appended_other accepted different] at declared
          exact .block above declared names

/-- A block that a union takes is one more block of the last field of its scope. -/
theorem holds_before_arm (coherent : before.Coherent) (reaches : Reaches before after)
    (ends : before.forest.EndsIn scope ident)
    (accepted : before.forest.appendArm scope ident arm = .ok after.forest) {index : Nat}
    (issued : before.forest.Issued inner) (grounded : before.forest.Grounds inner [reference])
    (holds : after.forest.Holds inner index reference.scope place) :
    before.forest.Holds inner index reference.scope place ∨
      before.forest.StandsBefore reference place := by
  have distinct := coherent.idents_distinct scope
  generalize ownerIs : reference.scope = owner at holds
  cases holds with
  | own => exact .inl .own
  | block descends declared names =>
      have above := descends_reflected coherent reaches issued descends
      rcases ScopeForest.field_arm_added_cases accepted distinct declared with
        was | ⟨rfl, choice, named, was, rfl⟩
      · exact .inl (.block above was names)
      · have last := ends.last distinct was named
        subst ownerIs
        exact .inr (grounded.stands_before_last (List.mem_singleton_self _)
          (by simp [Field.kind]) was last)

/-- The last field of an open scope, a union, takes an arm. -/
theorem backward_arm_added (coherent : before.Coherent) (reaches : Reaches before after)
    (backward : before.forest.Backward) (opened : before.forest.Open scope)
    (ends : before.forest.EndsIn scope ident)
    (accepted : before.forest.appendArm scope ident arm = .ok after.forest)
    (grounded : before.forest.Grounds scope (selectionReferences arm.condition)) :
    after.forest.Backward := by
  have distinct := coherent.idents_distinct scope
  intro id index present found reference member place holds
  apply stands_before_kept coherent reaches
  have old : ∀ field : Field, (before.forest.fieldsOf id)[index]? = some field →
      reference ∈ field.references → before.forest.StandsBefore reference place := by
    intro field here held
    have resolved : before.forest.Grounds id [reference] :=
      ScopeForest.grounds_singleton.mpr (coherent.grounds_field here reference held)
    rcases holds_before_arm coherent reaches ends accepted (ScopeForest.issued_of_field here)
      resolved holds with inside | stands
    · exact backward id index field here reference held place inside
    · exact stands
  rcases ScopeForest.field_arm_added_cases accepted distinct found with
    was | ⟨rfl, choice, named, was, rfl⟩
  · exact old present was member
  · rw [union_extended_references] at member
    rcases List.mem_append.mp member with earlier | fresh
    · exact old _ was earlier
    · have resolved : before.forest.Grounds id [reference] :=
        ScopeForest.grounds_singleton.mpr (grounded reference fresh)
      rcases holds_before_arm coherent reaches ends accepted (ScopeForest.issued_of_field was)
        resolved holds with inside | stands
      · apply opened.stands_before grounded fresh _ inside
        intro earlier encoding here
        have last := ends.last distinct was named
        obtain ⟨bound, _⟩ := List.getElem?_eq_some_iff.mp here
        have different : earlier ≠ index := by
          rintro rfl
          rw [was] at here
          cases here
        omega
      · exact stands

theorem open_of_same (coherent : before.Coherent) (reaches : Reaches before after)
    (issued : before.forest.Issued inner)
    (same : ∀ outer below, before.forest.Descends outer below inner →
      after.forest.fieldsOf outer = before.forest.fieldsOf outer)
    (opened : before.forest.Open inner) : after.forest.Open inner := by
  intro outer below place holder descends declared names
  have above := descends_reflected coherent reaches issued descends
  rw [same outer below above] at declared ⊢
  exact opened outer below place holder above declared names

/-- A scope stays open while fields are declared in it, and in scopes that it is not below. -/
theorem open_kept (coherent : before.Coherent) (spares : Spares scope before after)
    (issued : before.forest.Issued inner)
    (apart : ∀ below, ¬before.forest.Descends scope below inner)
    (opened : before.forest.Open inner) : after.forest.Open inner := by
  apply open_of_same coherent spares.reaches issued _ opened
  intro outer below descends
  have higher := coherent.ordered.issued_parent descends.linked
  apply spares.fields higher
  rintro rfl
  exact apart below descends

theorem open_kept_own (coherent : before.Coherent) (spares : Spares scope before after)
    (issued : before.forest.Issued scope) (opened : before.forest.Open scope) :
    after.forest.Open scope :=
  open_kept coherent spares issued
    (fun _ descends => Nat.lt_irrefl _ (descends.outer_lt coherent.ordered)) opened

/-- The scope of a block that is entered is open: if it belongs to a field at all, that field was
just declared. -/
theorem Enters.opened (enters : Enters scope before entered) (coherent : before.Coherent)
    (issued : before.forest.Issued scope) (opened : before.forest.Open scope) :
    entered.forest.Open ⟨before.forest.size⟩ := by
  have inside := enters.opens coherent issued
  have enteredCoherent := coherent.reached inside.spares.reaches
  intro outer below place holder descends declared names
  by_cases here : below = ⟨before.forest.size⟩
  · subst here
    obtain rfl : scope = outer := Option.some.inj (inside.below.symm.trans descends.linked)
    have new := before.new_not_issued
    cases enters with
    | plain =>
        rw [show (before.createScope (some scope)).2.forest.fieldsOf scope =
          before.forest.fieldsOf scope from ScopeForest.fields_created _ _ _] at declared
        exact absurd (coherent.block_issued declared names) new
    | declaring accepted _ _ =>
        have appended := (append_field_eq_ok accepted).1
        have same := ScopeForest.fields_created before.forest (some scope) scope
        rcases ScopeForest.field_appended_cases appended declared with was | ⟨_, last, _⟩
        · rw [show (before.createScope (some scope)).2.forest.fieldsOf scope =
            before.forest.fieldsOf scope from same] at was
          exact absurd (coherent.block_issued was names) new
        · rw [last, ScopeForest.fields_appended appended, List.length_append,
            List.length_singleton]
  · have member := enteredCoherent.ordered.mem_lineage_of_ne inside.below descends.member here
    have above := descends_reflected coherent inside.spares.reaches issued ⟨descends.linked, member⟩
    have higher := coherent.ordered.issued_parent above.linked
    have different : outer ≠ scope := by
      rintro rfl
      exact Nat.lt_irrefl _ (above.outer_lt coherent.ordered)
    rw [inside.spares.fields higher different] at declared ⊢
    exact opened outer below place holder above declared names

theorem Enters.backward (enters : Enters scope before entered) (coherent : before.Coherent)
    (issued : before.forest.Issued scope) (opened : before.forest.Open scope)
    (backward : before.forest.Backward) : entered.forest.Backward := by
  have created := spares_created issued
  have same := ScopeForest.fields_created before.forest (some scope)
  have first := backward_created coherent created.reaches same backward
  cases enters with
  | plain => exact first
  | declaring accepted grounded blocks =>
      have still := open_kept_own coherent created issued opened
      obtain ⟨reaches, fresh, bare⟩ := declaring_spec coherent issued accepted grounded blocks
      exact backward_declared (coherent.reached created.reaches) reaches first still
        (append_field_eq_ok accepted).1 fresh bare

/-- What is walked in an open scope leaves it open and looks backwards. -/
theorem Nests.backward (nests : Nests scope before after) (coherent : before.Coherent)
    (issued : before.forest.Issued scope) (opened : before.forest.Open scope)
    (backward : before.forest.Backward) : after.forest.Backward := by
  induction nests with
  | done => exact backward
  | @declare scope before middle after field walk accepted grounded blockless earlier =>
      have first := walk.spares coherent issued
      have middleCoherent := coherent.reached first.reaches
      have still := open_kept_own coherent first issued opened
      have reaches := (spares_declared accepted grounded (by simp [blockless])).reaches
      exact backward_declared middleCoherent reaches (earlier coherent issued opened backward) still
        (append_field_eq_ok accepted).1 grounded (by simp [blockless])
  | @block scope before middle entered walked after walk enters inside leaves earlier inner =>
      have first := walk.spares coherent issued
      obtain ⟨middleCoherent, middleIssued⟩ := walk.coherent coherent issued
      have still := open_kept_own coherent first issued opened
      have atMiddle := earlier coherent issued opened backward
      have entry := enters.opens middleCoherent middleIssued
      have enteredCoherent := middleCoherent.reached entry.spares.reaches
      have atWalked := inner enteredCoherent entry.issued_child
        (enters.opened middleCoherent middleIssued still)
        (enters.backward middleCoherent middleIssued still atMiddle)
      have walked := inside.spares enteredCoherent entry.issued_child
      have whole := entry.spares.inner middleCoherent middle.new_not_issued walked
      have walkedCoherent := middleCoherent.reached whole.reaches
      have below := (Reaches.parent_kept walked.reaches enteredCoherent.formed
        entry.issued_child).2.trans entry.below
      have last := (leaves.spares middleCoherent whole.reaches below).1
      cases leaves with
      | plain => exact atWalked
      | joining accepted grounded block ends =>
          exact backward_arm_added walkedCoherent last.reaches atWalked
            (open_kept_own middleCoherent whole middleIssued still) ends
            (append_arm_eq_ok accepted).1
            (Reaches.grounds_kept whole.reaches middleCoherent.formed grounded)

/-- What one visit of a packet leaves to the next: all references look backwards, and the scopes
of packets, from which later packets may derive, are open. -/
structure LooksBackSoFar (schema : Schema) : Prop where
  backward : schema.forest.Backward
  opened : ∀ packet ∈ schema.packets, schema.forest.Open packet.scope

end Schema

namespace Visit

open Schema (LooksBackSoFar)

variable (visit : Visit) {failFast : Bool}

theorem opened_open (coherent : visit.before.schema.Coherent)
    (opened : ∀ packet ∈ visit.before.schema.packets,
      visit.before.schema.forest.Open packet.scope) :
    visit.opened.schema.forest.Open visit.scope := by
  have openedCoherent := coherent.reached visit.opened_reaches
  intro outer below place holder descends declared names
  rw [visit.opened_fields] at declared ⊢
  have old := coherent.block_issued declared names
  have different : below ≠ visit.scope := by
    rintro rfl
    exact visit.new_scope old
  rcases openedCoherent.ordered.mem_lineage_iff.mp descends.member with same |
    ⟨above, linked, further⟩
  · exact absurd same different
  · rw [visit.parent_of_scope] at linked
    obtain ⟨parent, member, rfl⟩ := visit.packet_of_outer linked
    exact opened parent member outer below place holder
      (Schema.descends_reflected coherent visit.opened_reaches
        (coherent.formed.issued parent member) ⟨descends.linked, further⟩) declared names

theorem looks_back (coherent : visit.before.schema.Coherent)
    (soFar : visit.before.schema.LooksBackSoFar) :
    (visit.after failFast).schema.LooksBackSoFar := by
  have openedCoherent := coherent.reached visit.opened_reaches
  have own := visit.opened_open coherent soFar.opened
  have walk := visit.walk_nests failFast coherent
  have spares := walk.spares openedCoherent visit.opened_issued
  have first := Schema.backward_created coherent visit.opened_reaches visit.opened_fields
    soFar.backward
  have old : ∀ packet ∈ visit.before.schema.packets,
      (visit.walked failFast).schema.forest.Open packet.scope := by
    intro packet member
    have issued := coherent.formed.issued packet member
    have kept := (Reaches.parent_kept visit.opened_reaches coherent.formed issued).1
    apply Schema.open_kept openedCoherent spares kept
    · intro below descends
      have order := descends.outer_lt openedCoherent.ordered
      rw [visit.scope_eq] at order
      exact Nat.lt_asymm order issued
    · exact Schema.open_of_same coherent visit.opened_reaches issued
        (fun _ _ _ => visit.opened_fields _) (soFar.opened packet member)
  constructor
  · rw [visit.after_forest]
    exact walk.backward openedCoherent visit.opened_issued own first
  · intro packet member
    rw [visit.after_forest]
    rcases (visit.registers failFast).packet_origin member with
      ⟨children, earlier⟩ | ⟨children, rfl⟩
    · rw [spares.packets] at earlier
      exact old { packet with children } earlier
    · rw [show ({ visit.record with children } : Packet).scope = visit.scope from
        visit.record_scope]
      exact Schema.open_kept_own openedCoherent spares visit.opened_issued own

end Visit

namespace ScopeForest

/-- One field is laid out before another one: its scope is that of the other or further up, and
it stands there before the field that holds the other, where one does. -/
def Precedes (forest : ScopeForest) (first second : ScopeId × Nat) : Prop :=
  first.1 ∈ forest.lineage second.1 ∧
    ∀ place, forest.Holds second.1 second.2 first.1 place → first.2 < place

/-- One field depends on another one: it reads it, or lies in its block. -/
inductive Depends (forest : ScopeForest) : ScopeId × Nat → ScopeId × Nat → Prop
  | reads {id : ScopeId} {index place : Nat} {field : Field} {reference : FieldRef}
      {encoding : Encoding} (found : (forest.fieldsOf id)[index]? = some field)
      (member : reference ∈ field.references)
      (declared : (forest.fieldsOf reference.scope)[place]? =
        some (.always reference.ident encoding)) :
      Depends forest (id, index) (reference.scope, place)
  | lies {id outer : ScopeId} {index place : Nat} {field holder : Field}
      (found : (forest.fieldsOf id)[index]? = some field)
      (declared : (forest.fieldsOf outer)[place]? = some holder)
      (names : id ∈ holder.blocks) : Depends forest (id, index) (outer, place)

end ScopeForest

namespace Schema

open ScopeForest (Depends Descends Precedes StandsBefore)

/-- References look backwards: in their own scope to fields that stand before the field that holds
them, and in a scope further up to fields that stand before the field whose block they are in. So
each is laid out before it is needed, and nothing depends on itself. -/
structure LooksBack (schema : Schema) : Prop where
  unique : ∀ id, (schema.forest.identsOf id).Nodup
  own : ∀ (id : ScopeId) (index : Nat) (field : Field),
    (schema.forest.fieldsOf id)[index]? = some field →
      ∀ reference ∈ field.references, reference.scope = id →
        schema.forest.StandsBefore reference index
  outer : ∀ (id : ScopeId) (index : Nat) (field : Field),
    (schema.forest.fieldsOf id)[index]? = some field →
      ∀ reference ∈ field.references, ∀ below, schema.forest.Descends reference.scope below id →
        ∀ place holder, (schema.forest.fieldsOf reference.scope)[place]? = some holder →
          below ∈ holder.blocks → schema.forest.StandsBefore reference place
  available : ∀ (id : ScopeId) (index : Nat) (field : Field),
    (schema.forest.fieldsOf id)[index]? = some field →
      ∀ reference ∈ field.references, ∃ (place : Nat) (encoding : Encoding),
        (schema.forest.fieldsOf reference.scope)[place]? =
            some (Field.always reference.ident encoding) ∧
          schema.forest.Precedes (reference.scope, place) (id, index)
  acyclic : ∀ place, ¬Relation.TransGen schema.forest.Depends place place

variable {schema : Schema}

theorem Coherent.owner_in_lineage (coherent : schema.Coherent) {id : ScopeId} {index : Nat}
    {field : Field} (found : (schema.forest.fieldsOf id)[index]? = some field)
    {reference : FieldRef} (member : reference ∈ field.references) :
    reference.scope ∈ schema.forest.lineage id := by
  obtain ⟨nearer, farther, _, split, _⟩ :=
    ScopeForest.nearest_of_resolve (coherent.grounds_field found reference member)
  rw [split]
  exact List.mem_append_right _ List.mem_cons_self

/-- Among the always fields of a scope an identifier has one place. -/
theorem Coherent.place_unique (coherent : schema.Coherent) {id : ScopeId} {ident : String}
    {first second : Nat} {early late : Encoding}
    (here : (schema.forest.fieldsOf id)[first]? = some (.always ident early))
    (there : (schema.forest.fieldsOf id)[second]? = some (.always ident late)) :
    first = second := by
  have named : ∀ {index : Nat} {encoding : Encoding},
      (schema.forest.fieldsOf id)[index]? = some (.always ident encoding) →
        (schema.forest.identsOf id)[index]? = some ident := by
    intro index encoding found
    rw [ScopeForest.identsOf, List.getElem?_map, found]
    rfl
  have bound := (List.getElem?_eq_some_iff.mp (named here)).1
  exact (List.getElem?_inj bound (coherent.idents_distinct id)).mp
    ((named here).trans (named there).symm)

/-- What a field depends on has a scope with a smaller number, or a smaller place in its scope. -/
theorem depends_lt (coherent : schema.Coherent) (backward : schema.forest.Backward)
    {first second : ScopeId × Nat} (depends : schema.forest.Depends first second) :
    second.1.index < first.1.index ∨ second.1 = first.1 ∧ second.2 < first.2 := by
  cases depends with
  | @reads id index place field reference encoding found member declared =>
      by_cases same : reference.scope = id
      · subst same
        obtain ⟨earlier, other, order, there⟩ :=
          backward _ index field found reference member index .own
        rw [coherent.place_unique there declared] at order
        exact .inr ⟨rfl, order⟩
      · have above := coherent.owner_in_lineage found member
        have bound := coherent.ordered.mem_lineage_le id _ above
        have different : reference.scope.index ≠ id.index := by
          intro equal
          exact same (congrArg ScopeId.mk equal)
        exact .inl (Nat.lt_of_le_of_ne bound different)
  | lies found declared names =>
      exact .inl (coherent.ordered _ _ (coherent.block_below declared names))

theorem LooksBackSoFar.looks_back (soFar : schema.LooksBackSoFar) (coherent : schema.Coherent) :
    schema.LooksBack where
  unique := coherent.idents_distinct
  own id index field found reference member same := by
    subst same
    exact soFar.backward _ index field found reference member index .own
  outer id index field found reference member below descends place holder declared names :=
    soFar.backward id index field found reference member place (.block descends declared names)
  available id index field found reference member := by
    obtain ⟨place, encoding, declared⟩ := (coherent.grounds_field found).declared member
    refine ⟨place, encoding, declared, coherent.owner_in_lineage found member, ?_⟩
    intro upper holds
    obtain ⟨earlier, other, order, there⟩ :=
      soFar.backward id index field found reference member upper holds
    rwa [coherent.place_unique there declared] at order
  acyclic place cycle := by
    have falls : ∀ {first second : ScopeId × Nat},
        Relation.TransGen schema.forest.Depends first second →
          second.1.index < first.1.index ∨ second.1 = first.1 ∧ second.2 < first.2 := by
      intro first second path
      induction path with
      | single depends => exact depends_lt coherent soFar.backward depends
      | @tail middle last _ depends further =>
          rcases depends_lt coherent soFar.backward depends with lower | ⟨same, lower⟩
          · rcases further with above | ⟨equal, _⟩
            · exact .inl (Nat.lt_trans lower above)
            · exact .inl (equal ▸ lower)
          · rcases further with above | ⟨equal, order⟩
            · exact .inl (same ▸ above)
            · exact .inr ⟨same.trans equal, Nat.lt_trans lower order⟩
    rcases falls cycle with lower | ⟨_, lower⟩
    · exact Nat.lt_irrefl _ lower
    · exact Nat.lt_irrefl _ lower

theorem looks_back_so_far_empty : LooksBackSoFar .empty where
  backward id index field found := by
    have none : Schema.empty.forest.fieldsOf id = [] :=
      ScopeForest.fields_of_not_issued (Nat.not_lt_zero _)
    rw [none] at found
    cases found
  opened packet member := by cases member

end Schema

/-- Whatever is compiled, fast or not and with whatever faults, its references look backwards. -/
theorem compile_looks_back {failFast : Bool} {source : String} {compilation : Compilation}
    (compiled : compile failFast source = .ok compilation) : compilation.schema.LooksBack := by
  obtain ⟨tree, _, rfl⟩ := parsed_of_compile compiled
  have reaches : Reaches .empty (tree.build failFast).schema := compile_reaches compiled
  have soFar : (tree.build failFast).schema.LooksBackSoFar :=
    tree.induction (motive := fun _ build => build.schema.LooksBackSoFar) failFast
      Schema.looks_back_so_far_empty fun _ visit coherent earlier =>
        visit.looks_back coherent earlier
  exact soFar.looks_back (Schema.coherent_empty.reached reaches)

/-- In this refused text a field of an optional body reads one that stands before the optional. -/
theorem refused_text_looks_back :
    ∃ compilation, compile false refusedText = .ok compilation ∧
      compilation.diagnostics.length = 3 ∧
      ((compilation.schema.forest.fieldsOf ⟨1⟩).map Field.references) = [[⟨⟨0⟩, "n"⟩]] ∧
      compilation.schema.LooksBack := by
  have passed : (compile false refusedText).toOption.any (fun compilation =>
      compilation.diagnostics.length = 3 ∧
        ((compilation.schema.forest.fieldsOf ⟨1⟩).map Field.references) = [[⟨⟨0⟩, "n"⟩]]) =
      true := by decide +kernel
  obtain ⟨compilation, compiled, counted⟩ := exists_compiled passed
  have counts := of_decide_eq_true counted
  exact ⟨compilation, compiled, counts.1, counts.2, compile_looks_back compiled⟩

end PacketSchema
