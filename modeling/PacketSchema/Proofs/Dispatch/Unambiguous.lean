import PacketSchema.Proofs.Dump.Text
import PacketSchema.Proofs.Rules.Union
import PacketSchema.Proofs.Walk.Visits

/-!
# Dispatch as it is written

Edges and arms are told apart by their conditions, and a condition holds the owners of the fields
that it is about, which its text does not show. In a schema that is built, the texts tell them
apart all the same. The conditions of the edges of one packet, and those of the arms of one union,
are all resolved in one scope, where a name has one owner whenever it is resolved; and names are
words, as they come from a text, so that a text of a condition can be read in one way only.
-/

namespace PacketSchema

open Grammar (IsWord)
open Schema (Reaches Step)

/-- No two arms of a union share a condition, a label or a value. -/
structure Union.Distinct (union : Union) : Prop where
  conditions : (union.arms.map Arm.condition).Nodup
  labels : (union.arms.map fun arm => arm.tag.label).Nodup
  values : (union.arms.map fun arm => arm.tag.value).Nodup

theorem Union.distinct_empty (ident : String) : (Union.empty ident).Distinct :=
  ⟨List.nodup_nil, List.nodup_nil, List.nodup_nil⟩

theorem Union.Distinct.extended {union : Union} {arm : Arm} (distinct : union.Distinct)
    (free : union.conflict? arm = none) : Distinct ⟨union.ident, union.arms ++ [arm]⟩ := by
  have apart := Union.conflict_eq_none_iff.mp free
  exact ⟨nodup_map_concat distinct.conditions fun present member => (apart present member).1,
    nodup_map_concat distinct.labels fun present member => (apart present member).2.1,
    nodup_map_concat distinct.values fun present member => (apart present member).2.2⟩

/-- What every field has that a walk declares. -/
structure Field.Tidy (field : Field) : Prop where
  word : IsWord field.ident
  arms : ∀ choice, field = .union choice → choice.Distinct

theorem Field.tidy_always {ident : String} (word : IsWord ident) (encoding : Encoding) :
    (Field.always ident encoding).Tidy where
  word := word
  arms _ same := by cases same

theorem Field.tidy_optional {ident : String} (word : IsWord ident) (condition : Condition)
    (scope : ScopeId) : (Field.optional ident condition scope).Tidy where
  word := word
  arms _ same := by cases same

theorem Field.tidy_union {choice : Union} (word : IsWord choice.ident)
    (distinct : choice.Distinct) : (Field.union choice).Tidy where
  word := word
  arms other same := by
    cases same
    exact distinct

namespace ScopeForest

variable {forest grown : ScopeForest} {target : ScopeId} {ident : String} {arm : Arm}
  {field : Field}

def Tidy (forest : ScopeForest) : Prop := ∀ id, ∀ field ∈ forest.fieldsOf id, field.Tidy

theorem tidy_empty : Tidy .empty := by
  intro id field member
  obtain ⟨scope, found, _⟩ := scope_of_field member
  cases found

theorem Tidy.created (tidy : forest.Tidy) (parent : Option ScopeId) :
    (forest.create parent).2.Tidy := by
  intro id
  rw [fields_created]
  exact tidy id

theorem Tidy.appended (tidy : forest.Tidy) (new : field.Tidy)
    (accepted : forest.append target field = .ok grown) : grown.Tidy := by
  intro id present member
  by_cases here : id = target
  · rw [here, fields_appended accepted] at member
    rcases List.mem_append.mp member with old | last
    · exact tidy target present old
    · rwa [List.mem_singleton.mp last]
  · rw [fields_appended_other accepted here] at member
    exact tidy id present member

/-- An arm that a union takes is told apart from those it has, whatever they are. -/
theorem Tidy.arm_added (tidy : forest.Tidy)
    (accepted : forest.appendArm target ident arm = .ok grown) : grown.Tidy := by
  obtain ⟨choice, _, declared, free, rfl⟩ := append_arm_eq_ok accepted
  obtain ⟨scope, found, own⟩ := Option.bind_eq_some_iff.mp declared
  have listed : .union choice ∈ forest.fieldsOf target := by
    rw [fields_of_scope found]
    exact List.mem_of_find?_eq_some own
  have union := tidy target (.union choice) listed
  have extended : (Field.union ⟨choice.ident, choice.arms ++ [arm]⟩).Tidy :=
    Field.tidy_union union.word ((union.arms choice rfl).extended free)
  intro id present member
  by_cases here : id = target
  · rw [here, fieldsOf, scope_update_fields, found] at member
    simp only [if_true, Option.map_some, Option.getD_some] at member
    obtain ⟨old, inside, rfl⟩ := List.mem_map.mp member
    unfold exchange
    split
    · exact extended
    · rw [← fields_of_scope found] at inside
      exact tidy target old inside
  · rw [fieldsOf, scope_update_fields_ne here, ← fieldsOf] at member
    exact tidy id present member

end ScopeForest

namespace Build

variable {build : Build} {scope : ScopeId}

theorem declare_tidy {field : Field} (tidy : build.schema.forest.Tidy) (new : field.Tidy)
    (location : Location) : (build.declare scope field location).2.schema.forest.Tidy := by
  rcases declare_cases build scope field location with ⟨_, _, same⟩ | ⟨grown, accepted, same⟩
  · rw [same]
    exact tidy
  · rw [same]
    exact tidy.appended new (Schema.append_field_eq_ok accepted).1

theorem add_arm_tidy (tidy : build.schema.forest.Tidy) (ident : String) (location : Location)
    (arm : Arm) (refused : Option Union) :
    (build.addArm scope ident location arm refused).2.schema.forest.Tidy := by
  unfold addArm
  split
  · cases accepted : build.schema.appendArm scope ident arm with
    | error error => exact tidy
    | ok grown => exact tidy.arm_added (Schema.append_arm_eq_ok accepted).1
  next refused =>
    cases refused.append arm with
    | error error => exact tidy
    | ok grown => exact tidy

end Build

namespace Tree

variable {failFast : Bool}

/-- A walk of what has words for its names keeps a forest tidy. -/
def Account.tidiness : Account where
  statement statement _ before after :=
    statement.Regular → before.schema.forest.Tidy → after.schema.forest.Tidy
  arm arm _ _ before after :=
    arm.Regular → before.2.schema.forest.Tidy → after.2.schema.forest.Tidy
  block body _ before after :=
    blockRegular body → before.schema.forest.Tidy → after.schema.forest.Tidy
  arms arms _ _ before after :=
    armsRegular arms → before.2.schema.forest.Tidy → after.schema.forest.Tidy

theorem walks_tidy : Account.tidiness.Holds failFast where
  always location ident descriptor scope build regular tidy := by
    rw [Statement.Regular] at regular
    rw [always_build_eq]
    cases descriptor.resolve build.schema.forest scope ident.item with
    | refused problems => exact tidy
    | accepted encoding =>
        exact Build.declare_tidy tidy (Field.tidy_always regular.1 encoding) location
  optional location ident condition body scope build inside regular tidy := by
    rw [Statement.Regular] at regular
    have opened : (build.createScope scope).2.schema.forest.Tidy := tidy.created (some scope)
    apply inside regular.2.2
    rw [optionalOpened]
    cases condition.resolve build.schema.forest scope with
    | refused problems => exact opened
    | accepted resolved =>
        exact Build.declare_tidy opened (Field.tidy_optional regular.1 resolved _) location
  union location ident arms scope build inside regular tidy := by
    rw [Statement.Regular] at regular
    have union : (Field.union (.empty ident.item)).Tidy :=
      Field.tidy_union regular.1 (Union.distinct_empty ident.item)
    exact inside regular.2.2 (Build.declare_tidy tidy union location)
  arm location guard tag body scope ident reached inside regular tidy := by
    rw [Arm.Regular] at regular
    have walked := inside regular.2.2 (tidy.created (some scope))
    rw [armClosed]
    split
    · exact walked
    · exact Build.add_arm_tidy walked ident location _ reached.1
  still _ _ _ _ _ tidy := tidy
  goes_on statement rest _ _ first later regular tidy := by
    rw [blockRegular] at regular
    exact later regular.2 (first regular.1 tidy)
  arms_still _ _ _ _ _ _ tidy := tidy
  arms_go_on arm rest _ _ _ first later regular tidy := by
    rw [armsRegular] at regular
    exact later regular.2 (first regular.1 tidy)

theorem buildBlock_tidy (body : List Statement) (scope : ScopeId) (build : Build)
    (regular : blockRegular body) (tidy : build.schema.forest.Tidy) :
    (buildBlock failFast scope body build).schema.forest.Tidy :=
  walks_tidy.block body scope build regular tidy

theorem buildPackets_tidy (packets : List Packet) (build : Build)
    (regular : ∀ packet ∈ packets, packet.Regular) (tidy : build.schema.forest.Tidy) :
    (buildPackets failFast packets build).schema.forest.Tidy := by
  induction packets generalizing build with
  | nil =>
      rw [buildPackets]
      exact tidy
  | cons packet rest later =>
      rw [List.forall_mem_cons] at regular
      rw [buildPackets]
      split
      · exact tidy
      · apply later _ regular.2
        have opened : (packet.opened build).2.schema.forest.Tidy := tidy.created _
        change (Visit.after ⟨packet, build⟩ failFast).schema.forest.Tidy
        rw [Visit.after_forest]
        exact buildBlock_tidy packet.body _ _ regular.1.body opened

end Tree

namespace Schema

variable {before after : Schema}

/-- No two edges of a packet share a condition. -/
def EdgesDistinct (schema : Schema) : Prop :=
  ∀ packet ∈ schema.packets, (packet.children.map Child.condition).Nodup

theorem Step.edges_distinct (step : Step before after) (distinct : before.EdgesDistinct) :
    after.EdgesDistinct := by
  intro packet member
  cases step with
  | openBlock | openPacket => exact distinct packet member
  | declare accepted =>
      rw [(append_field_eq_ok accepted).2] at member
      exact distinct packet member
  | addArm accepted =>
      rw [(append_arm_eq_ok accepted).2] at member
      exact distinct packet member
  | register accepted _ _ childless =>
      obtain ⟨_, _, rfl⟩ := append_packet_eq_ok accepted
      rcases List.mem_append.mp member with old | last
      · exact distinct packet old
      · rw [List.mem_singleton.mp last, childless]
        exact List.nodup_nil
  | link accepted =>
      obtain ⟨parent, found, free, rfl⟩ := append_child_eq_ok accepted
      rcases List.mem_or_eq_of_mem_set member with old | rfl
      · exact distinct packet old
      · exact nodup_map_concat (distinct parent (mem_of_packet found)) free

theorem Reaches.edges_distinct (reaches : Reaches before after)
    (distinct : before.EdgesDistinct) : after.EdgesDistinct := by
  induction reaches with
  | refl => exact distinct
  | tail _ step inner => exact step.edges_distinct inner

end Schema

namespace ScopeForest

variable {forest : ScopeForest} {scope : ScopeId}

/-- The names in a grounded condition are names of fields, so they are words. -/
theorem Tidy.legible (tidy : forest.Tidy) {condition : Condition}
    (grounded : forest.Grounds scope condition.references) : condition.formula.Legible := by
  induction condition with
  | integer value => trivial
  | field reference =>
      obtain ⟨_, _, encoding, _, _, declared⟩ := nearest_of_resolve (grounds_singleton.mp grounded)
      obtain ⟨owner, found, own⟩ := Option.bind_eq_some_iff.mp declared
      have listed : .always reference.ident encoding ∈ forest.fieldsOf reference.scope := by
        rw [fields_of_scope found]
        exact List.mem_of_find?_eq_some own
      exact (tidy reference.scope _ listed).word
  | negation operand inner => exact inner grounded
  | relation comparison left right first second =>
      rw [Condition.references, grounds_append] at grounded
      exact ⟨first grounded.1, second grounded.2⟩
  | conjunction connective left right first second =>
      rw [Condition.references, grounds_append] at grounded
      exact ⟨first grounded.1, second grounded.2⟩

/-- Resolved in one scope, two conditions that are written alike are the same. -/
theorem Tidy.condition_eq_of_text (tidy : forest.Tidy) {left right : Condition}
    (leftGrounded : forest.Grounds scope left.references)
    (rightGrounded : forest.Grounds scope right.references) (same : left.text = right.text) :
    left = right := by
  rw [left.text_eq, right.text_eq] at same
  have formulas := left.formula.tells (tidy.legible leftGrounded) right.formula [] []
    (tidy.legible rightGrounded) (breaks_nil _) (breaks_nil _) (by rw [same])
  exact condition_eq_of_formula leftGrounded rightGrounded formulas.1

theorem Tidy.texts_distinct (tidy : forest.Tidy) {conditions : List (Option Condition)}
    (distinct : conditions.Nodup)
    (grounded : ∀ condition ∈ conditions, forest.Grounds scope (selectionReferences condition)) :
    (conditions.map (Option.map Condition.text)).Nodup := by
  refine distinct.map_on ?_
  intro left leftMember right rightMember same
  cases left with
  | none => cases right with
    | none => rfl
    | some second => cases same
  | some first => cases right with
    | none => cases same
    | some second =>
        have equal := tidy.condition_eq_of_text (grounded _ leftMember) (grounded _ rightMember)
          (Option.some.inj same)
        rw [equal]

end ScopeForest

/-- What is chosen between can be told apart as it is written: the edges of a packet by their
conditions, the arms of a union by their conditions, their labels and their values. At most one of
each has no condition. -/
structure Schema.Unambiguous (schema : Schema) : Prop where
  edges : ∀ packet ∈ schema.packets,
    (packet.children.map fun child => child.condition.map Condition.text).Nodup
  arms : ∀ scope ∈ schema.forest.scopes, ∀ choice, .union choice ∈ scope.fields →
    (choice.arms.map fun arm => arm.condition.map Condition.text).Nodup ∧
      (choice.arms.map fun arm => arm.tag.label).Nodup ∧
      (choice.arms.map fun arm => arm.tag.value).Nodup

theorem Schema.Grounded.unambiguous {schema : Schema} (grounded : schema.Grounded)
    (tidy : schema.forest.Tidy) (distinct : schema.EdgesDistinct) : schema.Unambiguous where
  edges packet member := by
    have grounds : ∀ condition ∈ packet.children.map Child.condition,
        schema.forest.Grounds packet.scope (selectionReferences condition) := by
      intro condition listed
      obtain ⟨child, edge, rfl⟩ := List.mem_map.mp listed
      exact grounded.edges packet member child edge
    have texts := tidy.texts_distinct (distinct packet member) grounds
    rwa [List.map_map] at texts
  arms scope member choice declared := by
    obtain ⟨index, here⟩ := List.getElem?_of_mem member
    have found : schema.forest.scope? ⟨index⟩ = some scope := here
    have references := grounded.fields ⟨index⟩ scope found _ declared
    have grounds : ∀ condition ∈ choice.arms.map Arm.condition,
        schema.forest.Grounds ⟨index⟩ (selectionReferences condition) := by
      intro condition listed reference held
      obtain ⟨arm, inside, rfl⟩ := List.mem_map.mp listed
      exact references reference (List.mem_flatMap.mpr ⟨arm, inside, held⟩)
    rw [← ScopeForest.fields_of_scope found] at declared
    have arms := (tidy ⟨index⟩ _ declared).arms choice rfl
    have texts := tidy.texts_distinct arms.conditions grounds
    rw [List.map_map] at texts
    exact ⟨texts, arms.labels, arms.values⟩

/-- Whatever is compiled, fast or not and with whatever faults, dispatch is unambiguous as it is
written. -/
theorem compile_unambiguous (failFast : Bool) {source : String} {tree : Tree.Module}
    (parsed : Grammar.parse source = .ok tree) :
    ∃ compilation, compile failFast source = .ok compilation ∧
      compilation.schema.Unambiguous := by
  have compiled : compile failFast source = .ok ⟨_, _⟩ := compile_eq_build parsed
  refine ⟨_, compiled, ?_⟩
  have distinct := Reaches.edges_distinct (compile_reaches compiled) fun packet member => by
    cases member
  exact (compile_grounded compiled).unambiguous
    (Tree.buildPackets_tidy tree.packets .empty (Grammar.parse_regular parsed)
      ScopeForest.tidy_empty) distinct

/-- Here a packet is derived twice under one condition and a union repeats a condition, a label
and a value, each of them once. -/
def repetitiveText : String :=
  "A" ++ braced ("always n uint:1 bytes;variable v" ++
    braced ("case(&n)|X:0|" ++ braced "" ++ "case((&n))|Y:1|" ++ braced "" ++
      "case(!&n)|X:2|" ++ braced "" ++ "otherwise|Z:0x0|" ++ braced "")) ++
  "B:A(&n==1)" ++ braced "" ++ "C:A(&n==0x1)" ++ braced ""

theorem repetitive_text_unambiguous :
    ∃ compilation, compile false repetitiveText = .ok compilation ∧
      compilation.diagnostics.length = 4 ∧ compilation.schema.Unambiguous := by
  have passed : (compile false repetitiveText).toOption.any (fun compilation =>
      compilation.diagnostics.length = 4) = true := by decide +kernel
  obtain ⟨found, counted, faults⟩ := exists_compiled passed
  obtain ⟨tree, parsed, _⟩ := parsed_of_compile counted
  obtain ⟨compilation, compiled, unambiguous⟩ := compile_unambiguous false parsed
  rw [counted] at compiled
  cases compiled
  exact ⟨found, counted, of_decide_eq_true faults, unambiguous⟩

end PacketSchema
