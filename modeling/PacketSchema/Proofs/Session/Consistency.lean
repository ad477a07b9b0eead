import PacketSchema.Proofs.ReferenceIntegrity
import PacketSchema.Proofs.Session.Tables
import PacketSchema.Proofs.Walk.Cut

/-!
# What a session keeps

A session starts from nothing or from what a text compiles to, and goes on by mutations of any
kind, those that fail included and with any numbers in them. Whatever it comes to, what is found
by an identifier is what is there under it, and nothing that is there is ever taken away, moved
or changed: lists grow at their end, unions take arms and packets take edges. A walk of a text is
such a session itself, so it is enough to look at sessions that start from nothing.
-/

namespace PacketSchema

/-- Where a session may start. -/
inductive Schema.Opens : Schema → Prop
  | empty : Opens .empty
  | compiled {failFast : Bool} {source : String} {compilation : Compilation}
      (compiled : compile failFast source = .ok compilation) : Opens compilation.schema

/-- The fields of a scope are told apart by their identifiers, and each is found under its own. -/
structure Scope.Consistent (scope : Scope) : Prop where
  distinct : (scope.fields.map Field.ident).Nodup
  contains : ∀ ident, scope.contains ident = true ↔ ∃ field ∈ scope.fields, field.ident = ident
  found : ∀ ident field, scope.find? ident = some field ↔
    field ∈ scope.fields ∧ field.ident = ident

/-- Packets are told apart by their identifiers, and each is found under its own and by its
number; so are the fields of each scope. -/
structure Schema.Consistent (schema : Schema) : Prop where
  distinct : (schema.packets.map Packet.ident).Nodup
  numbers : ∀ ident id, schema.packetId? ident = some id ↔
    ∃ packet, schema.packet? id = some packet ∧ packet.ident = ident
  found : ∀ ident packet, schema.find? ident = some packet ↔
    ∃ id, schema.packetId? ident = some id ∧ schema.packet? id = some packet
  scopes : ∀ scope ∈ schema.forest.scopes, scope.Consistent

namespace Indexed

theorem Table.Tells.nodup {Item : Type} {table : Table Item} {number : Item → Nat}
    {idents : List String} (tells : table.Tells number idents)
    (numbers : ∀ index, ∃ item, number item = index) : idents.Nodup := by
  rw [List.nodup_iff_injective_getElem]
  intro first second
  change idents[first] = idents[second] → first = second
  intro same
  obtain ⟨one, firstIs⟩ := numbers first
  obtain ⟨other, secondIs⟩ := numbers second
  have there := (tells idents[first] one).mpr (by rw [firstIs]; exact List.getElem?_eq_getElem _)
  have also := (tells idents[second] other).mpr (by rw [secondIs]; exact List.getElem?_eq_getElem _)
  rw [same, also] at there
  cases there
  exact Fin.ext (firstIs.symm.trans secondIs)

theorem Scope.Sound.consistent {scope : Scope} (sound : scope.Sound) : scope.plain.Consistent where
  distinct := by
    have idents : scope.plain.fields.map PacketSchema.Field.ident =
        scope.fields.map Field.ident := by
      rw [Scope.plain, List.map_map]
      exact List.map_congr_left fun field _ => field.ident_plain
    rw [idents]
    exact sound.places.nodup fun index => ⟨index, rfl⟩
  contains ident := by
    simp only [PacketSchema.Scope.contains, List.any_eq_true, beq_iff_eq]
  found ident plain := by
    rw [sound.find_plain, Option.map_eq_some_iff]
    constructor
    · rintro ⟨field, found, rfl⟩
      obtain ⟨member, named⟩ := sound.find_eq_some.mp found
      exact ⟨List.mem_map_of_mem member, field.ident_plain.trans named⟩
    · rintro ⟨member, named⟩
      obtain ⟨field, inside, rfl⟩ := List.mem_map.mp member
      exact ⟨field, sound.find_eq_some.mpr ⟨inside, field.ident_plain.symm.trans named⟩, rfl⟩

theorem Schema.Represents.consistent {schema : Schema} {plain : PacketSchema.Schema}
    (represents : schema.Represents plain) : plain.Consistent := by
  cases represents.plain
  have sound := represents.sound
  refine ⟨sound.numbers.nodup fun index => ⟨⟨index⟩, rfl⟩, ?_, ?_, ?_⟩
  · intro ident id
    rw [sound.packet_id_plain]
    exact sound.number_iff
  · intro ident packet
    simp only [PacketSchema.Schema.find?, PacketSchema.Schema.named?, Option.map_bind,
      Option.bind_eq_some_iff, Function.comp_apply, Option.map_map, Option.map_eq_some_iff,
      exists_eq_right]
  · intro scope member
    obtain ⟨indexed, inside, rfl⟩ := List.mem_map.mp member
    exact (sound.scopes indexed inside).consistent

end Indexed

namespace Schema

variable {schema before after : Schema}

theorem perform_eq_of_ok {receipt : Receipt} {mutation : Mutation}
    (accepted : before.apply mutation = .ok (receipt, after)) :
    (before.perform mutation).2 = after := by
  rw [perform, accepted]

theorem perform_all_append (schema : Schema) (first second : List Mutation) :
    schema.performAll (first ++ second) = (schema.performAll first).performAll second :=
  List.foldl_append

/-- Every step of a walk is a mutation that succeeds. -/
theorem Step.performed (step : Step before after) :
    ∃ mutation, (before.perform mutation).2 = after := by
  cases step with
  | @openBlock scope => exact ⟨.createChild scope, rfl⟩
  | @openPacket parent => exact ⟨.createPacketScope parent, rfl⟩
  | @declare grown scope field accepted =>
      exact ⟨.appendField scope field, perform_eq_of_ok (by rw [apply, accepted]; rfl)⟩
  | @addArm grown scope ident arm accepted =>
      exact ⟨.appendArm scope ident arm, perform_eq_of_ok (by rw [apply, accepted]; rfl)⟩
  | @register grown packet id accepted =>
      exact ⟨.appendPacket packet, perform_eq_of_ok (by rw [apply, accepted]; rfl)⟩
  | @link grown id child parent derived condition accepted =>
      exact ⟨.appendChild id child condition, perform_eq_of_ok (by rw [apply, accepted]; rfl)⟩

theorem Reaches.performed (reaches : Reaches before after) :
    ∃ mutations, after = before.performAll mutations := by
  induction reaches with
  | refl => exact ⟨[], rfl⟩
  | tail _ step inner =>
      obtain ⟨earlier, rfl⟩ := inner
      obtain ⟨mutation, rfl⟩ := step.performed
      exact ⟨earlier ++ [mutation], (perform_all_append _ earlier [mutation]).symm⟩

/-- What a session starts from is itself what a session from nothing comes to. -/
theorem Opens.built (opens : schema.Opens) :
    ∃ building, schema = Schema.empty.performAll building := by
  cases opens with
  | empty => exact ⟨[], rfl⟩
  | compiled compiled => exact Reaches.performed (compile_reaches compiled)

theorem Consistent.distinct_fields (consistent : schema.Consistent) : schema.Distinct :=
  fun _ scope found => (consistent.scopes scope (List.mem_of_getElem? found)).distinct

theorem ok_of_map {First Second : Type} {answer : Except SchemaError First}
    {change : First → Second} {result : Second} (mapped : answer.map change = .ok result) :
    ∃ item, answer = .ok item ∧ change item = result := by
  cases answer with
  | error error => cases mapped
  | ok item => exact ⟨item, rfl, Except.ok.inj mapped⟩

/-- What a mutation that succeeds does to a schema, whatever it was asked with. -/
theorem apply_cases {receipt : Receipt} {mutation : Mutation}
    (accepted : before.apply mutation = .ok (receipt, after)) :
    (∃ parent, after = (before.createScope parent).2) ∨
      (∃ scope field, before.appendField scope field = .ok after) ∨
      (∃ scope ident arm, before.appendArm scope ident arm = .ok after) ∨
      (∃ packet id, before.appendPacket packet = .ok (id, after)) ∨
      ∃ id child condition, before.appendChild id child condition = .ok after := by
  cases mutation with
  | createPacketScope parent =>
      cases accepted
      exact .inl ⟨_, rfl⟩
  | createRoot =>
      cases accepted
      exact .inl ⟨none, rfl⟩
  | createChild parent =>
      cases accepted
      exact .inl ⟨some parent, rfl⟩
  | appendPacket packet =>
      obtain ⟨⟨id, grown⟩, answered, same⟩ := ok_of_map accepted
      cases same
      exact .inr (.inr (.inr (.inl ⟨packet, id, answered⟩)))
  | appendPacketField id field =>
      obtain ⟨grown, answered, same⟩ := ok_of_map accepted
      cases same
      unfold appendPacketField at answered
      split at answered
      · cases answered
      next packet _ => exact .inr (.inl ⟨packet.scope, field, answered⟩)
  | appendField scope field =>
      obtain ⟨grown, answered, same⟩ := ok_of_map accepted
      cases same
      exact .inr (.inl ⟨scope, field, answered⟩)
  | appendArm scope ident arm =>
      obtain ⟨grown, answered, same⟩ := ok_of_map accepted
      cases same
      exact .inr (.inr (.inl ⟨scope, ident, arm, answered⟩))
  | appendChild id child condition =>
      obtain ⟨grown, answered, same⟩ := ok_of_map accepted
      cases same
      exact .inr (.inr (.inr (.inr ⟨id, child, condition, answered⟩)))

theorem apply_cut {receipt : Receipt} {mutation : Mutation} (distinct : before.Distinct)
    (accepted : before.apply mutation = .ok (receipt, after)) : before.CutFrom after := by
  have packetsKept := leads_refl Packet.cut_refl before.packets
  rcases apply_cases accepted with ⟨parent, rfl⟩ | ⟨scope, field, declared⟩ |
    ⟨scope, ident, arm, added⟩ | ⟨packet, id, registered⟩ | ⟨id, child, condition, linked⟩
  · exact ⟨packetsKept, ScopeForest.create_cut _ parent⟩
  · obtain ⟨appended, same⟩ := append_field_eq_ok declared
    exact ⟨by rwa [same], ScopeForest.append_cut appended⟩
  · obtain ⟨appended, same⟩ := append_arm_eq_ok added
    exact ⟨by rwa [same], ScopeForest.append_arm_cut appended distinct⟩
  · obtain ⟨_, _, rfl⟩ := append_packet_eq_ok registered
    exact ⟨leads_append Packet.cut_refl _ _, leads_refl Scope.cut_refl _⟩
  · obtain ⟨parent, found, _, rfl⟩ := append_child_eq_ok linked
    exact ⟨packets_cut_set _ found, leads_refl Scope.cut_refl _⟩

/-- Whether it succeeds or fails, a mutation only ever makes a schema grow. -/
theorem perform_cut (distinct : before.Distinct) (mutation : Mutation) :
    before.CutFrom (before.perform mutation).2 := by
  unfold perform
  cases answered : before.apply mutation with
  | error error => exact cut_refl before
  | ok result =>
      obtain ⟨receipt, grown⟩ := result
      exact apply_cut distinct answered

/-- A session from nothing is one with tables, and the tables tell the truth. -/
theorem performed_consistent (mutations : List Mutation) :
    (Schema.empty.performAll mutations).Consistent :=
  (Indexed.Schema.represents_empty.performAll mutations).consistent

theorem performed_cut (earlier further : List Mutation) :
    (Schema.empty.performAll earlier).CutFrom
      ((Schema.empty.performAll earlier).performAll further) := by
  induction further generalizing earlier with
  | nil => exact cut_refl _
  | cons mutation rest later =>
      have first := perform_cut (performed_consistent earlier).distinct_fields mutation
      have others := later (earlier ++ [mutation])
      rw [perform_all_append] at others
      exact first.trans others

/-- Whatever a session comes to is consistent and only grows from there on; where it starts there
is a session from nothing, and each one, with tables, goes on to the same and answers the same. -/
theorem session_consistent {start : Schema} (opens : start.Opens) (mutations : List Mutation) :
    (start.performAll mutations).Consistent ∧
      (∀ further, (start.performAll mutations).CutFrom
        ((start.performAll mutations).performAll further)) ∧
      (∃ building, start = Schema.empty.performAll building) ∧
      ∀ building, start = Schema.empty.performAll building →
        (Indexed.Schema.empty.performAll (building ++ mutations)).plain =
          start.performAll mutations ∧
        (Indexed.Schema.empty.performAll (building ++ mutations)).Answers
          (start.performAll mutations) := by
  obtain ⟨first, reached⟩ := opens.built
  have session : start.performAll mutations = Schema.empty.performAll (first ++ mutations) := by
    rw [perform_all_append, reached]
  refine ⟨?_, ?_, opens.built, ?_⟩
  · rw [session]
    exact performed_consistent _
  · rw [session]
    exact performed_cut _
  · rintro building rfl
    rw [← perform_all_append]
    have represents := Indexed.Schema.represents_empty.performAll (building ++ mutations)
    exact ⟨represents.plain, represents.answers⟩

end Schema

/-- Mutations with numbers that were never issued, a packet and a field that are refused, and some
that succeed. -/
def unevenMutations : List Mutation :=
  [.createChild ⟨9⟩, .appendPacket (.root "A" ⟨0⟩), .appendPacket (.root "Z" ⟨9⟩),
    .appendPacketField ⟨7⟩ (.union (.empty "u")), .appendPacketField ⟨0⟩ (.union (.empty "u")),
    .appendField ⟨0⟩ (.union (.empty "u")), .appendArm ⟨0⟩ "u" ⟨none, ⟨"l", 1⟩, ⟨9⟩⟩,
    .appendChild ⟨0⟩ ⟨8⟩ none]

theorem uneven_session_consistent :
    ∃ compilation, compile false refusedText = .ok compilation ∧ compilation.schema.Opens ∧
      (compilation.schema.performAll unevenMutations).packetId? "Z" = some ⟨2⟩ ∧
      (compilation.schema.performAll unevenMutations).Consistent := by
  have passed : (compile false refusedText).toOption.any (fun compilation =>
      (compilation.schema.performAll unevenMutations).packetId? "Z" = some ⟨2⟩) = true := by
    decide +kernel
  obtain ⟨compilation, compiled, registered⟩ := exists_compiled passed
  exact ⟨compilation, compiled, .compiled compiled, of_decide_eq_true registered,
    (Schema.session_consistent (.compiled compiled) unevenMutations).1⟩

end PacketSchema
