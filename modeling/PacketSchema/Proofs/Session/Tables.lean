import PacketSchema.Indexed
import PacketSchema.Proofs.Walk.Mutation

/-!
# Tables that tell the truth

What a schema with tables answers is right as long as its tables say of each list what is in it.
That they do is an invariant of every mutation: an entry is made for each item that is put at the
end of a list, under an identifier that no other item has, and where a union is exchanged for one
with another arm its place and its identifier stay. The schema without tables then gives the same
answers, so all that is proved of the one is proved of the other.
-/

namespace PacketSchema.Indexed

namespace Table

variable {Item : Type} {table : Table Item} {number : Item → Nat} {idents : List String}
  {ident : String}

theorem find_insert (table : Table Item) (ident other : String) (item : Item) :
    (table.insert ident item).find? other =
      if other = ident then some item else table.find? other := by
  rw [find?, insert, List.lookup_cons]
  by_cases same : other = ident
  · rw [same, BEq.rfl, if_pos rfl]
  · rw [beq_eq_false_iff_ne.mpr same, if_neg same, find?]

/-- A table tells of each identifier of a list where it stands, and of no other one. An identifier
is given one place, so it stands only once in the list. -/
def Tells (table : Table Item) (number : Item → Nat) (idents : List String) : Prop :=
  ∀ ident item, table.find? ident = some item ↔ idents[number item]? = some ident

theorem tells_empty (number : Item → Nat) : (empty : Table Item).Tells number [] := by
  intro ident item
  simp [find?, empty]

theorem Tells.absent (tells : table.Tells number idents)
    (numbers : ∀ index, ∃ item, number item = index) (free : table.find? ident = none) :
    ident ∉ idents := by
  intro listed
  obtain ⟨index, there⟩ := List.getElem?_of_mem listed
  obtain ⟨item, rfl⟩ := numbers index
  rw [(tells ident item).mpr there] at free
  cases free

/-- An entry for an identifier that is new, with the number of the next place. -/
theorem Tells.insert (tells : table.Tells number idents) (injective : number.Injective)
    (absent : ident ∉ idents) (item : Item) (next : number item = idents.length) :
    (table.insert ident item).Tells number (idents ++ [ident]) := by
  intro other place
  rw [find_insert]
  split
  next same =>
    subst same
    rw [Option.some.injEq, List.getElem?_append]
    constructor
    · rintro rfl
      simp [next]
    · intro there
      split at there
      · exact absurd (List.mem_of_getElem? there) absent
      · obtain ⟨bound, _⟩ := List.getElem?_eq_some_iff.mp there
        rw [List.length_singleton] at bound
        exact injective (by omega)
  next different =>
    rw [tells other place, List.getElem?_append]
    split
    · exact Iff.rfl
    next beyond =>
      rw [List.getElem?_eq_none (Nat.le_of_not_lt beyond), List.getElem?_singleton]
      split
      · simp [Ne.symm different]
      · rfl

end Table

namespace Union

variable {union grown : Union} {arm : Arm}

structure Sound (union : Union) : Prop where
  labels : ∀ label, label ∈ union.labels ↔ ∃ arm ∈ union.arms, arm.tag.label = label
  values : ∀ value, value ∈ union.values ↔ ∃ arm ∈ union.arms, arm.tag.value = value

theorem sound_of_plain (union : PacketSchema.Union) : (ofPlain union).Sound where
  labels _ := List.mem_map
  values _ := List.mem_map

theorem Sound.conflict_plain (sound : union.Sound) (arm : Arm) :
    union.plain.conflict? arm = union.conflict? arm := by
  have labelled : (union.arms.any fun present => present.tag.label = arm.tag.label) = true ↔
      arm.tag.label ∈ union.labels := by
    simp only [sound.labels, List.any_eq_true, decide_eq_true_eq]
  have valued : (union.arms.any fun present => present.tag.value = arm.tag.value) = true ↔
      arm.tag.value ∈ union.values := by
    simp only [sound.values, List.any_eq_true, decide_eq_true_eq]
  exact ite_congr rfl (fun _ => rfl) fun _ =>
    ite_congr (propext labelled) (fun _ => rfl) fun _ =>
      ite_congr (propext valued) (fun _ => rfl) fun _ => rfl

theorem append_eq_ok (accepted : union.append arm = .ok grown) :
    grown = ⟨union.ident, union.arms ++ [arm], arm.tag.label :: union.labels,
      arm.tag.value :: union.values⟩ := by
  unfold append at accepted
  split at accepted
  · cases accepted
  · exact (Except.ok.inj accepted).symm

theorem Sound.append_plain (sound : union.Sound) (arm : Arm) :
    union.plain.append arm = (union.append arm).map plain := by
  rw [PacketSchema.Union.append, sound.conflict_plain, append]
  cases union.conflict? arm <;> rfl

theorem Sound.append (sound : union.Sound) (accepted : union.append arm = .ok grown) :
    grown.Sound := by
  cases append_eq_ok accepted
  constructor
  · intro label
    simp only [List.mem_cons, List.mem_append, List.not_mem_nil, or_false, sound.labels,
      or_and_right, exists_or, exists_eq_left]
    rw [or_comm, eq_comm]
  · intro value
    simp only [List.mem_cons, List.mem_append, List.not_mem_nil, or_false, sound.values,
      or_and_right, exists_or, exists_eq_left]
    rw [or_comm, eq_comm]

end Union

namespace Field

def Sound : Field → Prop
  | .always _ _ => True
  | .optional _ _ _ => True
  | .union choice => choice.Sound

@[simp] theorem plain_of_plain (field : PacketSchema.Field) : (ofPlain field).plain = field := by
  cases field <;> rfl

@[simp] theorem ident_plain (field : Field) : field.plain.ident = field.ident := by
  cases field <;> rfl

theorem sound_of_plain (field : PacketSchema.Field) : (ofPlain field).Sound := by
  cases field with
  | always | optional => trivial
  | union choice => exact Union.sound_of_plain choice

end Field

namespace Scope

variable {scope : Scope} {ident : String} {field fresh : Field}

structure Sound (scope : Scope) : Prop where
  places : scope.places.Tells id (scope.fields.map Field.ident)
  fields : ∀ field ∈ scope.fields, field.Sound

theorem sound_created (parent : Option ScopeId) : Sound ⟨parent, [], .empty⟩ where
  places := Table.tells_empty id
  fields field member := by cases member

theorem Sound.place_iff (sound : scope.Sound) {place : Nat} :
    scope.places.find? ident = some place ↔
      ∃ field, scope.fields[place]? = some field ∧ field.ident = ident := by
  rw [sound.places ident place, List.getElem?_map, Option.map_eq_some_iff]
  rfl

theorem Sound.find_eq_some (sound : scope.Sound) :
    scope.find? ident = some field ↔ field ∈ scope.fields ∧ field.ident = ident := by
  rw [find?, Option.bind_eq_some_iff]
  constructor
  · intro found
    obtain ⟨place, entered, here⟩ := found
    obtain ⟨present, also, named⟩ := sound.place_iff.mp entered
    rw [here] at also
    cases also
    exact ⟨List.mem_of_getElem? here, named⟩
  · intro listed
    obtain ⟨place, here⟩ := List.getElem?_of_mem listed.1
    exact ⟨place, sound.place_iff.mpr ⟨field, here, listed.2⟩, here⟩

/-- The table answers what a search through the fields finds. -/
theorem Sound.find_plain (sound : scope.Sound) (ident : String) :
    scope.plain.find? ident = (scope.find? ident).map Field.plain := by
  cases searched : scope.plain.find? ident with
  | none =>
      rw [PacketSchema.Scope.find?, List.find?_eq_none] at searched
      cases found : scope.find? ident with
      | none => rfl
      | some field =>
          obtain ⟨member, named⟩ := sound.find_eq_some.mp found
          have absent := searched field.plain (List.mem_map_of_mem member)
          rw [Field.ident_plain, named] at absent
          exact absurd BEq.rfl absent
  | some plain =>
      obtain ⟨field, member, rfl⟩ := List.mem_map.mp (List.mem_of_find?_eq_some searched)
      have named := PacketSchema.Scope.ident_of_find searched
      rw [Field.ident_plain] at named
      rw [sound.find_eq_some.mpr ⟨member, named⟩, Option.map_some]

theorem Sound.contains_plain (sound : scope.Sound) (ident : String) :
    scope.plain.contains ident = scope.contains ident := by
  have searched := sound.find_plain ident
  have found : (scope.find? ident).isSome = scope.contains ident := by
    rw [find?, contains]
    cases entered : scope.places.find? ident with
    | none => rfl
    | some place =>
        obtain ⟨field, here, _⟩ := sound.place_iff.mp entered
        rw [Option.bind_some, here]
        rfl
  rw [← found, ← Option.isSome_map, ← searched, Bool.eq_iff_iff, PacketSchema.Scope.contains,
    List.any_eq_true, PacketSchema.Scope.find?, List.find?_isSome]

theorem plain_append (scope : Scope) (field : Field) : (scope.append field).plain =
    { scope.plain with fields := scope.plain.fields ++ [field.plain] } := by
  simp only [plain, append, List.map_append, List.map_singleton]

theorem Sound.append (sound : scope.Sound) (absent : scope.find? field.ident = none)
    (whole : field.Sound) : (scope.append field).Sound where
  places := by
    have new : field.ident ∉ scope.fields.map Field.ident := by
      intro listed
      obtain ⟨present, member, named⟩ := List.mem_map.mp listed
      rw [sound.find_eq_some.mpr ⟨member, named⟩] at absent
      cases absent
    have told := sound.places.insert Function.injective_id new scope.fields.length
      (List.length_map Field.ident).symm
    rw [← List.map_singleton, ← List.map_append] at told
    exact told
  fields present member := by
    rcases List.mem_append.mp member with old | last
    · exact sound.fields present old
    · rwa [List.mem_singleton.mp last]

/-- Where a field is exchanged for one of the same identifier, a search by identifier would have
met the same field and no other. -/
theorem Sound.plain_replace (sound : scope.Sound) (found : scope.find? ident = some field) :
    (scope.replace ident fresh).plain =
      { scope.plain with
        fields := scope.plain.fields.map fun present =>
          if present.ident = ident then fresh.plain else present } := by
  obtain ⟨place, entered, here⟩ := Option.bind_eq_some_iff.mp found
  obtain ⟨bound, present⟩ := List.getElem?_eq_some_iff.mp here
  have named := (sound.find_eq_some.mp found).2
  simp only [replace, entered, plain, PacketSchema.Scope.mk.injEq, true_and]
  apply List.ext_getElem?
  intro index
  simp only [List.map_map, List.getElem?_map, List.getElem?_set]
  by_cases same : place = index
  · subst same
    simp [bound, present, named]
  · rw [if_neg same]
    cases present : scope.fields[index]? with
    | none => rfl
    | some other =>
        have different : other.ident ≠ ident := by
          intro also
          have again := sound.place_iff.mpr ⟨other, present, also⟩
          rw [entered] at again
          exact same (Option.some.inj again)
        simp [different]

theorem Sound.replace (sound : scope.Sound) (found : scope.find? ident = some field)
    (named : fresh.ident = ident) (whole : fresh.Sound) : (scope.replace ident fresh).Sound := by
  obtain ⟨place, entered, here⟩ := Option.bind_eq_some_iff.mp found
  have was := (sound.find_eq_some.mp found).2
  have kept : (scope.fields.set place fresh).map Field.ident = scope.fields.map Field.ident :=
    map_set_kept here (named.trans was.symm)
  rw [Scope.replace, entered]
  constructor
  · simp only [kept]
    exact sound.places
  · intro other member
    rcases List.mem_or_eq_of_mem_set member with old | rfl
    · exact sound.fields other old
    · exact whole

end Scope

namespace Schema

variable {schema grown : Schema} {id : ScopeId} {ident : String} {Item : Type}

/-- The representation of a schema: every table says of its list what is in it. -/
structure Sound (schema : Schema) : Prop where
  numbers : schema.numbers.Tells PacketId.index (schema.packets.map Packet.ident)
  scopes : ∀ scope ∈ schema.scopes, scope.Sound

theorem sound_empty : Sound .empty where
  numbers := Table.tells_empty PacketId.index
  scopes scope member := by cases member

/-- The same answer with and without tables, and tables that are right after it. -/
inductive Matches : Except SchemaError (Item × Schema) →
    Except SchemaError (Item × PacketSchema.Schema) → Prop
  | refused (error : SchemaError) : Matches (.error error) (.error error)
  | accepted (item : Item) {grown : Schema} (sound : grown.Sound) :
      Matches (.ok (item, grown)) (.ok (item, grown.plain))

theorem Matches.map {Other : Type} (change : Item → Other)
    {answer : Except SchemaError (Item × Schema)}
    {expected : Except SchemaError (Item × PacketSchema.Schema)}
    (matched : Matches answer expected) :
    Matches (answer.map fun (item, grown) => (change item, grown))
      (expected.map fun (item, grown) => (change item, grown)) := by
  cases matched with
  | refused error => exact .refused error
  | accepted item sound => exact .accepted (change item) sound

theorem Sound.number_iff (sound : schema.Sound) {id : PacketId} :
    schema.packetId? ident = some id ↔
      ∃ packet, schema.packet? id = some packet ∧ packet.ident = ident := by
  rw [packetId?, sound.numbers ident id, List.getElem?_map, Option.map_eq_some_iff]
  rfl

theorem scope_plain (schema : Schema) (id : ScopeId) :
    schema.plain.forest.scope? id = (schema.scope? id).map Scope.plain :=
  List.getElem?_map

theorem Sound.scope (sound : schema.Sound) {scope : Scope} (found : schema.scope? id = some scope) :
    scope.Sound :=
  sound.scopes scope (List.mem_of_getElem? found)

theorem Sound.first_binding_plain (sound : schema.Sound) (ident : String) (ids : List ScopeId) :
    schema.plain.forest.firstBinding ident ids =
      (schema.firstBinding ident ids).map fun binding =>
        binding.map fun (id, field) => (id, field.plain) := by
  induction ids with
  | nil => rfl
  | cons id rest farther =>
      rw [ScopeForest.firstBinding, firstBinding, scope_plain]
      cases found : schema.scope? id with
      | none => rfl
      | some scope =>
          simp only [Option.map_some, (sound.scope found).find_plain]
          cases scope.find? ident with
          | none => exact farther
          | some field => rfl

theorem Sound.lookup_plain (sound : schema.Sound) (id : ScopeId) (ident : String) :
    schema.plain.forest.lookup id ident =
      (schema.lookup id ident).map fun binding =>
        binding.map fun (id, field) => (id, field.plain) :=
  sound.first_binding_plain ident _

theorem Sound.packet_id_plain (sound : schema.Sound) (ident : String) :
    schema.plain.packetId? ident = schema.packetId? ident := by
  cases searched : schema.plain.packetId? ident with
  | none =>
      rw [PacketSchema.Schema.packetId?, Option.map_eq_none_iff, List.findIdx?_eq_none_iff]
        at searched
      cases found : schema.packetId? ident with
      | none => rfl
      | some id =>
          obtain ⟨packet, present, named⟩ := sound.number_iff.mp found
          have absent := searched packet (List.mem_of_getElem? present)
          rw [named, BEq.rfl] at absent
          cases absent
  | some id =>
      obtain ⟨index, located, rfl⟩ := Option.map_eq_some_iff.mp searched
      obtain ⟨bound, named, _⟩ := List.findIdx?_eq_some_iff_getElem.mp located
      exact (sound.number_iff.mpr ⟨_, List.getElem?_eq_getElem bound, eq_of_beq named⟩).symm

/-- Whether an identifier is taken is read off the table instead of the list. -/
theorem Sound.taken_plain (sound : schema.Sound) (ident : String) :
    (schema.plain.packets.any fun present => present.ident = ident) =
      (schema.packetId? ident).isSome := by
  rw [← sound.packet_id_plain, PacketSchema.Schema.packetId?, Option.isSome_map,
    List.findIdx?_isSome]
  rfl

theorem find_binding_none {scope : Scope} (absent : schema.lookup id ident = .ok none)
    (found : schema.scope? id = some scope) : scope.find? ident = none := by
  rw [lookup, ScopeForest.lineage, ScopeForest.lineageWithin, firstBinding, found] at absent
  simp only at absent
  cases own : scope.find? ident with
  | none => rfl
  | some field => simp [own] at absent

/-- A change of one scope, with its tables and without. -/
theorem plain_modify {change : Scope → Scope}
    {plainChange : PacketSchema.Scope → PacketSchema.Scope}
    (agree : ∀ scope, schema.scope? id = some scope →
      (change scope).plain = plainChange scope.plain) :
    (schema.scopes.modify id.index change).map Scope.plain =
      (schema.scopes.map Scope.plain).modify id.index plainChange := by
  apply List.ext_getElem?
  intro index
  simp only [List.getElem?_map, List.getElem?_modify]
  by_cases here : id.index = index
  · cases found : schema.scopes[index]? with
    | none => rfl
    | some scope =>
        have changed := agree scope (by rw [scope?, here, found])
        simp [here, changed]
  · simp [here]

theorem Sound.modify (sound : schema.Sound) {change : Scope → Scope}
    (changed : ∀ scope, schema.scope? id = some scope → (change scope).Sound) :
    Sound { schema with scopes := schema.scopes.modify id.index change } where
  numbers := sound.numbers
  scopes scope member := by
    obtain ⟨index, found⟩ := List.getElem?_of_mem member
    rw [List.getElem?_modify] at found
    obtain ⟨old, present, rfl⟩ := Option.map_eq_some_iff.mp found
    split
    next here => exact changed old (by rw [scope?, here, present])
    next => exact sound.scopes old (List.mem_of_getElem? present)

theorem Sound.create_scope (sound : schema.Sound) (parent : Option ScopeId) :
    (schema.createScope parent).2.Sound where
  numbers := sound.numbers
  scopes scope member := by
    rcases List.mem_append.mp member with old | last
    · exact sound.scopes scope old
    · rw [List.mem_singleton.mp last]
      exact Scope.sound_created parent

theorem create_scope_plain (schema : Schema) (parent : Option ScopeId) :
    schema.plain.createScope parent =
      ((schema.createScope parent).1, (schema.createScope parent).2.plain) := by
  simp [PacketSchema.Schema.createScope, ScopeForest.create, createScope, plain, ScopeForest.size,
    Scope.plain]

theorem create_packet_scope_plain (schema : Schema) (parent : Option PacketId) :
    schema.plain.createPacketScope parent =
      ((schema.createPacketScope parent).1, (schema.createPacketScope parent).2.plain) :=
  create_scope_plain schema _

theorem index_injective : PacketId.index.Injective := by
  intro first second same
  cases first
  cases second
  exact congrArg PacketId.mk same

theorem Sound.append_packet_matches (sound : schema.Sound) (packet : Packet) :
    Matches (schema.appendPacket packet) (schema.plain.appendPacket packet) := by
  unfold appendPacket PacketSchema.Schema.appendPacket
  rw [sound.taken_plain]
  split
  · exact .refused _
  next free =>
    have new : packet.ident ∉ schema.packets.map Packet.ident :=
      sound.numbers.absent (fun index => ⟨⟨index⟩, rfl⟩) (by simpa [packetId?] using free)
    have told := sound.numbers.insert index_injective new ⟨schema.packets.length⟩
      (List.length_map Packet.ident).symm
    rw [← List.map_singleton, ← List.map_append] at told
    exact .accepted _ ⟨told, sound.scopes⟩

theorem Sound.append_field_matches (sound : schema.Sound) (id : ScopeId) {field : Field}
    (whole : field.Sound) (item : Item) :
    Matches ((schema.appendField id field).map fun grown => (item, grown))
      ((schema.plain.appendField id field.plain).map fun grown => (item, grown)) := by
  unfold appendField PacketSchema.Schema.appendField ScopeForest.append
  rw [Field.ident_plain, sound.lookup_plain]
  cases seen : schema.lookup id field.ident with
  | error error => exact .refused error
  | ok binding =>
      cases binding with
      | some present => exact .refused _
      | none =>
          have changed : (schema.scopes.modify id.index fun scope => scope.append field).map
              Scope.plain = (schema.scopes.map Scope.plain).modify id.index fun scope =>
                { scope with fields := scope.fields ++ [field.plain] } :=
            plain_modify fun scope _ => scope.plain_append field
          have grownSound : Sound { schema with
              scopes := schema.scopes.modify id.index fun scope => scope.append field } :=
            sound.modify fun scope found =>
              (sound.scope found).append (find_binding_none seen found) whole
          have accepted := Matches.accepted item grownSound
          rw [plain, changed] at accepted
          exact accepted

theorem packet_plain (schema : Schema) (id : PacketId) :
    schema.plain.packet? id = schema.packet? id := rfl

theorem Sound.append_packet_field_matches (sound : schema.Sound) (id : PacketId) {field : Field}
    (whole : field.Sound) (item : Item) :
    Matches ((schema.appendPacketField id field).map fun grown => (item, grown))
      ((schema.plain.appendPacketField id field.plain).map fun grown => (item, grown)) := by
  unfold appendPacketField PacketSchema.Schema.appendPacketField
  rw [schema.packet_plain]
  cases schema.packet? id with
  | none => exact .refused _
  | some packet => exact sound.append_field_matches packet.scope whole item

theorem Sound.append_arm_matches (sound : schema.Sound) (id : ScopeId) (ident : String) (arm : Arm)
    (item : Item) :
    Matches ((schema.appendArm id ident arm).map fun grown => (item, grown))
      ((schema.plain.appendArm id ident arm).map fun grown => (item, grown)) := by
  unfold appendArm PacketSchema.Schema.appendArm ScopeForest.appendArm ScopeForest.field?
  rw [scope_plain]
  cases present : schema.scope? id with
  | none => exact .refused _
  | some scope =>
      have scopeSound := sound.scope present
      simp only [Option.map_some, Option.bind_some, scopeSound.find_plain]
      cases found : scope.find? ident with
      | none => exact .refused _
      | some field =>
          have inside := scopeSound.find_eq_some.mp found
          have whole := scopeSound.fields field inside.1
          cases field with
          | always | optional => exact .refused _
          | union choice =>
              simp only [Option.map_some, Field.plain, Union.Sound.append_plain whole]
              cases extended : choice.append arm with
              | error error => exact .refused error
              | ok grown =>
                  have named : (Field.union grown).ident = ident := by
                    rw [Union.append_eq_ok extended]
                    exact inside.2
                  have grownWhole : (Field.union grown).Sound := Union.Sound.append whole extended
                  have replaced : ∀ other, schema.scope? id = some other →
                      other.Sound ∧ other.find? ident = some (.union choice) := by
                    intro other also
                    rw [present] at also
                    cases also
                    exact ⟨scopeSound, found⟩
                  have changed : (schema.scopes.modify id.index fun other =>
                      other.replace ident (.union grown)).map Scope.plain =
                      (schema.scopes.map Scope.plain).modify id.index fun plain =>
                        { plain with fields := plain.fields.map fun field =>
                            if field.ident = ident then (Field.union grown).plain else field } :=
                    plain_modify fun other also =>
                      (replaced other also).1.plain_replace (replaced other also).2
                  have grownSound : Sound { schema with
                      scopes := schema.scopes.modify id.index fun other =>
                        other.replace ident (.union grown) } :=
                    sound.modify fun other also =>
                      (replaced other also).1.replace (replaced other also).2 named grownWhole
                  have accepted := Matches.accepted item grownSound
                  rw [plain, changed] at accepted
                  exact accepted

theorem Sound.append_child_matches (sound : schema.Sound) (id child : PacketId)
    (condition : Option Condition) (item : Item) :
    Matches ((schema.appendChild id child condition).map fun grown => (item, grown))
      ((schema.plain.appendChild id child condition).map fun grown => (item, grown)) := by
  unfold appendChild PacketSchema.Schema.appendChild
  rw [schema.packet_plain]
  cases found : schema.packet? id with
  | none => exact .refused _
  | some packet =>
      simp only
      cases extended : packet.appendChild child condition with
      | error error => exact .refused error
      | ok grown =>
          have named : grown.ident = packet.ident := by
            unfold Packet.appendChild at extended
            split at extended
            · cases extended
            · cases extended
              rfl
          have kept := map_set_kept found named
          have grownSound : Sound { schema with
              packets := schema.packets.set id.index grown } := by
            refine ⟨?_, sound.scopes⟩
            simp only [kept]
            exact sound.numbers
          exact .accepted item grownSound

theorem Sound.apply_matches (sound : schema.Sound) (mutation : Mutation) :
    Matches (schema.apply mutation) (schema.plain.apply mutation) := by
  cases mutation with
  | createPacketScope parent =>
      rw [apply, PacketSchema.Schema.apply, create_packet_scope_plain]
      exact .accepted _ (sound.create_scope _)
  | createRoot =>
      rw [apply, PacketSchema.Schema.apply, create_scope_plain]
      exact .accepted _ (sound.create_scope none)
  | createChild parent =>
      rw [apply, PacketSchema.Schema.apply, create_scope_plain]
      exact .accepted _ (sound.create_scope (some parent))
  | appendPacket packet =>
      exact (sound.append_packet_matches packet).map Receipt.packet
  | appendPacketField packet field =>
      have same := sound.append_packet_field_matches packet (Field.sound_of_plain field)
        Receipt.done
      rwa [Field.plain_of_plain] at same
  | appendField scope field =>
      have same := sound.append_field_matches scope (Field.sound_of_plain field) Receipt.done
      rwa [Field.plain_of_plain] at same
  | appendArm scope ident arm => exact sound.append_arm_matches scope ident arm Receipt.done
  | appendChild packet child condition =>
      exact sound.append_child_matches packet child condition Receipt.done

/-- What a schema with tables has in common with the one it stands for. -/
structure Represents (schema : Schema) (plain : PacketSchema.Schema) : Prop where
  plain : schema.plain = plain
  sound : schema.Sound

theorem represents_empty : Represents .empty .empty := ⟨rfl, sound_empty⟩

variable {plain : PacketSchema.Schema}

/-- A mutation is answered alike, whether it succeeds or fails. -/
theorem Represents.perform (represents : schema.Represents plain) (mutation : Mutation) :
    (schema.perform mutation).1 = (plain.perform mutation).1 ∧
      (schema.perform mutation).2.Represents (plain.perform mutation).2 := by
  cases represents.plain
  have matched := represents.sound.apply_matches mutation
  unfold Schema.perform PacketSchema.Schema.perform
  generalize schema.apply mutation = answer at matched
  generalize schema.plain.apply mutation = expected at matched
  cases matched with
  | refused error => exact ⟨rfl, represents⟩
  | accepted receipt sound => exact ⟨rfl, rfl, sound⟩

theorem Represents.performAll (represents : schema.Represents plain) (mutations : List Mutation) :
    (schema.performAll mutations).Represents (plain.performAll mutations) := by
  induction mutations generalizing schema plain with
  | nil => exact represents
  | cons mutation rest later => exact later (represents.perform mutation).2

/-- What is asked by identifier is answered from the tables as it is by a search. -/
structure Answers (schema : Schema) (plain : PacketSchema.Schema) : Prop where
  numbers : ∀ ident, schema.packetId? ident = plain.packetId? ident
  packets : ∀ ident, schema.find? ident = plain.find? ident
  lookups : ∀ id ident, plain.forest.lookup id ident =
    (schema.lookup id ident).map fun binding => binding.map fun (id, field) => (id, field.plain)
  fields : ∀ id scope, schema.scope? id = some scope →
    ∃ same, plain.forest.scope? id = some same ∧ ∀ ident,
      same.find? ident = (scope.find? ident).map Field.plain ∧
        same.contains ident = scope.contains ident

theorem Represents.answers (represents : schema.Represents plain) : schema.Answers plain := by
  cases represents.plain
  have sound := represents.sound
  constructor
  · exact fun ident => (sound.packet_id_plain ident).symm
  · intro ident
    rw [find?, ← sound.packet_id_plain, PacketSchema.Schema.find?, PacketSchema.Schema.named?]
    cases schema.plain.packetId? ident with
    | none => rfl
    | some id =>
        rw [Option.bind_some, Option.bind_some, Option.map_map, packet_plain]
        exact Option.map_id'.symm
  · exact sound.lookup_plain
  · intro id scope found
    have whole := sound.scope found
    refine ⟨scope.plain, ?_, fun ident => ⟨whole.find_plain ident, whole.contains_plain ident⟩⟩
    rw [scope_plain, found, Option.map_some]

end Schema

end PacketSchema.Indexed
