import Mathlib.Data.List.Nodup
import PacketSchema.Model.Schema
import PacketSchema.Proofs.Scope.Resolution

/-!
# What the answer of a mutation says

Each mutation of a schema succeeds under one condition and then does one thing. The lemmas read
both off a success; that a failure changes nothing needs no lemma, since no schema comes with it.
Off a refusal they read the reason: what the mutation was about, or that it was asked about what
was never created.
-/

namespace PacketSchema

/-- Where an item takes the place of one that it agrees with in some respect, the whole list stays
as it was in that respect. -/
theorem map_set_kept {Item Part : Type} {part : Item → Part} {items : List Item} {place : Nat}
    {old new : Item} (found : items[place]? = some old) (same : part new = part old) :
    (items.set place new).map part = items.map part := by
  rcases List.getElem?_eq_some_iff.mp found with ⟨bound, present⟩
  have mapped : place < (items.map part).length := by
    rwa [List.length_map]
  have kept : part new = (items.map part)[place] := by
    rw [List.getElem_map, present, same]
  rw [List.map_set, kept]
  exact List.set_getElem_self mapped

/-- One more item, different from all others in the respect in which they differ already. -/
theorem nodup_map_concat {Item Part : Type} {part : Item → Part} {items : List Item} {item : Item}
    (distinct : (items.map part).Nodup) (new : ∀ present ∈ items, part present ≠ part item) :
    ((items ++ [item]).map part).Nodup := by
  rw [List.map_append, List.map_singleton]
  refine List.nodup_append.mpr ⟨distinct, List.nodup_singleton _, ?_⟩
  intro first listed last only
  obtain ⟨present, member, rfl⟩ := List.mem_map.mp listed
  rw [List.mem_singleton.mp only]
  exact new present member

namespace Schema

variable {schema grown : Schema} {id child : PacketId} {packet : Packet} {scope : ScopeId}
  {field : Field}

theorem mem_of_packet (found : schema.packet? id = some packet) : packet ∈ schema.packets :=
  List.mem_of_getElem? found

theorem named_eq_some {name : String} (named : schema.named? name = some (id, packet)) :
    schema.packet? id = some packet ∧ packet.ident = name := by
  rcases Option.bind_eq_some_iff.mp named with ⟨number, numbered, located⟩
  rcases Option.map_eq_some_iff.mp located with ⟨record, found, same⟩
  cases same
  refine ⟨found, ?_⟩
  rcases Option.map_eq_some_iff.mp numbered with ⟨index, first, rfl⟩
  rcases List.findIdx?_eq_some_iff_getElem.mp first with ⟨bound, here, _⟩
  rw [packet?, List.getElem?_eq_getElem bound] at found
  cases found
  exact eq_of_beq here

theorem append_field_eq_ok (accepted : schema.appendField scope field = .ok grown) :
    schema.forest.append scope field = .ok grown.forest ∧ grown.packets = schema.packets := by
  unfold appendField at accepted
  split at accepted
  · simp at accepted
  next forest appended =>
    cases accepted
    exact ⟨appended, rfl⟩

theorem append_arm_eq_ok {ident : String} {arm : Arm}
    (accepted : schema.appendArm scope ident arm = .ok grown) :
    schema.forest.appendArm scope ident arm = .ok grown.forest ∧
      grown.packets = schema.packets := by
  unfold appendArm at accepted
  split at accepted
  · simp at accepted
  next forest appended =>
    cases accepted
    exact ⟨appended, rfl⟩

theorem append_packet_eq_ok (accepted : schema.appendPacket packet = .ok (id, grown)) :
    (∀ present ∈ schema.packets, present.ident ≠ packet.ident) ∧
      id = ⟨schema.packets.length⟩ ∧ grown = ⟨schema.packets ++ [packet], schema.forest⟩ := by
  unfold appendPacket at accepted
  split at accepted
  · simp at accepted
  next absent =>
    cases accepted
    refine ⟨?_, rfl, rfl⟩
    simpa using absent

theorem append_child_eq_ok {condition : Option Condition}
    (accepted : schema.appendChild id child condition = .ok grown) :
    ∃ parent, schema.packet? id = some parent ∧
      (∀ present ∈ parent.children, present.condition ≠ condition) ∧
      grown = ⟨schema.packets.set id.index
        { parent with children := parent.children ++ [⟨child, condition⟩] }, schema.forest⟩ := by
  unfold appendChild at accepted
  split at accepted
  · simp at accepted
  next parent found =>
    cases extended : parent.appendChild child condition with
    | error reason => simp [extended] at accepted
    | ok record =>
        simp only [extended, Except.ok.injEq] at accepted
        unfold Packet.appendChild at extended
        split at extended
        · simp at extended
        next absent =>
          cases extended
          exact ⟨parent, found, by simpa using absent, accepted.symm⟩

/-- A link changes the edges of the parent and nothing else. -/
theorem link_spec {condition : Option Condition} {parent : Packet}
    (accepted : schema.appendChild id child condition = .ok grown)
    (found : schema.packet? id = some parent) :
    grown.forest = schema.forest ∧ grown.packets.length = schema.packets.length ∧
      grown.packet? id = some { parent with children := parent.children ++ [⟨child, condition⟩] } ∧
      ∀ other, other ≠ id → grown.packet? other = schema.packet? other := by
  rcases append_child_eq_ok accepted with ⟨present, here, _, rfl⟩
  rw [found] at here
  cases here
  have bound := (List.getElem?_eq_some_iff.mp found).1
  refine ⟨rfl, List.length_set, List.getElem?_set_self bound, ?_⟩
  intro other different
  apply List.getElem?_set_ne
  intro same
  cases id
  cases other
  exact different (congrArg PacketId.mk same).symm

/-- What is said of packets without their edges stays as it is when one is linked. -/
theorem packets_map_linked {Item : Type} {condition : Option Condition} (part : Packet → Item)
    (blind : ∀ packet children, part { packet with children } = part packet)
    (accepted : schema.appendChild id child condition = .ok grown) :
    grown.packets.map part = schema.packets.map part := by
  rcases append_child_eq_ok accepted with ⟨present, here, _, rfl⟩
  exact map_set_kept here (blind present _)

end Schema

variable {error : SchemaError}

theorem Union.append_eq_error {choice : Union} {arm : Arm}
    (refused : choice.append arm = .error error) :
    ∃ conflict, error = .armRefused choice.ident conflict := by
  unfold append at refused
  split at refused
  next conflict _ =>
    cases refused
    exact ⟨conflict, rfl⟩
  · cases refused

namespace ScopeForest

variable {forest : ScopeForest} {scope : ScopeId} {ident : String}

theorem first_binding_eq_error {ids : List ScopeId}
    (refused : forest.firstBinding ident ids = .error error) :
    ∃ id, error = .unissuedScope id := by
  induction ids with
  | nil => cases refused
  | cons id rest further =>
      rw [firstBinding] at refused
      split at refused
      · cases refused
        exact ⟨id, rfl⟩
      · split at refused
        · cases refused
        · exact further refused

theorem resolve_eq_error (refused : forest.resolve scope ident = .error error) :
    (∃ id, error = .unissuedScope id) ∨ ∃ reason, error = .unresolvedReference ident reason := by
  unfold resolve at refused
  split at refused
  next unanswered =>
    cases refused
    exact .inl (first_binding_eq_error unanswered)
  next =>
    cases refused
    exact .inr ⟨_, rfl⟩
  next => cases refused
  next =>
    cases refused
    exact .inr ⟨_, rfl⟩

theorem append_eq_error {field : Field} (refused : forest.append scope field = .error error) :
    (∃ id, error = .unissuedScope id) ∨ error = .fieldRedefined field.ident := by
  unfold append at refused
  split at refused
  next unanswered =>
    cases refused
    exact .inl (first_binding_eq_error unanswered)
  next =>
    cases refused
    exact .inr rfl
  next => cases refused

theorem append_arm_eq_error {arm : Arm}
    (refused : forest.appendArm scope ident arm = .error error) :
    error = .unknownUnion scope ident ∨ ∃ conflict, error = .armRefused ident conflict := by
  unfold appendArm at refused
  split at refused
  next choice declared =>
    obtain ⟨present, _, found⟩ := Option.bind_eq_some_iff.mp declared
    have named : choice.ident = ident := Scope.ident_of_find found
    cases taken : choice.append arm with
    | error reason =>
        rw [taken] at refused
        cases refused
        rw [← named]
        exact .inr (Union.append_eq_error taken)
    | ok grown =>
        rw [taken] at refused
        cases refused
  next =>
    cases refused
    exact .inl rfl

end ScopeForest

namespace Schema

variable {schema : Schema} {scope : ScopeId}

theorem append_field_eq_error {field : Field}
    (refused : schema.appendField scope field = .error error) :
    (∃ id, error = .unissuedScope id) ∨ error = .fieldRedefined field.ident := by
  unfold appendField at refused
  split at refused
  next reason rejected =>
    cases refused
    exact ScopeForest.append_eq_error rejected
  next => cases refused

theorem append_arm_eq_error {ident : String} {arm : Arm}
    (refused : schema.appendArm scope ident arm = .error error) :
    error = .unknownUnion scope ident ∨ ∃ conflict, error = .armRefused ident conflict := by
  unfold appendArm at refused
  split at refused
  next reason rejected =>
    cases refused
    exact ScopeForest.append_arm_eq_error rejected
  next => cases refused

theorem append_packet_eq_error {packet : Packet}
    (refused : schema.appendPacket packet = .error error) :
    error = .packetRedefined packet.ident := by
  unfold appendPacket at refused
  split at refused
  · exact (Except.error.inj refused).symm
  · cases refused

/-- An edge from a packet that is there is refused for one reason. -/
theorem append_child_conflict {id child : PacketId} {condition : Option Condition} {parent : Packet}
    (refused : schema.appendChild id child condition = .error error)
    (found : schema.packet? id = some parent) :
    error = .dispatchConflict parent.ident condition := by
  unfold appendChild at refused
  rw [found] at refused
  simp only [Packet.appendChild] at refused
  split at refused
  next reason rejected =>
    split at rejected
    · cases rejected
      cases refused
      rfl
    · cases rejected
  next => cases refused

theorem append_child_eq_error {id child : PacketId} {condition : Option Condition}
    (refused : schema.appendChild id child condition = .error error) :
    error = .unissuedPacket id ∨ ∃ parent, error = .dispatchConflict parent condition := by
  cases found : schema.packet? id with
  | none =>
      rw [appendChild, found] at refused
      cases refused
      exact .inl rfl
  | some parent => exact .inr ⟨parent.ident, append_child_conflict refused found⟩

end Schema

end PacketSchema
