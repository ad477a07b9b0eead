import PacketSchema.InPlace
import PacketSchema.Proofs.Session.Consistency

/-!
# Mutations that leave no trace when they fail

A change in place that fails could leave part of its work behind: a label without its arm, a place
without its field. None does. Each mutator settles the answer of the function that it stands for:
it writes all of the new state or, refused, nothing at all. That passes from a part to the whole
it is changed in, so a refused mutation leaves the schema with its tables as it was, and whatever
comes after is answered as if the mutation had never been made.
-/

namespace PacketSchema.Indexed

namespace Change

variable {State Part Item Result : Type} {change : Change State Item} {before : State}

/-- What a change comes to that writes everything an answer says, or else nothing. -/
def settled (before : State) :
    Except SchemaError (Item × State) → EStateM.Result SchemaError State Item
  | .error error => .error error before
  | .ok (item, after) => .ok item after

theorem run_read (next : State → Change State Item) (before : State) :
    (get >>= next).run before = (next before).run before :=
  rfl

theorem run_within (part : Part) (put : State → Part → State) (inner : Change Part Item)
    (before : State) :
    (within part put inner).run before =
      match inner.run part with
      | .ok item changed => .ok item (put before changed)
      | .error error changed => .error error (put before changed) :=
  rfl

/-- A change of a part settles the whole, if to put back an unchanged part changes nothing. -/
theorem within_settled {part : Part} {put : State → Part → State} {inner : Change Part Item}
    {answer : Except SchemaError (Item × Part)} (settles : inner.run part = settled part answer)
    (same : put before part = before) :
    (within part put inner).run before =
      settled before (answer.map fun (item, changed) => (item, put before changed)) := by
  rw [run_within, settles]
  cases answer with
  | error error => exact congrArg (EStateM.Result.error error) same
  | ok outcome => rfl

/-- What follows a change and only hands something else out. -/
theorem map_settled {answer : Except SchemaError (Item × State)} (hand : Item → Result)
    (settles : change.run before = settled before answer) :
    (change >>= fun item => pure (hand item)).run before =
      settled before (answer.map fun (item, after) => (hand item, after)) := by
  rw [EStateM.run_bind, settles]
  cases answer <;> rfl

theorem done_settled {change : Change State Unit} {answer : Except SchemaError State}
    (settles : change.run before = settled before (answer.map fun grown => ((), grown)))
    (receipt : Result) :
    (change >>= fun _ => pure receipt).run before =
      settled before (answer.map fun grown => (receipt, grown)) := by
  rw [map_settled (fun _ => receipt) settles]
  cases answer <;> rfl

end Change

open Change (settled run_read within_settled map_settled done_settled)

theorem Union.take_arm_settled (union : Union) (arm : Arm) :
    (takeArm arm).run union = settled union ((union.append arm).map fun grown => ((), grown)) := by
  cases conflict : union.conflict? arm with
  | some reason => simp [takeArm, append, conflict, settled, Except.map]
  | none => simp [takeArm, append, conflict, settled, Except.map]

theorem Scope.add_field_settled (scope : Scope) (field : Field) :
    (addField field).run scope = settled scope (.ok ((), scope.append field)) := by
  simp [addField, append, settled]

theorem Scope.put_union_same {scope : Scope} {place : Nat} {choice : Union}
    (here : scope.fields[place]? = some (.union choice)) : scope.putUnion place choice = scope := by
  obtain ⟨bound, same⟩ := List.getElem?_eq_some_iff.mp here
  rw [putUnion, ← same, List.set_getElem_self]

/-- An arm that is refused leaves the union as it was, and with it the scope that holds it. -/
theorem Scope.take_arm_settled (scope : Scope) (absent : SchemaError) (ident : String)
    (arm : Arm) :
    (takeArm absent ident arm).run scope =
      settled scope
        (match scope.find? ident with
        | some (.union choice) =>
            (choice.append arm).map fun grown => ((), scope.replace ident (.union grown))
        | _ => .error absent) := by
  unfold takeArm
  rw [run_read]
  cases entered : scope.places.find? ident with
  | none => simp [find?, entered, settled]
  | some place =>
      cases here : scope.fields[place]? with
      | none => simp [find?, entered, here, settled]
      | some field =>
          cases field with
          | always _ _ | optional _ _ _ => simp [find?, entered, here, settled]
          | union choice =>
              simp only [find?, entered, here, Option.bind_some, replace]
              rw [within_settled (choice.take_arm_settled arm) (put_union_same here)]
              cases choice.append arm <;> rfl

theorem add_edge_settled (packet : Packet) (child : PacketId) (condition : Option Condition) :
    (addEdge child condition).run packet =
      settled packet ((packet.appendChild child condition).map fun grown => ((), grown)) := by
  unfold addEdge Packet.appendChild
  rw [run_read]
  by_cases taken : (packet.children.any fun present => present.condition = condition) = true
  · rw [if_pos taken, if_pos taken]
    rfl
  · rw [if_neg taken, if_neg taken]
    rfl

namespace Schema

variable {schema : Schema}

theorem put_scope_same {id : ScopeId} {scope : Scope} (here : schema.scope? id = some scope) :
    schema.putScope id scope = schema := by
  obtain ⟨bound, same⟩ := List.getElem?_eq_some_iff.mp here
  rw [putScope, ← same, List.set_getElem_self]

theorem put_packet_same {id : PacketId} {packet : Packet}
    (here : schema.packet? id = some packet) : schema.putPacket id packet = schema := by
  obtain ⟨bound, same⟩ := List.getElem?_eq_some_iff.mp here
  rw [putPacket, ← same, List.set_getElem_self]

theorem put_scope_modify {id : ScopeId} {scope : Scope} (here : schema.scope? id = some scope)
    (update : Scope → Scope) :
    schema.putScope id (update scope) =
      { schema with scopes := schema.scopes.modify id.index update } := by
  rw [putScope, List.modify_eq_set_getElem?]
  simp only [scope?] at here
  simp [here]

theorem with_scope_settled {id : ScopeId} {absent : SchemaError} {scope : Scope}
    {change : Change Scope Unit} {answer : Except SchemaError (Unit × Scope)}
    (here : schema.scope? id = some scope) (settles : change.run scope = settled scope answer) :
    (withScope id absent change).run schema =
      settled schema (answer.map fun (item, changed) => (item, schema.putScope id changed)) := by
  rw [withScope, run_read]
  simp only [here]
  exact within_settled settles (put_scope_same here)

/-- A look-up reads the scope it starts from first, so where it answers the scope is there. -/
theorem scope_of_lookup {id : ScopeId} {ident : String} {binding : Option (ScopeId × Field)}
    (seen : schema.lookup id ident = .ok binding) : ∃ scope, schema.scope? id = some scope := by
  cases here : schema.scope? id with
  | some scope => exact ⟨scope, rfl⟩
  | none =>
      rw [lookup, ScopeForest.lineage, ScopeForest.lineageWithin, firstBinding, here] at seen
      cases seen

theorem add_field_settled (schema : Schema) (id : ScopeId) (field : Field) :
    (addField id field).run schema =
      settled schema ((schema.appendField id field).map fun grown => ((), grown)) := by
  rw [addField, run_read, appendField]
  cases seen : schema.lookup id field.ident with
  | error error => rfl
  | ok binding =>
      cases binding with
      | some _ => rfl
      | none =>
          obtain ⟨scope, here⟩ := scope_of_lookup seen
          simp only [Except.map]
          rw [with_scope_settled here (scope.add_field_settled field)]
          exact congrArg (EStateM.Result.ok ())
            (put_scope_modify here fun scope => scope.append field)

theorem add_packet_field_settled (schema : Schema) (id : PacketId) (field : Field) :
    (addPacketField id field).run schema =
      settled schema ((schema.appendPacketField id field).map fun grown => ((), grown)) := by
  rw [addPacketField, run_read, appendPacketField]
  cases schema.packet? id with
  | none => rfl
  | some packet => exact schema.add_field_settled packet.scope field

theorem take_arm_settled (schema : Schema) (id : ScopeId) (ident : String) (arm : Arm) :
    (takeArm id ident arm).run schema =
      settled schema ((schema.appendArm id ident arm).map fun grown => ((), grown)) := by
  rw [takeArm, appendArm]
  cases here : schema.scope? id with
  | none =>
      rw [withScope, run_read]
      simp only [here]
      rfl
  | some scope =>
      rw [with_scope_settled here (scope.take_arm_settled _ ident arm), Option.bind_some]
      cases scope.find? ident with
      | none => rfl
      | some field =>
          cases field with
          | always _ _ | optional _ _ _ => rfl
          | union choice =>
              dsimp only
              cases choice.append arm with
              | error error => rfl
              | ok grown =>
                  exact congrArg (EStateM.Result.ok ())
                    (put_scope_modify here fun scope => scope.replace ident (.union grown))

theorem link_settled (schema : Schema) (id child : PacketId) (condition : Option Condition) :
    (withPacket id (addEdge child condition)).run schema =
      settled schema ((schema.appendChild id child condition).map fun grown => ((), grown)) := by
  rw [withPacket, run_read, appendChild]
  cases here : schema.packet? id with
  | none => rfl
  | some packet =>
      dsimp only
      rw [within_settled (add_edge_settled packet child condition) (put_packet_same here)]
      cases packet.appendChild child condition <;> rfl

theorem add_packet_settled (schema : Schema) (packet : Packet) :
    (addPacket packet).run schema = settled schema (schema.appendPacket packet) := by
  unfold addPacket appendPacket
  rw [run_read]
  by_cases taken : (schema.packetId? packet.ident).isSome = true
  · rw [if_pos taken, if_pos taken]
    rfl
  · rw [if_neg taken, if_neg taken]
    rfl

theorem change_settled (schema : Schema) (mutation : Mutation) :
    (change mutation).run schema = settled schema (schema.apply mutation) := by
  cases mutation with
  | createPacketScope parent | createRoot | createChild parent => rfl
  | appendPacket packet => exact map_settled Receipt.packet (schema.add_packet_settled packet)
  | appendPacketField packet field =>
      exact done_settled (schema.add_packet_field_settled packet (.ofPlain field)) Receipt.done
  | appendField scope field =>
      exact done_settled (schema.add_field_settled scope (.ofPlain field)) Receipt.done
  | appendArm scope ident arm =>
      exact done_settled (schema.take_arm_settled scope ident arm) Receipt.done
  | appendChild packet child condition =>
      exact done_settled (schema.link_settled packet child condition) Receipt.done

/-- Made in place, a mutation is what it is as a function: above all, what fails writes nothing. -/
theorem mutate_eq_perform (schema : Schema) (mutation : Mutation) :
    schema.mutate mutation = schema.perform mutation := by
  rw [mutate, change_settled, perform]
  cases schema.apply mutation <;> rfl

theorem mutate_all_eq (schema : Schema) (mutations : List Mutation) :
    (schema.mutateAll mutations).2 = schema.performAll mutations := by
  induction mutations generalizing schema with
  | nil => rfl
  | cons mutation rest later =>
      rw [mutateAll, mutate_eq_perform]
      exact later (schema.perform mutation).2

theorem mutate_of_refused {mutation : Mutation} {error : SchemaError}
    (refused : (schema.mutate mutation).1 = .error error) :
    schema.mutate mutation = (.error error, schema) := by
  rw [mutate_eq_perform, perform] at refused ⊢
  cases answered : schema.apply mutation with
  | error reason =>
      rw [answered] at refused
      cases refused
      rfl
  | ok outcome =>
      rw [answered] at refused
      cases refused

/-- A schema with tables that was made from nothing into what a session starts from, and then went
through the session. -/
def Serves (schema : Schema) (start : PacketSchema.Schema) (mutations : List Mutation) : Prop :=
  ∃ building, start = PacketSchema.Schema.empty.performAll building ∧
    schema = (empty.mutateAll (building ++ mutations)).2

theorem Serves.represents {start : PacketSchema.Schema} {mutations : List Mutation}
    (serves : schema.Serves start mutations) :
    schema.Represents (start.performAll mutations) := by
  obtain ⟨building, rfl, rfl⟩ := serves
  rw [mutate_all_eq, ← PacketSchema.Schema.perform_all_append]
  exact represents_empty.performAll (building ++ mutations)

/-- A mutation that is refused, at any point of a session and with any numbers in it, leaves the
schema and its tables as they were, so all that follows is answered as without it. The answers
are those of the schema without tables. -/
theorem refused_mutation_leaves_no_trace {start : PacketSchema.Schema} (opens : start.Opens)
    (earlier : List Mutation) :
    (∃ schema : Schema, schema.Serves start earlier) ∧
      ∀ schema : Schema, schema.Serves start earlier →
        schema.plain = start.performAll earlier ∧
        ∀ mutation,
          (schema.mutate mutation).1 = ((start.performAll earlier).perform mutation).1 ∧
          ∀ error, (schema.mutate mutation).1 = .error error →
            (schema.mutate mutation).2 = schema ∧
            ∀ further, schema.mutateAll (mutation :: further) =
              (.error error :: (schema.mutateAll further).1, (schema.mutateAll further).2) := by
  obtain ⟨building, built⟩ := opens.built
  refine ⟨⟨_, building, built, rfl⟩, ?_⟩
  intro schema serves
  have represents := serves.represents
  refine ⟨represents.plain, fun mutation => ⟨?agree, fun error refused => ?trace⟩⟩
  case agree =>
    rw [mutate_eq_perform]
    exact (represents.perform mutation).1
  case trace =>
    have same := mutate_of_refused refused
    exact ⟨congrArg Prod.snd same, fun further => by rw [mutateAll, same]⟩

/-- A union whose arm has the label `X` and the value one. -/
def oneArmText : String := "A" ++ braced ("variable v" ++ braced ("otherwise|X:1|" ++ braced ""))

/-- An arm with a new label and the value that is taken, which is checked last. -/
def valueTaken : Mutation := .appendArm ⟨0⟩ "v" ⟨some (.integer 0), ⟨"Y", 1⟩, ⟨9⟩⟩

/-- The same label with another value. -/
def labelAgain : Mutation := .appendArm ⟨0⟩ "v" ⟨some (.integer 0), ⟨"Y", 2⟩, ⟨9⟩⟩

theorem value_taken_leaves_no_trace :
    ∃ (compilation : Compilation) (schema : Schema),
      compile false oneArmText = .ok compilation ∧
      schema.Serves compilation.schema [.createRoot] ∧
      schema.mutate valueTaken = (.error (.armRefused "v" (.repeatedValue 1)), schema) ∧
      (schema.mutateAll [valueTaken, labelAgain]).1 =
        [.error (.armRefused "v" (.repeatedValue 1)), .ok .done] := by
  have passed : (compile false oneArmText).toOption.any (fun compilation =>
      decide (((compilation.schema.performAll [.createRoot]).perform valueTaken).1 =
          .error (.armRefused "v" (.repeatedValue 1)) ∧
        ((compilation.schema.performAll [.createRoot]).perform labelAgain).1 = .ok .done)) =
      true := by decide +kernel
  obtain ⟨compilation, compiled, answers⟩ := exists_compiled passed
  obtain ⟨refusal, acceptance⟩ := of_decide_eq_true answers
  obtain ⟨⟨schema, serves⟩, traceless⟩ :=
    refused_mutation_leaves_no_trace (.compiled compiled) [.createRoot]
  obtain ⟨_, mutations⟩ := traceless schema serves
  have refused := (mutations valueTaken).1.trans refusal
  have accepted := (mutations labelAgain).1.trans acceptance
  obtain ⟨same, later⟩ := (mutations valueTaken).2 _ refused
  refine ⟨compilation, schema, compiled, serves, Prod.ext refused same, ?_⟩
  rw [later]
  exact congrArg
    (fun answer => [.error (.armRefused "v" (.repeatedValue 1)), answer]) accepted

end Schema

end PacketSchema.Indexed
