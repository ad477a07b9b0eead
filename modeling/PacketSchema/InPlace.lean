import PacketSchema.Indexed

/-!
The mutations of a schema with tables, made in place. A change reads and writes one state, step by
step and in order, and nothing takes back what it wrote before it fails: that a refused mutation
leaves the schema as it was is up to the order of its checks and its writes. A scope is changed
inside its schema, a union inside its scope and a packet inside its schema, and whatever such an
inner change leaves behind is what the outer state holds from then on.
-/

namespace PacketSchema.Indexed

/-- A change in place. An error comes with the state that was reached, whatever that is. -/
abbrev Change (State Item : Type) : Type := EStateM SchemaError State Item

namespace Change

def within {State Part Item : Type} (part : Part) (put : State → Part → State)
    (change : Change Part Item) : Change State Item := fun state =>
  match change.run part with
  | .ok item changed => .ok item (put state changed)
  | .error error changed => .error error (put state changed)

end Change

/-- Takes an arm. The order of the checks is that of the causes: condition, label, value. -/
def Union.takeArm (arm : Arm) : Change Union Unit := do
  let union ← get
  if let some conflict := union.conflict? arm then
    throw (.armRefused union.ident conflict)
  modify fun union => { union with labels := arm.tag.label :: union.labels }
  modify fun union => { union with values := arm.tag.value :: union.values }
  modify fun union => { union with arms := union.arms ++ [arm] }

namespace Scope

def addField (field : Field) : Change Scope Unit := do
  modify fun scope =>
    { scope with places := scope.places.insert field.ident scope.fields.length }
  modify fun scope => { scope with fields := scope.fields ++ [field] }

def putUnion (place : Nat) (scope : Scope) (choice : Union) : Scope :=
  { scope with fields := scope.fields.set place (.union choice) }

def takeArm (absent : SchemaError) (ident : String) (arm : Arm) : Change Scope Unit := do
  let scope ← get
  match scope.places.find? ident with
  | none => throw absent
  | some place =>
      match scope.fields[place]? with
      | some (.union choice) => Change.within choice (putUnion place) (Union.takeArm arm)
      | _ => throw absent

end Scope

def addEdge (child : PacketId) (condition : Option Condition) : Change Packet Unit := do
  let packet ← get
  if packet.children.any fun present => present.condition = condition then
    throw (.dispatchConflict packet.ident condition)
  modify fun packet => { packet with children := packet.children ++ [⟨child, condition⟩] }

namespace Schema

def putScope (id : ScopeId) (schema : Schema) (scope : Scope) : Schema :=
  { schema with scopes := schema.scopes.set id.index scope }

def putPacket (id : PacketId) (schema : Schema) (packet : Packet) : Schema :=
  { schema with packets := schema.packets.set id.index packet }

def withScope (id : ScopeId) (absent : SchemaError) (change : Change Scope Unit) :
    Change Schema Unit := do
  let schema ← get
  match schema.scope? id with
  | none => throw absent
  | some scope => Change.within scope (putScope id) change

def withPacket (id : PacketId) (change : Change Packet Unit) : Change Schema Unit := do
  let schema ← get
  match schema.packet? id with
  | none => throw (.unissuedPacket id)
  | some packet => Change.within packet (putPacket id) change

def openScope (parent : Option ScopeId) : Change Schema ScopeId := do
  let schema ← get
  modify fun schema => { schema with scopes := schema.scopes ++ [⟨parent, [], .empty⟩] }
  return ⟨schema.scopes.length⟩

def openPacketScope (parent : Option PacketId) : Change Schema ScopeId := do
  let schema ← get
  openScope ((parent.bind schema.packet?).map Packet.scope)

def addPacket (packet : Packet) : Change Schema PacketId := do
  let schema ← get
  if (schema.packetId? packet.ident).isSome then
    throw (.packetRedefined packet.ident)
  let id : PacketId := ⟨schema.packets.length⟩
  modify fun schema => { schema with numbers := schema.numbers.insert packet.ident id }
  modify fun schema => { schema with packets := schema.packets ++ [packet] }
  return id

def addField (id : ScopeId) (field : Field) : Change Schema Unit := do
  let schema ← get
  match schema.lookup id field.ident with
  | .error error => throw error
  | .ok (some _) => throw (.fieldRedefined field.ident)
  | .ok none => withScope id (.unissuedScope id) (Scope.addField field)

def addPacketField (id : PacketId) (field : Field) : Change Schema Unit := do
  let schema ← get
  match schema.packet? id with
  | none => throw (.unissuedPacket id)
  | some packet => addField packet.scope field

def takeArm (id : ScopeId) (ident : String) (arm : Arm) : Change Schema Unit :=
  withScope id (.unknownUnion id ident) (Scope.takeArm (.unknownUnion id ident) ident arm)

def change : Mutation → Change Schema Receipt
  | .createPacketScope parent => return .scope (← openPacketScope parent)
  | .createRoot => return .scope (← openScope none)
  | .createChild parent => return .scope (← openScope (some parent))
  | .appendPacket packet => return .packet (← addPacket packet)
  | .appendPacketField packet field => do
      addPacketField packet (.ofPlain field)
      return .done
  | .appendField scope field => do
      addField scope (.ofPlain field)
      return .done
  | .appendArm scope ident arm => do
      takeArm scope ident arm
      return .done
  | .appendChild packet child condition => do
      withPacket packet (addEdge child condition)
      return .done

/-- The answer to a mutation made in place, and what it leaves. -/
def mutate (schema : Schema) (mutation : Mutation) : Except SchemaError Receipt × Schema :=
  match (change mutation).run schema with
  | .ok receipt left => (.ok receipt, left)
  | .error error left => (.error error, left)

/-- The answers to several mutations, one made on what the other leaves, and what is left in the
end. -/
def mutateAll (schema : Schema) : List Mutation → List (Except SchemaError Receipt) × Schema
  | [] => ([], schema)
  | mutation :: rest =>
      let (answer, left) := schema.mutate mutation
      let (answers, last) := left.mutateAll rest
      (answer :: answers, last)

end Schema

end PacketSchema.Indexed
