import PacketSchema.Model.Scope

/-!
Packets and the schema that owns them. A derived packet keeps its parent and the condition on the
parent's fields that selects it, and the parent keeps an edge to each packet derived from it; the
scope of a derived packet is a child of its parent's scope. Everything only ever grows at its
end, and what refuses a change changes nothing.
-/

namespace PacketSchema

structure Child where
  packet : PacketId
  condition : Option Condition
deriving DecidableEq, Repr

structure Packet where
  ident : String
  parent : Option PacketId
  condition : Option Condition
  scope : ScopeId
  children : List Child
deriving DecidableEq, Repr

namespace Packet

def root (ident : String) (scope : ScopeId) : Packet := ⟨ident, none, none, scope, []⟩

def derived (ident : String) (parent : PacketId) (condition : Option Condition) (scope : ScopeId) :
    Packet :=
  ⟨ident, some parent, condition, scope, []⟩

/-- Adds an edge. Two edges with one condition, or two without any, would leave open which of
their packets is meant. -/
def appendChild (packet : Packet) (child : PacketId) (condition : Option Condition) :
    Except SchemaError Packet :=
  if packet.children.any fun present => present.condition = condition then
    .error (.dispatchConflict packet.ident condition)
  else .ok { packet with children := packet.children ++ [⟨child, condition⟩] }

end Packet

structure Schema where
  packets : List Packet
  forest : ScopeForest
deriving DecidableEq, Repr

namespace Schema

def empty : Schema := ⟨[], .empty⟩

def packet? (schema : Schema) (id : PacketId) : Option Packet := schema.packets[id.index]?

def packet (schema : Schema) (id : PacketId) : Except SchemaError Packet :=
  match schema.packet? id with
  | none => .error (.unissuedPacket id)
  | some packet => .ok packet

def packetId? (schema : Schema) (ident : String) : Option PacketId :=
  (schema.packets.findIdx? fun packet => packet.ident == ident).map PacketId.mk

def named? (schema : Schema) (ident : String) : Option (PacketId × Packet) :=
  (schema.packetId? ident).bind fun id => (schema.packet? id).map fun packet => (id, packet)

def find? (schema : Schema) (ident : String) : Option Packet := (schema.named? ident).map Prod.snd

def numbered (schema : Schema) : List (PacketId × Packet) :=
  schema.packets.zipIdx.map fun (packet, index) => (⟨index⟩, packet)

def ancestorsWithin (schema : Schema) : Nat → PacketId → Except SchemaError (List PacketId)
  | 0, id => .error (.selfDerived id)
  | steps + 1, id =>
      match schema.packet? id with
      | none => .error (.unissuedPacket id)
      | some packet =>
          match packet.parent with
          | none => .ok []
          | some parent =>
              match schema.ancestorsWithin steps parent with
              | .error error => .error error
              | .ok rest => .ok (parent :: rest)

def ancestors (schema : Schema) (id : PacketId) : Except SchemaError (List PacketId) :=
  schema.ancestorsWithin (schema.packets.length + 1) id

/-- Creates a scope, a root or below another one; the number of that one is taken as it is. -/
def createScope (schema : Schema) (parent : Option ScopeId) : ScopeId × Schema :=
  let (id, forest) := schema.forest.create parent
  (id, { schema with forest })

/-- Creates the scope of a packet's body: below the parent packet's scope, or a root where there
is no such parent. -/
def createPacketScope (schema : Schema) (parent : Option PacketId) : ScopeId × Schema :=
  schema.createScope ((parent.bind schema.packet?).map Packet.scope)

/-- Registers a packet; its number is the next one. -/
def appendPacket (schema : Schema) (packet : Packet) : Except SchemaError (PacketId × Schema) :=
  if schema.packets.any fun present => present.ident = packet.ident then
    .error (.packetRedefined packet.ident)
  else .ok (⟨schema.packets.length⟩, { schema with packets := schema.packets ++ [packet] })

def appendField (schema : Schema) (scope : ScopeId) (field : Field) : Except SchemaError Schema :=
  match schema.forest.append scope field with
  | .error error => .error error
  | .ok forest => .ok { schema with forest }

def appendPacketField (schema : Schema) (id : PacketId) (field : Field) :
    Except SchemaError Schema :=
  match schema.packet? id with
  | none => .error (.unissuedPacket id)
  | some packet => schema.appendField packet.scope field

def appendArm (schema : Schema) (scope : ScopeId) (ident : String) (arm : Arm) :
    Except SchemaError Schema :=
  match schema.forest.appendArm scope ident arm with
  | .error error => .error error
  | .ok forest => .ok { schema with forest }

/-- Adds an edge from a packet to one derived from it; the derived one is not looked at. -/
def appendChild (schema : Schema) (id child : PacketId) (condition : Option Condition) :
    Except SchemaError Schema :=
  match schema.packet? id with
  | none => .error (.unissuedPacket id)
  | some packet =>
      match packet.appendChild child condition with
      | .error error => .error error
      | .ok grown => .ok { schema with packets := schema.packets.set id.index grown }

end Schema

end PacketSchema
