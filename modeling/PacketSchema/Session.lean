import PacketSchema.Model.Schema

/-!
Growing a schema by hand, one mutation after another. A mutation either succeeds, and then hands
out the number it issued if it issued one, or leaves the schema as it was.
-/

namespace PacketSchema

inductive Mutation where
  | createPacketScope (parent : Option PacketId)
  | createRoot
  | createChild (parent : ScopeId)
  | appendPacket (packet : Packet)
  | appendPacketField (packet : PacketId) (field : Field)
  | appendField (scope : ScopeId) (field : Field)
  | appendArm (scope : ScopeId) (ident : String) (arm : Arm)
  | appendChild (packet child : PacketId) (condition : Option Condition)
deriving DecidableEq, Repr

inductive Receipt where
  | done
  | scope (id : ScopeId)
  | packet (id : PacketId)
deriving DecidableEq, Repr

namespace Schema

def apply (schema : Schema) : Mutation → Except SchemaError (Receipt × Schema)
  | .createPacketScope parent =>
      let (id, grown) := schema.createPacketScope parent
      .ok (.scope id, grown)
  | .createRoot =>
      let (id, grown) := schema.createScope none
      .ok (.scope id, grown)
  | .createChild parent =>
      let (id, grown) := schema.createScope (some parent)
      .ok (.scope id, grown)
  | .appendPacket packet =>
      (schema.appendPacket packet).map fun (id, grown) => (.packet id, grown)
  | .appendPacketField packet field =>
      (schema.appendPacketField packet field).map fun grown => (.done, grown)
  | .appendField scope field => (schema.appendField scope field).map fun grown => (.done, grown)
  | .appendArm scope ident arm =>
      (schema.appendArm scope ident arm).map fun grown => (.done, grown)
  | .appendChild packet child condition =>
      (schema.appendChild packet child condition).map fun grown => (.done, grown)

def perform (schema : Schema) (mutation : Mutation) : Except SchemaError Receipt × Schema :=
  match schema.apply mutation with
  | .error error => (.error error, schema)
  | .ok (receipt, grown) => (.ok receipt, grown)

def performAll (schema : Schema) (mutations : List Mutation) : Schema :=
  mutations.foldl (fun current mutation => (current.perform mutation).2) schema

end Schema

end PacketSchema
