import PacketSchema.Session

/-!
A schema that finds things by identifier without a search. Beside each list that is asked for
identifiers stands a table from identifiers to numbers, and a union keeps the labels and the values
that its arms have used. Tables are filled by hand, one entry for each item that is put at the
end of its list, and what they answer is not compared with the list again. A mutation checks the
tables where the schema without them searches, and comes to the same.
-/

namespace PacketSchema.Indexed

/-- A table from identifiers. Of two entries under one identifier the later one counts. -/
structure Table (Item : Type) where
  entries : List (String × Item)
deriving DecidableEq, Repr

namespace Table

variable {Item : Type}

def empty : Table Item := ⟨[]⟩

def find? (table : Table Item) (ident : String) : Option Item := table.entries.lookup ident

def insert (table : Table Item) (ident : String) (item : Item) : Table Item :=
  ⟨(ident, item) :: table.entries⟩

end Table

/-- A union with the labels and the values of its arms, in no order that matters. -/
structure Union where
  ident : String
  arms : List Arm
  labels : List String
  values : List Int64
deriving DecidableEq, Repr

namespace Union

def plain (union : Union) : PacketSchema.Union := ⟨union.ident, union.arms⟩

def ofPlain (union : PacketSchema.Union) : Union :=
  ⟨union.ident, union.arms, union.arms.map fun arm => arm.tag.label,
    union.arms.map fun arm => arm.tag.value⟩

def conflict? (union : Union) (arm : Arm) : Option ArmConflict :=
  if union.arms.any fun present => present.condition = arm.condition then
    match arm.condition with
    | none => some .secondDefault
    | some condition => some (.repeatedCondition condition)
  else if arm.tag.label ∈ union.labels then some (.repeatedLabel arm.tag.label)
  else if arm.tag.value ∈ union.values then some (.repeatedValue arm.tag.value)
  else none

def append (union : Union) (arm : Arm) : Except SchemaError Union :=
  match union.conflict? arm with
  | some conflict => .error (.armRefused union.ident conflict)
  | none =>
      .ok ⟨union.ident, union.arms ++ [arm], arm.tag.label :: union.labels,
        arm.tag.value :: union.values⟩

end Union

inductive Field where
  | always (ident : String) (encoding : Encoding)
  | optional (ident : String) (condition : Condition) (scope : ScopeId)
  | union (choice : Union)
deriving DecidableEq, Repr

namespace Field

def plain : Field → PacketSchema.Field
  | .always ident encoding => .always ident encoding
  | .optional ident condition scope => .optional ident condition scope
  | .union choice => .union choice.plain

def ofPlain : PacketSchema.Field → Field
  | .always ident encoding => .always ident encoding
  | .optional ident condition scope => .optional ident condition scope
  | .union choice => .union (.ofPlain choice)

def ident : Field → String
  | .always ident _ => ident
  | .optional ident _ _ => ident
  | .union choice => choice.ident

end Field

/-- A scope with the places of its fields by identifier. -/
structure Scope where
  parent : Option ScopeId
  fields : List Field
  places : Table Nat
deriving DecidableEq, Repr

namespace Scope

def plain (scope : Scope) : PacketSchema.Scope := ⟨scope.parent, scope.fields.map Field.plain⟩

def find? (scope : Scope) (ident : String) : Option Field :=
  (scope.places.find? ident).bind fun place => scope.fields[place]?

def contains (scope : Scope) (ident : String) : Bool := (scope.places.find? ident).isSome

def append (scope : Scope) (field : Field) : Scope :=
  ⟨scope.parent, scope.fields ++ [field], scope.places.insert field.ident scope.fields.length⟩

def replace (scope : Scope) (ident : String) (field : Field) : Scope :=
  match scope.places.find? ident with
  | none => scope
  | some place => { scope with fields := scope.fields.set place field }

end Scope

structure Schema where
  packets : List Packet
  numbers : Table PacketId
  scopes : List Scope
deriving DecidableEq, Repr

namespace Schema

def empty : Schema := ⟨[], .empty, []⟩

def plain (schema : Schema) : PacketSchema.Schema :=
  ⟨schema.packets, ⟨schema.scopes.map Scope.plain⟩⟩

def packet? (schema : Schema) (id : PacketId) : Option Packet := schema.packets[id.index]?

def packetId? (schema : Schema) (ident : String) : Option PacketId := schema.numbers.find? ident

def find? (schema : Schema) (ident : String) : Option Packet :=
  (schema.packetId? ident).bind schema.packet?

def scope? (schema : Schema) (id : ScopeId) : Option Scope := schema.scopes[id.index]?

def firstBinding (schema : Schema) (ident : String) :
    List ScopeId → Except SchemaError (Option (ScopeId × Field))
  | [] => .ok none
  | id :: rest =>
      match schema.scope? id with
      | none => .error (.unissuedScope id)
      | some scope =>
          match scope.find? ident with
          | some field => .ok (some (id, field))
          | none => schema.firstBinding ident rest

/-- The nearest binding of an identifier. Lineages only follow parents and need no table. -/
def lookup (schema : Schema) (id : ScopeId) (ident : String) :
    Except SchemaError (Option (ScopeId × Field)) :=
  schema.firstBinding ident (schema.plain.forest.lineage id)

def createScope (schema : Schema) (parent : Option ScopeId) : ScopeId × Schema :=
  (⟨schema.scopes.length⟩, { schema with scopes := schema.scopes ++ [⟨parent, [], .empty⟩] })

def createPacketScope (schema : Schema) (parent : Option PacketId) : ScopeId × Schema :=
  schema.createScope ((parent.bind schema.packet?).map Packet.scope)

def appendPacket (schema : Schema) (packet : Packet) : Except SchemaError (PacketId × Schema) :=
  if (schema.packetId? packet.ident).isSome then .error (.packetRedefined packet.ident)
  else
    .ok (⟨schema.packets.length⟩,
      { schema with
        packets := schema.packets ++ [packet]
        numbers := schema.numbers.insert packet.ident ⟨schema.packets.length⟩ })

def appendField (schema : Schema) (id : ScopeId) (field : Field) : Except SchemaError Schema :=
  match schema.lookup id field.ident with
  | .error error => .error error
  | .ok (some _) => .error (.fieldRedefined field.ident)
  | .ok none =>
      .ok { schema with scopes := schema.scopes.modify id.index fun scope => scope.append field }

def appendPacketField (schema : Schema) (id : PacketId) (field : Field) :
    Except SchemaError Schema :=
  match schema.packet? id with
  | none => .error (.unissuedPacket id)
  | some packet => schema.appendField packet.scope field

def appendArm (schema : Schema) (id : ScopeId) (ident : String) (arm : Arm) :
    Except SchemaError Schema :=
  match (schema.scope? id).bind fun scope => scope.find? ident with
  | some (.union choice) =>
      match choice.append arm with
      | .error error => .error error
      | .ok grown =>
          .ok { schema with
            scopes := schema.scopes.modify id.index fun scope =>
              scope.replace ident (.union grown) }
  | _ => .error (.unknownUnion id ident)

def appendChild (schema : Schema) (id child : PacketId) (condition : Option Condition) :
    Except SchemaError Schema :=
  match schema.packet? id with
  | none => .error (.unissuedPacket id)
  | some packet =>
      match packet.appendChild child condition with
      | .error error => .error error
      | .ok grown => .ok { schema with packets := schema.packets.set id.index grown }

def apply (schema : Schema) : Mutation → Except SchemaError (Receipt × Schema)
  | .createPacketScope parent =>
      let (id, grown) := schema.createPacketScope parent
      .ok (.scope id, grown)
  | .createRoot =>
      let (id, grown) := schema.createScope none
      .ok (.scope id, grown)
  | .createChild parent =>
      let (id, grown) := schema.createScope (some parent)
      .ok (.scope id, grown)
  | .appendPacket packet =>
      (schema.appendPacket packet).map fun (id, grown) => (.packet id, grown)
  | .appendPacketField packet field =>
      (schema.appendPacketField packet (.ofPlain field)).map fun grown => (.done, grown)
  | .appendField scope field =>
      (schema.appendField scope (.ofPlain field)).map fun grown => (.done, grown)
  | .appendArm scope ident arm =>
      (schema.appendArm scope ident arm).map fun grown => (.done, grown)
  | .appendChild packet child condition =>
      (schema.appendChild packet child condition).map fun grown => (.done, grown)

def perform (schema : Schema) (mutation : Mutation) : Except SchemaError Receipt × Schema :=
  match schema.apply mutation with
  | .error error => (.error error, schema)
  | .ok (receipt, grown) => (.ok receipt, grown)

def performAll (schema : Schema) (mutations : List Mutation) : Schema :=
  mutations.foldl (fun current mutation => (current.perform mutation).2) schema

end Schema

end PacketSchema.Indexed
