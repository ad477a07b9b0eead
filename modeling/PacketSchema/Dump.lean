import PacketSchema.Model.Schema

/-!
A schema as indented text: a line for every packet, field and arm, two blanks deeper inside each
block. Numbers of scopes do not show; a block is printed below the field or arm it belongs to.
-/

namespace PacketSchema

/-- One line of a dump, without its indentation and its line end. -/
structure DumpLine where
  depth : Nat
  text : String
deriving DecidableEq, Repr

def DumpLine.written (line : DumpLine) : String :=
  String.ofList (List.replicate (2 * line.depth) ' ') ++ line.text ++ "\n"

def gatherLines : List (Except SchemaError (List DumpLine)) → Except SchemaError (List DumpLine)
  | [] => .ok []
  | .error error :: _ => .error error
  | .ok lines :: rest =>
      match gatherLines rest with
      | .error error => .error error
      | .ok others => .ok (lines ++ others)

def underLine (line : DumpLine) :
    Except SchemaError (List DumpLine) → Except SchemaError (List DumpLine)
  | .error error => .error error
  | .ok lines => .ok (line :: lines)

def Arm.heading (arm : Arm) : String :=
  match arm.condition with
  | none => "otherwise " ++ arm.tag.text
  | some condition => "case " ++ condition.text ++ " " ++ arm.tag.text

/-- The lines of a field at a depth, `block` being those of a scope. -/
def Field.lines (block : Nat → ScopeId → Except SchemaError (List DumpLine)) (depth : Nat) :
    Field → Except SchemaError (List DumpLine)
  | .always ident encoding => .ok [⟨depth, "always " ++ ident ++ " " ++ encoding.text⟩]
  | .optional ident condition scope =>
      underLine ⟨depth, "optional " ++ ident ++ " when " ++ condition.text⟩
        (block (depth + 1) scope)
  | .union choice =>
      underLine ⟨depth, "variable " ++ choice.ident⟩
        (gatherLines (choice.arms.map fun arm =>
          underLine ⟨depth + 1, arm.heading⟩ (block (depth + 2) arm.scope)))

/-- The lines of a scope whose blocks are nested less than `levels` deep. -/
def ScopeForest.lines (forest : ScopeForest) :
    Nat → Nat → ScopeId → Except SchemaError (List DumpLine)
  | 0, _, id => .error (.selfContained id)
  | levels + 1, depth, id =>
      match forest.scope? id with
      | none => .error (.unissuedScope id)
      | some scope => gatherLines (scope.fields.map (Field.lines (forest.lines levels) depth))

namespace Schema

def header (schema : Schema) (packet : Packet) : Except SchemaError String :=
  let selection := match packet.condition with
    | none => ""
    | some condition => " when " ++ condition.text
  match packet.parent with
  | none => .ok ("packet " ++ packet.ident ++ selection)
  | some id =>
      match schema.packet? id with
      | none => .error (.unissuedPacket id)
      | some parent => .ok ("packet " ++ packet.ident ++ " : " ++ parent.ident ++ selection)

/-- The lines of a packet and of its body. Blocks that do not contain themselves are nested no
deeper than there are scopes, and one step more reaches a scope that was never issued. -/
def packetLines (schema : Schema) (packet : Packet) : Except SchemaError (List DumpLine) :=
  match schema.header packet with
  | .error error => .error error
  | .ok header =>
      underLine ⟨0, header⟩ (schema.forest.lines (schema.forest.size + 1) 1 packet.scope)

def dumpLines (schema : Schema) : Except SchemaError (List DumpLine) :=
  gatherLines (schema.packets.map schema.packetLines)

def dump (schema : Schema) : Except SchemaError String :=
  match schema.dumpLines with
  | .error error => .error error
  | .ok lines => .ok (String.join (lines.map DumpLine.written))

end Schema

end PacketSchema
