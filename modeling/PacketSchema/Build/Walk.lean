import PacketSchema.Build.Resolve
import PacketSchema.Model.Schema

/-!
Building a schema from a tree, in one walk in the order of the text. A fault never ends the walk
unless it was asked to be fast: it is noted with its place, the construct at fault is left out of
the schema, and all that stands inside it is walked as if it were there.
-/

namespace PacketSchema

/-- A schema as far as it is built, and what was found wrong so far. -/
structure Build where
  schema : Schema
  diagnostics : List Diagnostic
deriving DecidableEq, Repr

namespace Build

def empty : Build := ⟨.empty, []⟩

/-- Whether a fast walk stops here. It is asked before each packet, statement and arm, so what
has been begun is still finished. -/
def halted (failFast : Bool) (build : Build) : Bool :=
  failFast && !build.diagnostics.isEmpty

def report (build : Build) (problems : List Diagnostic) : Build :=
  { build with diagnostics := build.diagnostics ++ problems }

def note (build : Build) (location : Location) (error : SchemaError) : Build :=
  build.report [⟨location, error⟩]

def createScope (build : Build) (parent : ScopeId) : ScopeId × Build :=
  let (id, schema) := build.schema.createScope (some parent)
  (id, { build with schema })

def createPacketScope (build : Build) (parent : Option PacketId) : ScopeId × Build :=
  let (id, schema) := build.schema.createPacketScope parent
  (id, { build with schema })

/-- Declares a field, and tells whether that was allowed. -/
def declare (build : Build) (scope : ScopeId) (field : Field) (location : Location) :
    Bool × Build :=
  match build.schema.appendField scope field with
  | .error error => (false, build.note location error)
  | .ok schema => (true, { build with schema })

/-- Adds an arm to the union of a statement: to the one declared in the scope, or, where that
declaration was refused, to one of its own, against which the arms are still checked. -/
def addArm (build : Build) (scope : ScopeId) (ident : String) (location : Location) (arm : Arm) :
    Option Union → Option Union × Build
  | none =>
      match build.schema.appendArm scope ident arm with
      | .error error => (none, build.note location error)
      | .ok schema => (none, { build with schema })
  | some refused =>
      match refused.append arm with
      | .error error => (some refused, build.note location error)
      | .ok grown => (some grown, build)

end Build

/-- Where a packet derives from: its parent, and the condition that selects it as far as that
could be resolved. -/
structure Derivation where
  parent : PacketId
  selection : Checked (Option Condition)

namespace Derivation

def condition (derivation : Derivation) : Option Condition :=
  match derivation.selection with
  | .accepted condition => condition
  | .refused _ => none

end Derivation

/-- Registers a packet. A packet whose condition did not resolve keeps its parent, but its parent
gets no edge to it. -/
def Build.register (build : Build) (packet : Packet) (location : Location)
    (derivation : Option Derivation) : Build :=
  match build.schema.appendPacket packet with
  | .error error => build.note location error
  | .ok (id, schema) =>
      let registered := { build with schema }
      match derivation with
      | some ⟨parent, .accepted condition⟩ =>
          match schema.appendChild parent id condition with
          | .error error => registered.note location error
          | .ok schema => { build with schema }
      | _ => registered

namespace Tree

mutual

/-- An optional field is declared after its condition was resolved and before its body is walked;
a union is declared before its arms. -/
def Statement.build (failFast : Bool) (scope : ScopeId) : Statement → Build → Build
  | .always location ident descriptor, build =>
      match descriptor.resolve build.schema.forest scope ident.item with
      | .refused problems => build.report problems
      | .accepted encoding => (build.declare scope (.always ident.item encoding) location).2
  | .optional location ident condition body, build =>
      let checked := condition.resolve build.schema.forest scope
      let (child, opened) := build.createScope scope
      let declared := match checked with
        | .refused problems => opened.report problems
        | .accepted condition =>
            (opened.declare scope (.optional ident.item condition child) location).2
      buildBlock failFast child body declared
  | .union location ident arms, build =>
      let (allowed, declared) := build.declare scope (.union (.empty ident.item)) location
      buildArms failFast scope ident.item arms
        (if allowed then none else some (.empty ident.item)) declared

def Arm.build (failFast : Bool) (scope : ScopeId) (ident : String) :
    Arm → Option Union → Build → Option Union × Build
  | .mk location guard tag body, refused, build =>
      let checked := Checked.both Prod.mk
        (.option (fun written => written.resolve build.schema.forest scope) guard) tag.resolve
      let (child, opened) := (build.report checked.problems).createScope scope
      let walked := buildBlock failFast child body opened
      match checked with
      | .refused _ => (refused, walked)
      | .accepted (condition, tag) =>
          walked.addArm scope ident location ⟨condition, tag, child⟩ refused

def buildBlock (failFast : Bool) (scope : ScopeId) : List Statement → Build → Build
  | [], build => build
  | statement :: rest, build =>
      if build.halted failFast then build
      else buildBlock failFast scope rest (statement.build failFast scope build)

def buildArms (failFast : Bool) (scope : ScopeId) (ident : String) :
    List Arm → Option Union → Build → Build
  | [], _, build => build
  | arm :: rest, refused, build =>
      if build.halted failFast then build
      else
        let (refused, build) := arm.build failFast scope ident refused build
        buildArms failFast scope ident rest refused build

end

/-- The packet that a clause names, which must stand before it in the text. The condition is
about the fields of that packet, so it is resolved in its scope. -/
def Inheritance.resolve (schema : Schema) (ident : String) (inheritance : Inheritance) :
    Option Derivation × List Diagnostic :=
  match schema.named? inheritance.parent.item with
  | none =>
      (none, [⟨inheritance.parent.location, .unknownParent ident inheritance.parent.item⟩])
  | some (id, parent) =>
      let selection := Checked.option
        (fun written => written.resolve schema.forest parent.scope) inheritance.condition
      (some ⟨id, selection⟩, selection.problems)

def Packet.derivation (schema : Schema) (packet : Packet) : Option Derivation × List Diagnostic :=
  match packet.inheritance with
  | none => (none, [])
  | some inheritance => inheritance.resolve schema packet.ident.item

def Packet.build (failFast : Bool) (packet : Packet) (build : Build) : Build :=
  let (derivation, problems) := packet.derivation build.schema
  let (scope, opened) :=
    (build.report problems).createPacketScope (derivation.map Derivation.parent)
  let walked := buildBlock failFast scope packet.body opened
  let record : PacketSchema.Packet := match derivation with
    | none => .root packet.ident.item scope
    | some derivation =>
        .derived packet.ident.item derivation.parent derivation.condition scope
  walked.register record packet.ident.location derivation

def buildPackets (failFast : Bool) : List Packet → Build → Build
  | [], build => build
  | packet :: rest, build =>
      if build.halted failFast then build
      else buildPackets failFast rest (packet.build failFast build)

def Module.build (failFast : Bool) (tree : Module) : Build :=
  buildPackets failFast tree.packets .empty

end Tree

end PacketSchema
