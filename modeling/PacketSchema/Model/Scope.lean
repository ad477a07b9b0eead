import PacketSchema.Model.Field

/-!
Scopes of identifiers. Every scope has at most one parent, fixed when it is created, and its
lineage is the scope itself, its parent, its parent's parent and so on. A field may not take an
identifier that is bound anywhere in the lineage of its scope; scopes side by side never see each
other, and a parent does not see into its children.

A walk up the parents takes at most one step more than there are scopes, which reaches the end of
every chain that does not run in a circle.
-/

namespace PacketSchema

structure Scope where
  parent : Option ScopeId
  fields : List Field
deriving DecidableEq, Repr

namespace Scope

def find? (scope : Scope) (ident : String) : Option Field :=
  scope.fields.find? fun field => field.ident == ident

def contains (scope : Scope) (ident : String) : Bool :=
  scope.fields.any fun field => field.ident == ident

end Scope

structure ScopeForest where
  scopes : List Scope
deriving DecidableEq, Repr

namespace ScopeForest

def empty : ScopeForest := ⟨[]⟩

def size (forest : ScopeForest) : Nat := forest.scopes.length

def scope? (forest : ScopeForest) (id : ScopeId) : Option Scope := forest.scopes[id.index]?

def scope (forest : ScopeForest) (id : ScopeId) : Except SchemaError Scope :=
  match forest.scope? id with
  | none => .error (.unissuedScope id)
  | some scope => .ok scope

def parent? (forest : ScopeForest) (id : ScopeId) : Option ScopeId :=
  (forest.scope? id).bind Scope.parent

/-- Creates a scope without fields; its number is the next one. -/
def create (forest : ScopeForest) (parent : Option ScopeId) : ScopeId × ScopeForest :=
  (⟨forest.size⟩, ⟨forest.scopes ++ [⟨parent, []⟩]⟩)

def lineageWithin (forest : ScopeForest) : Nat → ScopeId → List ScopeId
  | 0, _ => []
  | steps + 1, id =>
      id :: match forest.parent? id with
        | none => []
        | some parent => forest.lineageWithin steps parent

/-- A scope and its ancestors, nearest first. A number that was never issued belongs to the
lineage and ends it. -/
def lineage (forest : ScopeForest) (id : ScopeId) : List ScopeId :=
  forest.lineageWithin (forest.size + 1) id

def isInLineage (forest : ScopeForest) (id ancestor : ScopeId) : Bool :=
  (forest.lineage id).contains ancestor

def firstBinding (forest : ScopeForest) (ident : String) :
    List ScopeId → Except SchemaError (Option (ScopeId × Field))
  | [] => .ok none
  | id :: rest =>
      match forest.scope? id with
      | none => .error (.unissuedScope id)
      | some scope =>
          match scope.find? ident with
          | some field => .ok (some (id, field))
          | none => forest.firstBinding ident rest

def lookup (forest : ScopeForest) (id : ScopeId) (ident : String) :
    Except SchemaError (Option (ScopeId × Field)) :=
  forest.firstBinding ident (forest.lineage id)

def resolve (forest : ScopeForest) (id : ScopeId) (ident : String) :
    Except SchemaError FieldRef :=
  match forest.lookup id ident with
  | .error error => .error error
  | .ok none => .error (.unresolvedReference ident .notVisible)
  | .ok (some (owner, .always _ _)) => .ok ⟨owner, ident⟩
  | .ok (some (_, field)) => .error (.unresolvedReference ident (.notScalar field.kind))

/-- The field declared in a scope itself under an identifier. -/
def field? (forest : ScopeForest) (id : ScopeId) (ident : String) : Option Field :=
  (forest.scope? id).bind fun scope => scope.find? ident

def updateFields (forest : ScopeForest) (id : ScopeId) (update : List Field → List Field) :
    ScopeForest :=
  ⟨forest.scopes.modify id.index fun scope => { scope with fields := update scope.fields }⟩

/-- Declares a field at the end of a scope. The look-up has visited the scope itself first, so
where it answers at all the scope is there. -/
def append (forest : ScopeForest) (id : ScopeId) (field : Field) :
    Except SchemaError ScopeForest :=
  match forest.lookup id field.ident with
  | .error error => .error error
  | .ok (some _) => .error (.fieldRedefined field.ident)
  | .ok none => .ok (forest.updateFields id fun fields => fields ++ [field])

def appendArm (forest : ScopeForest) (id : ScopeId) (ident : String) (arm : Arm) :
    Except SchemaError ScopeForest :=
  match forest.field? id ident with
  | some (.union choice) =>
      match choice.append arm with
      | .error error => .error error
      | .ok grown =>
          .ok (forest.updateFields id fun fields =>
            fields.map fun field => if field.ident = ident then .union grown else field)
  | _ => .error (.unknownUnion id ident)

end ScopeForest

end PacketSchema
