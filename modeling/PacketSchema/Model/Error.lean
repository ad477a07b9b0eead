import PacketSchema.Model.Condition

/-!
What can be wrong with a schema, as causes, and the wording of each. The last four causes are not
about what a schema says but about how it is asked: a number that was never issued, an arm for a
union that is not there, and a structure that contains itself.
-/

namespace PacketSchema

inductive FieldKind where
  | always
  | optional
  | union
deriving DecidableEq, Repr

def FieldKind.keyword : FieldKind → String
  | .always => "always"
  | .optional => "optional"
  | .union => "variable"

inductive ArmConflict where
  | secondDefault
  | repeatedCondition (condition : Condition)
  | repeatedLabel (label : String)
  | repeatedValue (value : Int64)
deriving DecidableEq, Repr

def ArmConflict.text : ArmConflict → String
  | .secondDefault => "multiple otherwise arms"
  | .repeatedCondition condition => "case " ++ condition.text ++ " already defined"
  | .repeatedLabel label => "tag label `" ++ label ++ "` already used"
  | .repeatedValue value => "tag value " ++ toString value.toInt ++ " already used"

inductive Unresolved where
  | notVisible
  | notScalar (kind : FieldKind)
deriving DecidableEq, Repr

def Unresolved.text : Unresolved → String
  | .notVisible => "no such field in scope"
  | .notScalar kind => kind.keyword ++ " field is not a scalar"

inductive SchemaError where
  | packetRedefined (ident : String)
  | fieldRedefined (ident : String)
  | armRefused (ident : String) (conflict : ArmConflict)
  | unknownParent (packet parent : String)
  | unresolvedReference (ident : String) (reason : Unresolved)
  | bareDescriptor (ident : String)
  | dispatchConflict (parent : String) (condition : Option Condition)
  | integerOutOfRange (numeral : String)
  | unissuedScope (scope : ScopeId)
  | unissuedPacket (packet : PacketId)
  | unknownUnion (scope : ScopeId) (ident : String)
  | selfContained (scope : ScopeId)
  | selfDerived (packet : PacketId)
deriving DecidableEq, Repr

def selectionText : Option Condition → String
  | none => "unconditionally"
  | some condition => "when " ++ condition.text

def SchemaError.message : SchemaError → String
  | .packetRedefined ident => "packet `" ++ ident ++ "` redefined"
  | .fieldRedefined ident =>
      "field `" ++ ident ++ "` redefined in this scope or an enclosing one"
  | .armRefused ident conflict => "variable `" ++ ident ++ "`: " ++ conflict.text
  | .unknownParent packet parent =>
      "packet `" ++ packet ++ "` derives from unknown packet `" ++ parent ++ "`"
  | .unresolvedReference ident reason =>
      "unresolved reference `&" ++ ident ++ "`: " ++ reason.text
  | .bareDescriptor ident =>
      "malformed descriptor for field `" ++ ident ++ "`: neither width nor count given"
  | .dispatchConflict parent condition =>
      "packet `" ++ parent ++ "` already dispatches to a subtype " ++ selectionText condition
  | .integerOutOfRange numeral => "integer literal `" ++ numeral ++ "` out of range"
  | .unissuedScope scope => "scope " ++ toString scope.index ++ " was never issued"
  | .unissuedPacket packet => "packet " ++ toString packet.index ++ " was never issued"
  | .unknownUnion scope ident =>
      "scope " ++ toString scope.index ++ " declares no variable `" ++ ident ++ "`"
  | .selfContained scope => "scope " ++ toString scope.index ++ " contains itself"
  | .selfDerived packet => "packet " ++ toString packet.index ++ " derives from itself"

end PacketSchema
