import PacketSchema.Model.Encoding
import PacketSchema.Model.Error

/-!
Fields: a scalar that is always there, a block that is there when a condition holds, and a tagged
union. A block's fields live in a scope of their own, which the field names by number. Within a
union no two arms share a condition, a label or a value, and at most one arm has no condition.
-/

namespace PacketSchema

structure Tag where
  label : String
  value : Int64
deriving DecidableEq, Repr

def Tag.text (tag : Tag) : String := "|" ++ tag.label ++ ": " ++ toString tag.value.toInt ++ "|"

/-- One alternative of a union; without a condition it is taken when no other one is. -/
structure Arm where
  condition : Option Condition
  tag : Tag
  scope : ScopeId
deriving DecidableEq, Repr

/-- A tagged union. Its arms stand in the order in which their conditions are tried. -/
structure Union where
  ident : String
  arms : List Arm
deriving DecidableEq, Repr

namespace Union

def empty (ident : String) : Union := ⟨ident, []⟩

def defaultArm? (union : Union) : Option Arm :=
  union.arms.find? fun arm => arm.condition.isNone

/-- The first reason against an arm: its condition or the lack of one, then its label, then its
value. -/
def conflict? (union : Union) (arm : Arm) : Option ArmConflict :=
  if union.arms.any fun present => present.condition = arm.condition then
    match arm.condition with
    | none => some .secondDefault
    | some condition => some (.repeatedCondition condition)
  else if union.arms.any fun present => present.tag.label = arm.tag.label then
    some (.repeatedLabel arm.tag.label)
  else if union.arms.any fun present => present.tag.value = arm.tag.value then
    some (.repeatedValue arm.tag.value)
  else none

def append (union : Union) (arm : Arm) : Except SchemaError Union :=
  match union.conflict? arm with
  | some conflict => .error (.armRefused union.ident conflict)
  | none => .ok ⟨union.ident, union.arms ++ [arm]⟩

end Union

inductive Field where
  | always (ident : String) (encoding : Encoding)
  | optional (ident : String) (condition : Condition) (scope : ScopeId)
  | union (choice : Union)
deriving DecidableEq, Repr

namespace Field

def ident : Field → String
  | .always ident _ => ident
  | .optional ident _ _ => ident
  | .union choice => choice.ident

def kind : Field → FieldKind
  | .always _ _ => .always
  | .optional _ _ _ => .optional
  | .union _ => .union

/-- The references a field holds itself, those of the fields of its blocks left aside. -/
def references : Field → List FieldRef
  | .always _ encoding => encoding.references
  | .optional _ condition _ => condition.references
  | .union choice => choice.arms.flatMap fun arm =>
      match arm.condition with
      | none => []
      | some condition => condition.references

end Field

end PacketSchema
