import PacketSchema.Model.Error
import PacketSchema.Text.Location

/-!
Diagnostics: what is wrong with a schema and where. `Checked` is the answer of a check that goes
on after the first fault: either the checked thing or every fault found in it, in order.
-/

namespace PacketSchema

structure Diagnostic where
  location : Location
  error : SchemaError
deriving DecidableEq, Repr

def Diagnostic.text (diagnostic : Diagnostic) : String :=
  diagnostic.location.text ++ ": error: " ++ diagnostic.error.message

inductive Checked (Item : Type) where
  | accepted (item : Item)
  | refused (problems : List Diagnostic)

namespace Checked

variable {Item First Second : Type}

def problems : Checked Item → List Diagnostic
  | .accepted _ => []
  | .refused problems => problems

def ofExcept (location : Location) : Except SchemaError Item → Checked Item
  | .ok item => .accepted item
  | .error error => .refused [⟨location, error⟩]

def map (change : First → Second) : Checked First → Checked Second
  | .accepted item => .accepted (change item)
  | .refused problems => .refused problems

/-- Combines two checks. Both are made whatever the first one finds. -/
def both (combine : First → Second → Item) : Checked First → Checked Second → Checked Item
  | .accepted first, .accepted second => .accepted (combine first second)
  | first, second => .refused (first.problems ++ second.problems)

def option (check : First → Checked Second) : Option First → Checked (Option Second)
  | none => .accepted none
  | some item => (check item).map some

end Checked

end PacketSchema
