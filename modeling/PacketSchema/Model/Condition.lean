import PacketSchema.Model.Identity

/-!
Conditions: when a packet applies to its parent, an optional block is present or an arm is taken.
A condition holds integers and references that are already resolved; nothing here resolves a
name. Its text is canonical: every relation and every conjunction stands in parentheses, so the
text shows the tree, and a reference shows as its identifier alone.
-/

namespace PacketSchema

inductive Comparison where
  | equal
  | greater
  | greaterOrEqual
  | less
  | lessOrEqual
  | notEqual
deriving DecidableEq, Repr

namespace Comparison

def all : List Comparison := [.equal, .greater, .greaterOrEqual, .less, .lessOrEqual, .notEqual]

def symbol : Comparison → String
  | .equal => "=="
  | .greater => ">"
  | .greaterOrEqual => ">="
  | .less => "<"
  | .lessOrEqual => "<="
  | .notEqual => "!="

def ofSymbol? (symbol : String) : Option Comparison :=
  all.find? fun comparison => comparison.symbol == symbol

theorem ofSymbol_symbol (comparison : Comparison) :
    ofSymbol? comparison.symbol = some comparison := by
  cases comparison <;> decide

end Comparison

inductive Connective where
  | both
  | either
deriving DecidableEq, Repr

def Connective.symbol : Connective → String
  | .both => "&&"
  | .either => "||"

inductive Condition where
  | integer (value : Int64)
  | field (reference : FieldRef)
  | negation (operand : Condition)
  | relation (comparison : Comparison) (left right : Condition)
  | conjunction (connective : Connective) (left right : Condition)
deriving DecidableEq, Repr

namespace Condition

def text : Condition → String
  | .integer value => toString value.toInt
  | .field reference => reference.ident
  | .negation operand => "!" ++ operand.text
  | .relation comparison left right =>
      "(" ++ left.text ++ " " ++ comparison.symbol ++ " " ++ right.text ++ ")"
  | .conjunction connective left right =>
      "(" ++ left.text ++ " " ++ connective.symbol ++ " " ++ right.text ++ ")"

/-- The references a condition holds, from left to right. -/
def references : Condition → List FieldRef
  | .integer _ => []
  | .field reference => [reference]
  | .negation operand => operand.references
  | .relation _ left right => left.references ++ right.references
  | .conjunction _ left right => left.references ++ right.references

end Condition

end PacketSchema
