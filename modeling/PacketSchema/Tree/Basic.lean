import PacketSchema.Model.Condition
import PacketSchema.Model.Encoding
import PacketSchema.Text.Location

/-!
The tree of a schema text: what its packets, statements, descriptors and conditions say, with the
place of everything a message may point at. Blanks, comments and empty statements leave nothing
in it. A chain of alternatives or of conjuncts leans to the left, as its operators associate.
-/

namespace PacketSchema.Tree

structure Located (Item : Type) where
  location : Location
  item : Item
deriving DecidableEq, Repr

abbrev Token := Located String

/-- A number or a reference; the place of a reference is that of its ampersand. -/
inductive Value where
  | integer (numeral : Token)
  | reference (ident : Token)
deriving DecidableEq, Repr

def Value.location : Value → Location
  | .integer numeral => numeral.location
  | .reference ident => ident.location

inductive Measure where
  | bits
  | bytes (order : Option (Located ByteOrder))
deriving DecidableEq, Repr

structure Width where
  count : Value
  unit : Located Measure
deriving DecidableEq, Repr

structure Descriptor where
  scalar : Located ScalarType
  width : Option Width
  count : Option Value
deriving DecidableEq, Repr

mutual

inductive Disjunction where
  | single (item : Conjunction)
  | or (left : Disjunction) (right : Conjunction)

inductive Conjunction where
  | single (item : Relation)
  | and (left : Conjunction) (right : Relation)

inductive Relation where
  | operand (operand : Operand)
  | compare (left : Operand) (comparison : Located Comparison) (right : Operand)

inductive Operand where
  | value (value : Value)
  | negation (location : Location) (operand : Operand)
  | group (location : Location) (inner : Disjunction)

end

def Operand.location : Operand → Location
  | .value written => written.location
  | .negation location _ => location
  | .group location _ => location

def Relation.location : Relation → Location
  | .operand only => only.location
  | .compare left _ _ => left.location

def Conjunction.location : Conjunction → Location
  | .single item => item.location
  | .and left _ => left.location

def Disjunction.location : Disjunction → Location
  | .single item => item.location
  | .or left _ => left.location

structure Tag where
  location : Location
  label : Token
  value : Token
deriving DecidableEq, Repr

mutual

inductive Statement where
  | always (location : Location) (ident : Token) (descriptor : Descriptor)
  | optional (location : Location) (ident : Token) (condition : Disjunction)
      (body : List Statement)
  | union (location : Location) (ident : Token) (arms : List Arm)

/-- An arm without a guard is written with the word for all other cases. -/
inductive Arm where
  | mk (location : Location) (guard : Option Disjunction) (tag : Tag) (body : List Statement)

end

/-- The clause that names a packet's parent; its place is that of its colon. -/
structure Inheritance where
  location : Location
  parent : Token
  condition : Option Disjunction

structure Packet where
  ident : Token
  inheritance : Option Inheritance
  body : List Statement

/-- A whole text: its packets and the place where it ends. -/
structure Module where
  packets : List Packet
  finish : Location

end PacketSchema.Tree
