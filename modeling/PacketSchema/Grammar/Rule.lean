/-!
The rules of the grammar that have a name of their own. The names are what a message lists as
expected and what the nodes of a tree carry; they are listed in the order of the grammar, the end
of the text before all others.
-/

namespace PacketSchema.Grammar

inductive Rule where
  | endOfInput
  | keyword
  | ident
  | integer
  | module
  | packet
  | inheritance
  | always
  | optional
  | union
  | case
  | otherwise
  | tag
  | descriptor
  | scalarType
  | width
  | unit
  | bits
  | bytes
  | byteOrder
  | value
  | reference
  | disjunction
  | conjunction
  | relation
  | negation
  | comparison
deriving DecidableEq, Repr

namespace Rule

def all : List Rule :=
  [.endOfInput, .keyword, .ident, .integer, .module, .packet, .inheritance, .always, .optional,
    .union, .case, .otherwise, .tag, .descriptor, .scalarType, .width, .unit, .bits, .bytes,
    .byteOrder, .value, .reference, .disjunction, .conjunction, .relation, .negation, .comparison]

def name : Rule → String
  | .endOfInput => "EOI"
  | .keyword => "keyword"
  | .ident => "ident"
  | .integer => "integer"
  | .module => "module"
  | .packet => "packet"
  | .inheritance => "inheritance"
  | .always => "always_stmt"
  | .optional => "optional_stmt"
  | .union => "variable_stmt"
  | .case => "case_block"
  | .otherwise => "otherwise_block"
  | .tag => "tag"
  | .descriptor => "field_desc"
  | .scalarType => "scalar_type"
  | .width => "count"
  | .unit => "unit"
  | .bits => "bits"
  | .bytes => "bytes"
  | .byteOrder => "byte_order"
  | .value => "value"
  | .reference => "reference"
  | .disjunction => "cond_exp"
  | .conjunction => "cond_and"
  | .relation => "cond_rel"
  | .negation => "negation"
  | .comparison => "relation"

theorem mem_all (rule : Rule) : rule ∈ all := by
  cases rule <;> decide

end Rule

end PacketSchema.Grammar
