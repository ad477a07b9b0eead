import PacketSchema.Grammar.SyntaxError
import PacketSchema.Tree.Node

/-!
Every production of the grammar by name, to read by it on its own. A text is read from its first
character, with no gap before it, and only as far as the production goes; what it answers is the
nodes that it read. The productions that are no rules have no node of their own.
-/

namespace PacketSchema.Grammar

open PacketSchema.Tree (Node)

inductive Production where
  | rule (named : Rule)
  | reserved (keyword : Keyword)
  | blank
  | comment
  | wordCharacter
  | statement
  | emptyStatement
  | operand

namespace Production

def unnamed : List (String × Production) :=
  [("WHITESPACE", .blank), ("COMMENT", .comment), ("ident_char", .wordCharacter),
    ("statement", .statement), ("empty_stmt", .emptyStatement), ("operand", .operand)]

def all : List (String × Production) :=
  Rule.all.map (fun rule => (rule.name, .rule rule)) ++
    Keyword.all.map (fun keyword => ("kw_" ++ keyword.spelling, .reserved keyword)) ++ unnamed

def ofName? (name : String) : Option Production :=
  (all.find? fun production => production.1 == name).map Prod.snd

def one {Item : Type} (parser : Parser Item) (node : Item → Node) : Parser (List Node) := do
  let item ← parser
  return [node item]

def silent {Item : Type} (parser : Parser Item) : Parser (List Node) := do
  let _ ← parser
  return []

def keywordNodes : Parser (List Node) :=
  one (Parser.located (Parser.named .keyword Parser.bareKeyword)) fun keyword =>
    .leaf .keyword keyword.location keyword.item.spelling

def ruleNodes (bound : Nat) : Rule → Parser (List Node)
  | .endOfInput => one Parser.endOfInput Tree.endNode
  | .keyword => keywordNodes
  | .ident => one Parser.ident Tree.identNode
  | .integer => one Parser.integer Tree.integerNode
  | .module => one (Parser.module bound) Tree.Module.node
  | .packet => one (Parser.packet bound) Tree.Packet.node
  | .inheritance => one (Parser.inheritance bound) Tree.Inheritance.node
  | .always => one Parser.alwaysStatement Tree.Statement.node
  | .optional => one (Parser.optionalOf bound (Parser.block bound)) Tree.Statement.node
  | .union => one (Parser.unionOf bound (Parser.block bound)) Tree.Statement.node
  | .case => one (Parser.caseOf bound (Parser.block bound)) Tree.Arm.node
  | .otherwise => one (Parser.otherwiseOf (Parser.block bound)) Tree.Arm.node
  | .tag => one Parser.tag Tree.Tag.node
  | .descriptor => one Parser.descriptor Tree.Descriptor.node
  | .scalarType => one Parser.scalarType Tree.scalarTypeNode
  | .width => one Parser.width Tree.Width.node
  | .unit => one Parser.unit Tree.unitNode
  | .bits => one (Parser.located Parser.bits) Tree.measureNode
  | .bytes => one (Parser.located Parser.bytes) Tree.measureNode
  | .byteOrder => one Parser.byteOrder Tree.byteOrderNode
  | .value => one Parser.value Tree.Value.node
  | .reference => one Parser.reference Tree.referenceNode
  | .disjunction => one (Parser.condition bound) Tree.Disjunction.node
  | .conjunction => one (Parser.conjunction bound) Tree.Conjunction.node
  | .relation => one (Parser.relation bound) Tree.Relation.node
  | .negation => one (Parser.negationOf (Parser.operand bound)) Tree.Operand.node
  | .comparison => one Parser.comparison Tree.comparisonNode

def nodes (bound : Nat) : Production → Parser (List Node)
  | .rule named => ruleNodes bound named
  | .reserved keyword => silent (Parser.reserved keyword)
  | .blank => silent Parser.blank
  | .comment => silent Parser.comment
  | .wordCharacter => silent Parser.bareWordCharacter
  | .statement => do
      let statement ← Parser.statementOf bound (Parser.block bound)
      return statement.toList.map Tree.Statement.node
  | .emptyStatement => silent Parser.emptyStatement
  | .operand => one (Parser.operand bound) Tree.Operand.node

def read (production : Production) (source : String) : Except SyntaxError (List Node) :=
  readFront (fun bound => production.nodes bound) source

end Production

end PacketSchema.Grammar
