import PacketSchema.Grammar.Rule
import PacketSchema.Tree.Basic

/-!
The uniform view of a tree: every part as a node that carries the rule it was read by, its place
and either its text or the nodes below it. A parenthesised condition has no node of its own; the
condition inside it stands in its place.
-/

namespace PacketSchema.Tree

open PacketSchema.Grammar (Rule)

inductive Node where
  | leaf (rule : Rule) (location : Location) (text : String)
  | branch (rule : Rule) (location : Location) (children : List Node)

def identNode (ident : Token) : Node := .leaf .ident ident.location ident.item

def integerNode (numeral : Token) : Node := .leaf .integer numeral.location numeral.item

/-- The identifier of a reference stands one column after the ampersand. -/
def referenceNode (ident : Token) : Node :=
  .branch .reference ident.location
    [.leaf .ident (ident.location.next '&') ident.item]

def Value.node (value : Value) : Node :=
  .branch .value value.location
    [match value with
      | .integer numeral => integerNode numeral
      | .reference ident => referenceNode ident]

def byteOrderNode (order : Located ByteOrder) : Node :=
  .leaf .byteOrder order.location order.item.keyword

def measureNode (unit : Located Measure) : Node :=
  match unit.item with
  | .bits => .branch .bits unit.location []
  | .bytes order => .branch .bytes unit.location (order.toList.map byteOrderNode)

def unitNode (unit : Located Measure) : Node := .branch .unit unit.location [measureNode unit]

def Width.node (width : Width) : Node :=
  .branch .width width.count.location [width.count.node, unitNode width.unit]

def scalarTypeNode (scalar : Located ScalarType) : Node :=
  .leaf .scalarType scalar.location scalar.item.keyword

def Descriptor.node (descriptor : Descriptor) : Node :=
  .branch .descriptor descriptor.scalar.location
    (scalarTypeNode descriptor.scalar ::
      (descriptor.width.toList.map Width.node ++ descriptor.count.toList.map Value.node))

def comparisonNode (comparison : Located Comparison) : Node :=
  .leaf .comparison comparison.location comparison.item.symbol

mutual

def Disjunction.children : Disjunction → List Node
  | .single item => [.branch .conjunction item.location item.children]
  | .or left right => left.children ++ [.branch .conjunction right.location right.children]

def Conjunction.children : Conjunction → List Node
  | .single item => [.branch .relation item.location item.children]
  | .and left right => left.children ++ [.branch .relation right.location right.children]

def Relation.children : Relation → List Node
  | .operand only => [only.node]
  | .compare left comparison right => [left.node, comparisonNode comparison, right.node]

def Operand.node : Operand → Node
  | .value written => written.node
  | .negation location operand => .branch .negation location [operand.node]
  | .group _ inner => .branch .disjunction inner.location inner.children

end

def Relation.node (relation : Relation) : Node :=
  .branch .relation relation.location relation.children

def Conjunction.node (conjunction : Conjunction) : Node :=
  .branch .conjunction conjunction.location conjunction.children

def Disjunction.node (disjunction : Disjunction) : Node :=
  .branch .disjunction disjunction.location disjunction.children

def Tag.node (tag : Tag) : Node :=
  .branch .tag tag.location [identNode tag.label, integerNode tag.value]

mutual

def Statement.node : Statement → Node
  | .always location ident descriptor =>
      .branch .always location [identNode ident, descriptor.node]
  | .optional location ident condition body =>
      .branch .optional location (identNode ident :: condition.node :: blockNodes body)
  | .union location ident arms => .branch .union location (identNode ident :: armNodes arms)

def Arm.node : Arm → Node
  | .mk location (some guard) tag body =>
      .branch .case location (guard.node :: tag.node :: blockNodes body)
  | .mk location none tag body => .branch .otherwise location (tag.node :: blockNodes body)

def blockNodes : List Statement → List Node
  | [] => []
  | statement :: rest => statement.node :: blockNodes rest

def armNodes : List Arm → List Node
  | [] => []
  | arm :: rest => arm.node :: armNodes rest

end

def Inheritance.node (inheritance : Inheritance) : Node :=
  .branch .inheritance inheritance.location
    (identNode inheritance.parent :: inheritance.condition.toList.map Disjunction.node)

def Packet.node (packet : Packet) : Node :=
  .branch .packet packet.ident.location
    (identNode packet.ident ::
      (packet.inheritance.toList.map Inheritance.node ++ blockNodes packet.body))

def endNode (finish : Location) : Node := .branch .endOfInput finish []

/-- A module begins where its text does, whatever gap comes first. -/
def Module.node (tree : Module) : Node :=
  .branch .module .start (tree.packets.map Packet.node ++ [endNode tree.finish])

end PacketSchema.Tree
