import PacketSchema.Proofs.Image.Relation
import PacketSchema.Tree.Node

/-!
# The blocks of a tree

A packet, an optional statement and an arm each open a block. The blocks are listed in the order
in which they begin in the text, so the place of a block in the list is its number, and each is
listed with the number of the innermost block around it. The uniform view of a tree lists the same
blocks by the rules of its nodes alone.
-/

namespace PacketSchema.Tree

open PacketSchema.Grammar (Rule)

/-- What opens a block, with the number of the block around it; there is none around a packet. -/
inductive Block where
  | packet (packet : Packet)
  | optional (outer : Nat) (location : Location) (ident : Token) (condition : Disjunction)
      (body : List Statement)
  | arm (outer : Nat) (arm : Arm)

def Arm.body : Arm → List Statement
  | .mk _ _ _ body => body

def Block.outer : Block → Option Nat
  | .packet _ => none
  | .optional outer _ _ _ _ => some outer
  | .arm outer _ => some outer

def Block.body : Block → List Statement
  | .packet written => written.body
  | .optional _ _ _ _ body => body
  | .arm _ written => written.body

def Block.node : Block → Node
  | .packet written => written.node
  | .optional _ location ident condition body =>
      (Statement.optional location ident condition body).node
  | .arm _ written => written.node

def Block.isNamed (name : String) : Block → Bool
  | .packet written => written.ident.item == name
  | _ => false

mutual

/-- The blocks of a statement; `next` is the number of the first of them. -/
def Statement.openings (outer next : Nat) : Statement → List Block
  | .always _ _ _ => []
  | .optional location ident condition body =>
      .optional outer location ident condition body :: blockOpenings next (next + 1) body
  | .union _ _ arms => armOpenings outer next arms

def Arm.openings (outer next : Nat) : Arm → List Block
  | .mk location guard tag body =>
      .arm outer (.mk location guard tag body) :: blockOpenings next (next + 1) body

def blockOpenings (outer next : Nat) : List Statement → List Block
  | [] => []
  | statement :: rest =>
      statement.openings outer next ++ blockOpenings outer (next + statement.blocks) rest

def armOpenings (outer next : Nat) : List Arm → List Block
  | [] => []
  | arm :: rest => arm.openings outer next ++ armOpenings outer (next + arm.blocks) rest

end

def Packet.openings (next : Nat) (packet : Packet) : List Block :=
  .packet packet :: blockOpenings next (next + 1) packet.body

def packetOpenings (next : Nat) : List Packet → List Block
  | [] => []
  | packet :: rest => packet.openings next ++ packetOpenings (next + packet.blocks) rest

def Module.openings (tree : Module) : List Block := packetOpenings 0 tree.packets

mutual

theorem Statement.openings_length : ∀ (statement : Statement) (outer next : Nat),
    (statement.openings outer next).length = statement.blocks
  | .always _ _ _, _, _ => rfl
  | .optional _ _ _ body, _, next => by
      rw [Statement.openings, List.length_cons, block_openings_length body, Statement.blocks]
  | .union _ _ arms, outer, next => by
      rw [Statement.openings, arm_openings_length arms, Statement.blocks]

theorem Arm.openings_length : ∀ (arm : Arm) (outer next : Nat),
    (arm.openings outer next).length = arm.blocks
  | .mk _ _ _ body, _, next => by
      rw [Arm.openings, List.length_cons, block_openings_length body, Arm.blocks]

theorem block_openings_length : ∀ (statements : List Statement) (outer next : Nat),
    (blockOpenings outer next statements).length = blockBlocks statements
  | [], _, _ => rfl
  | statement :: rest, outer, next => by
      rw [blockOpenings, List.length_append, statement.openings_length,
        block_openings_length rest, blockBlocks]

theorem arm_openings_length : ∀ (arms : List Arm) (outer next : Nat),
    (armOpenings outer next arms).length = armBlocks arms
  | [], _, _ => rfl
  | arm :: rest, outer, next => by
      rw [armOpenings, List.length_append, arm.openings_length, arm_openings_length rest, armBlocks]

end

theorem Packet.openings_length (packet : Packet) (next : Nat) :
    (packet.openings next).length = packet.blocks := by
  rw [Packet.openings, List.length_cons, block_openings_length, Packet.blocks]

mutual

/-- No packet is inside a body. -/
theorem Statement.openings_unnamed (name : String) : ∀ (statement : Statement) (outer next : Nat),
    ∀ block ∈ statement.openings outer next, block.isNamed name = false
  | .always _ _ _, _, _, _, member => by cases member
  | .optional _ _ _ body, _, next, block, member => by
      rcases List.mem_cons.mp member with rfl | inside
      · rfl
      · exact block_openings_unnamed name body next (next + 1) block inside
  | .union _ _ arms, outer, next, block, member => arm_openings_unnamed name arms outer next block
      member

theorem Arm.openings_unnamed (name : String) : ∀ (arm : Arm) (outer next : Nat),
    ∀ block ∈ arm.openings outer next, block.isNamed name = false
  | .mk _ _ _ body, _, next, block, member => by
      rcases List.mem_cons.mp member with rfl | inside
      · rfl
      · exact block_openings_unnamed name body next (next + 1) block inside

theorem block_openings_unnamed (name : String) : ∀ (statements : List Statement)
    (outer next : Nat), ∀ block ∈ blockOpenings outer next statements, block.isNamed name = false
  | [], _, _, _, member => by cases member
  | statement :: rest, outer, next, block, member => by
      rcases List.mem_append.mp member with here | later
      · exact statement.openings_unnamed name outer next block here
      · exact block_openings_unnamed name rest outer _ block later

theorem arm_openings_unnamed (name : String) : ∀ (arms : List Arm) (outer next : Nat),
    ∀ block ∈ armOpenings outer next arms, block.isNamed name = false
  | [], _, _, _, member => by cases member
  | arm :: rest, outer, next, block, member => by
      rcases List.mem_append.mp member with here | later
      · exact arm.openings_unnamed name outer next block here
      · exact arm_openings_unnamed name rest outer _ block later

end

end PacketSchema.Tree

namespace PacketSchema

def Grammar.Rule.opensBlock : Grammar.Rule → Bool
  | .packet | .optional | .case | .otherwise => true
  | _ => false

namespace Tree

mutual

/-- The nodes that open a block, at or below a node and in the order of the text, each with the
number of the innermost one around it. -/
def Node.openings (outer : Option Nat) (next : Nat) : Node → List (Node × Option Nat)
  | .leaf _ _ _ => []
  | .branch rule location children =>
      if rule.opensBlock then
        (.branch rule location children, outer) :: nodeOpenings (some next) (next + 1) children
      else nodeOpenings outer next children

def nodeOpenings (outer : Option Nat) (next : Nat) : List Node → List (Node × Option Nat)
  | [] => []
  | node :: rest =>
      node.openings outer next ++
        nodeOpenings outer (next + (node.openings outer next).length) rest

end

theorem openings_of_closed {rule : Grammar.Rule} (closed : rule.opensBlock = false)
    (location : Location) (children : List Node) (outer : Option Nat) (next : Nat) :
    (Node.branch rule location children).openings outer next =
      nodeOpenings outer next children := by
  rw [Node.openings, closed, if_neg Bool.false_ne_true]

def Node.Plain (node : Node) : Prop := ∀ outer next, node.openings outer next = []

section Plain

variable {rule : Grammar.Rule} {location : Location} {children first : List Node}

theorem plain_leaf (rule : Grammar.Rule) (location : Location) (text : String) :
    (Node.leaf rule location text).Plain :=
  fun _ _ => by rw [Node.openings]

theorem node_openings_plain (plain : ∀ node ∈ first, node.Plain) (outer : Option Nat)
    (next : Nat) (rest : List Node) :
    nodeOpenings outer next (first ++ rest) = nodeOpenings outer next rest := by
  induction first generalizing next with
  | nil => rfl
  | cons node others later =>
      rw [List.forall_mem_cons] at plain
      rw [List.cons_append, nodeOpenings, plain.1 outer next, List.nil_append, List.length_nil,
        Nat.add_zero, later plain.2]

theorem plain_branch (closed : rule.opensBlock = false) (plain : ∀ node ∈ children, node.Plain) :
    (Node.branch rule location children).Plain := by
  intro outer next
  have inside := node_openings_plain plain outer next []
  rw [List.append_nil] at inside
  rw [openings_of_closed closed, inside, nodeOpenings]

theorem Value.plain (value : Value) : value.node.Plain := by
  apply plain_branch rfl
  intro node member
  cases List.mem_singleton.mp member
  cases value with
  | integer numeral => exact plain_leaf _ _ _
  | reference ident =>
      apply plain_branch rfl
      intro name inside
      cases List.mem_singleton.mp inside
      exact plain_leaf _ _ _

theorem unit_plain (unit : Located Measure) : (unitNode unit).Plain := by
  apply plain_branch rfl
  intro node member
  cases List.mem_singleton.mp member
  unfold measureNode
  split
  · apply plain_branch rfl
    intro order inside
    cases inside
  · apply plain_branch rfl
    intro order inside
    obtain ⟨written, _, rfl⟩ := List.mem_map.mp inside
    exact plain_leaf _ _ _

theorem Descriptor.plain (descriptor : Descriptor) : descriptor.node.Plain := by
  apply plain_branch rfl
  intro node member
  rcases List.mem_cons.mp member with rfl | size
  · exact plain_leaf _ _ _
  · rcases List.mem_append.mp size with wide | many
    · obtain ⟨width, _, rfl⟩ := List.mem_map.mp wide
      apply plain_branch rfl
      intro part inside
      rcases List.mem_cons.mp inside with rfl | last
      · exact width.count.plain
      · rw [List.mem_singleton.mp last]
        exact unit_plain width.unit
    · obtain ⟨count, _, rfl⟩ := List.mem_map.mp many
      exact count.plain

mutual

theorem Disjunction.children_plain : ∀ (condition : Disjunction),
    ∀ node ∈ condition.children, node.Plain
  | .single item, node, member => by
      rw [Disjunction.children] at member
      rw [List.mem_singleton.mp member]
      exact plain_branch rfl item.children_plain
  | .or left right, node, member => by
      rw [Disjunction.children] at member
      rcases List.mem_append.mp member with inside | last
      · exact left.children_plain node inside
      · rw [List.mem_singleton.mp last]
        exact plain_branch rfl right.children_plain

theorem Conjunction.children_plain : ∀ (conjunction : Conjunction),
    ∀ node ∈ conjunction.children, node.Plain
  | .single item, node, member => by
      rw [Conjunction.children] at member
      rw [List.mem_singleton.mp member]
      exact plain_branch rfl item.children_plain
  | .and left right, node, member => by
      rw [Conjunction.children] at member
      rcases List.mem_append.mp member with inside | last
      · exact left.children_plain node inside
      · rw [List.mem_singleton.mp last]
        exact plain_branch rfl right.children_plain

theorem Relation.children_plain : ∀ (relation : Relation),
    ∀ node ∈ relation.children, node.Plain
  | .operand only, node, member => by
      rw [Relation.children] at member
      rw [List.mem_singleton.mp member]
      exact only.plain
  | .compare left comparison right, node, member => by
      rw [Relation.children] at member
      simp only [List.mem_cons, List.not_mem_nil, or_false] at member
      rcases member with rfl | rfl | rfl
      · exact left.plain
      · exact plain_leaf _ _ _
      · exact right.plain

theorem Operand.plain : ∀ (operand : Operand), operand.node.Plain
  | .value written => by
      rw [Operand.node]
      exact written.plain
  | .negation location operand => by
      rw [Operand.node]
      apply plain_branch rfl
      intro node member
      rw [List.mem_singleton.mp member]
      exact operand.plain
  | .group location inner => by
      rw [Operand.node]
      exact plain_branch rfl inner.children_plain

end

theorem Disjunction.plain (condition : Disjunction) : condition.node.Plain :=
  plain_branch rfl condition.children_plain

theorem Tag.plain (tag : Tag) : tag.node.Plain := by
  apply plain_branch rfl
  intro node member
  simp only [List.mem_cons, List.not_mem_nil, or_false] at member
  rcases member with rfl | rfl
  · exact plain_leaf _ _ _
  · exact plain_leaf _ _ _

theorem Inheritance.plain (clause : Inheritance) : clause.node.Plain := by
  apply plain_branch rfl
  intro node member
  rcases List.mem_cons.mp member with rfl | condition
  · exact plain_leaf _ _ _
  · obtain ⟨written, _, rfl⟩ := List.mem_map.mp condition
    exact written.plain

end Plain

/-- A node that opens a block does so before all blocks inside it, which come after what is plain
in it. -/
theorem openings_of_opening {rule : Grammar.Rule} {first : List Node}
    (opening : rule.opensBlock = true) (location : Location)
    (plain : ∀ node ∈ first, node.Plain) (rest : List Node) (outer : Option Nat) (next : Nat) :
    (Node.branch rule location (first ++ rest)).openings outer next =
      (.branch rule location (first ++ rest), outer) ::
        nodeOpenings (some next) (next + 1) rest := by
  rw [Node.openings, if_pos opening, node_openings_plain plain]

def Block.entry (block : Block) : Node × Option Nat := (block.node, block.outer)

mutual

theorem Statement.node_openings : ∀ (statement : Statement) (outer next : Nat),
    statement.node.openings (some outer) next = (statement.openings outer next).map Block.entry
  | .always location ident descriptor, outer, next => by
      have plain : (Statement.always location ident descriptor).node.Plain := by
        rw [Statement.node]
        apply plain_branch rfl
        intro node member
        simp only [List.mem_cons, List.not_mem_nil, or_false] at member
        rcases member with rfl | rfl
        · exact plain_leaf _ _ _
        · exact descriptor.plain
      rw [plain, Statement.openings, List.map_nil]
  | .optional location ident condition body, outer, next => by
      have plain : ∀ node ∈ [identNode ident, condition.node], node.Plain := by
        intro node member
        simp only [List.mem_cons, List.not_mem_nil, or_false] at member
        rcases member with rfl | rfl
        · exact plain_leaf _ _ _
        · exact condition.plain
      rw [Statement.openings, List.map_cons, ← block_node_openings body]
      exact openings_of_opening rfl location plain (blockNodes body) (some outer) next
  | .union location ident arms, outer, next => by
      have plain : ∀ node ∈ [identNode ident], node.Plain := by
        intro node member
        rw [List.mem_singleton.mp member]
        exact plain_leaf _ _ _
      have inside := node_openings_plain plain (some outer) next (armNodes arms)
      rw [arm_node_openings arms] at inside
      rw [Statement.openings, ← inside, Statement.node, openings_of_closed rfl]
      rfl

theorem Arm.node_openings : ∀ (arm : Arm) (outer next : Nat),
    arm.node.openings (some outer) next = (arm.openings outer next).map Block.entry
  | .mk location (some guard) tag body, outer, next => by
      have plain : ∀ node ∈ [guard.node, tag.node], node.Plain := by
        intro node member
        simp only [List.mem_cons, List.not_mem_nil, or_false] at member
        rcases member with rfl | rfl
        · exact guard.plain
        · exact tag.plain
      rw [Arm.openings, List.map_cons, ← block_node_openings body]
      exact openings_of_opening rfl location plain (blockNodes body) (some outer) next
  | .mk location none tag body, outer, next => by
      have plain : ∀ node ∈ [tag.node], node.Plain := by
        intro node member
        rw [List.mem_singleton.mp member]
        exact tag.plain
      rw [Arm.openings, List.map_cons, ← block_node_openings body]
      exact openings_of_opening rfl location plain (blockNodes body) (some outer) next

theorem block_node_openings : ∀ (statements : List Statement) (outer next : Nat),
    nodeOpenings (some outer) next (blockNodes statements) =
      (blockOpenings outer next statements).map Block.entry
  | [], _, _ => rfl
  | statement :: rest, outer, next => by
      rw [blockNodes, nodeOpenings, blockOpenings, List.map_append, statement.node_openings,
        List.length_map, statement.openings_length, block_node_openings rest]

theorem arm_node_openings : ∀ (arms : List Arm) (outer next : Nat),
    nodeOpenings (some outer) next (armNodes arms) =
      (armOpenings outer next arms).map Block.entry
  | [], _, _ => rfl
  | arm :: rest, outer, next => by
      rw [armNodes, nodeOpenings, armOpenings, List.map_append, arm.node_openings,
        List.length_map, arm.openings_length, arm_node_openings rest]

end

theorem Packet.node_openings (packet : Packet) (next : Nat) :
    packet.node.openings none next = (packet.openings next).map Block.entry := by
  have plain : ∀ node ∈ identNode packet.ident :: packet.inheritance.toList.map Inheritance.node,
      node.Plain := by
    intro node member
    rcases List.mem_cons.mp member with rfl | clause
    · exact plain_leaf _ _ _
    · obtain ⟨written, _, rfl⟩ := List.mem_map.mp clause
      exact written.plain
  rw [Packet.openings, List.map_cons, ← block_node_openings packet.body]
  exact openings_of_opening rfl packet.ident.location plain (blockNodes packet.body) none next

/-- After the packets comes only the node for the end of the text. -/
theorem packet_node_openings (packets : List Packet) (finish : Location) (next : Nat) :
    nodeOpenings none next (packets.map Packet.node ++ [endNode finish]) =
      (packetOpenings next packets).map Block.entry := by
  induction packets generalizing next with
  | nil => rfl
  | cons packet rest later =>
      rw [List.map_cons, List.cons_append, nodeOpenings, packetOpenings, List.map_append,
        packet.node_openings, List.length_map, packet.openings_length, later]

/-- The blocks of a tree are the nodes that open a block, in the order of the text, and around
each is the innermost one that it stands in. -/
theorem Module.node_openings (tree : Module) :
    tree.node.openings none 0 = tree.openings.map Block.entry := by
  rw [Module.node, openings_of_closed rfl, packet_node_openings]
  rfl

end Tree

end PacketSchema
