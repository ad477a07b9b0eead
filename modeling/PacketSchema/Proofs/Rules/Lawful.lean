import PacketSchema.Model.Error
import PacketSchema.Proofs.Formula

/-!
# The rules of a lawful text

The rules are about the tree as a whole. They know no scope, no number of a packet and no order
of checks: each says what holds of every statement, every arm or every packet, given what is
visible there. Conditions are compared by what they say, numerals by their numbers, so neither
parentheses nor the base of a numeral makes two of them different.
-/

namespace PacketSchema.Tree

/-- What a statement declares, as others see it. -/
structure Binding where
  ident : String
  kind : FieldKind
deriving DecidableEq, Repr

def Statement.binding : Statement → Binding
  | .always _ ident _ => ⟨ident.item, .always⟩
  | .optional _ ident _ _ => ⟨ident.item, .optional⟩
  | .union _ ident _ => ⟨ident.item, .union⟩

/-- A statement and what is visible to it: the statements before it in its own block and in every
enclosing one, the enclosing statements themselves, and what its packet inherits. -/
structure Site where
  visible : List Binding
  statement : Statement

mutual

/-- A statement's own site and those inside it, where the statement itself is visible too. -/
def Statement.sites (visible : List Binding) : Statement → List Site
  | .always location ident descriptor => [⟨visible, .always location ident descriptor⟩]
  | .optional location ident condition body =>
      ⟨visible, .optional location ident condition body⟩ ::
        blockSites (visible ++ [⟨ident.item, .optional⟩]) body
  | .union location ident arms =>
      ⟨visible, .union location ident arms⟩ :: armSites (visible ++ [⟨ident.item, .union⟩]) arms

def Arm.sites (visible : List Binding) : Arm → List Site
  | .mk _ _ _ body => blockSites visible body

/-- Every statement of a block is visible to those after it. -/
def blockSites (visible : List Binding) : List Statement → List Site
  | [] => []
  | statement :: rest =>
      statement.sites visible ++ blockSites (visible ++ [statement.binding]) rest

/-- The arms of a union do not see each other. -/
def armSites (visible : List Binding) : List Arm → List Site
  | [] => []
  | arm :: rest => arm.sites visible ++ armSites visible rest

end

/-- A packet and the packets before it in the text, from the latest back. -/
structure PacketSite where
  earlier : List Packet
  packet : Packet

def packetSites (earlier : List Packet) : List Packet → List PacketSite
  | [] => []
  | packet :: rest => ⟨earlier, packet⟩ :: packetSites (packet :: earlier) rest

/-- The statements of the packet of a name and of its ancestors, the farthest ancestor first. -/
def ancestral : List Packet → String → List Binding
  | [], _ => []
  | packet :: earlier, name =>
      if packet.ident.item = name then
        (packet.inheritance.elim [] fun clause => ancestral earlier clause.parent.item) ++
          packet.body.map Statement.binding
      else ancestral earlier name

def PacketSite.inherited (site : PacketSite) : List Binding :=
  site.packet.inheritance.elim [] fun clause => ancestral site.earlier clause.parent.item

def Module.packetSites (tree : Module) : List PacketSite := Tree.packetSites [] tree.packets

def Module.sites (tree : Module) : List Site :=
  tree.packetSites.flatMap fun site => blockSites site.inherited site.packet.body

/-- Only what is always there can be referred to. -/
def Value.Visible (visible : List Binding) : Value → Prop
  | .integer _ => True
  | .reference ident => ⟨ident.item, .always⟩ ∈ visible

def InRange (bound : Nat) (numeral : Token) : Prop :=
  ∃ number, number? numeral = some number ∧ number < bound

def Value.InRange (bound : Nat) : Value → Prop
  | .integer numeral => Tree.InRange bound numeral
  | .reference _ => True

/-- Arms of one union have conditions, labels and values of their own; at most one of them has no
condition. -/
def Arm.Apart (left right : Arm) : Prop :=
  selectionFormula left.guard ≠ selectionFormula right.guard ∧
    left.tag.label.item ≠ right.tag.label.item ∧
    number? left.tag.value ≠ number? right.tag.value

/-- Packets that derive from one packet have conditions of their own; at most one of them has
none. -/
def Packet.Apart (left right : Packet) : Prop :=
  ∀ clause ∈ left.inheritance, ∀ other ∈ right.inheritance,
    clause.parent.item = other.parent.item →
      selectionFormula clause.condition ≠ selectionFormula other.condition

def Statement.descriptor? : Statement → Option Descriptor
  | .always _ _ descriptor => some descriptor
  | .optional _ _ _ _ => none
  | .union _ _ _ => none

/-- The sizes that a statement gives itself, what stands inside it left aside. -/
def Statement.sizes (statement : Statement) : List Value :=
  statement.descriptor?.elim [] Descriptor.leaves

def Statement.operands : Statement → List Value
  | .always _ _ _ => []
  | .optional _ _ condition _ => condition.leaves
  | .union _ _ arms => arms.flatMap fun arm => selectionLeaves arm.guard

def Statement.arms : Statement → List Arm
  | .always _ _ _ => []
  | .optional _ _ _ _ => []
  | .union _ _ arms => arms

structure Site.Lawful (site : Site) : Prop where
  fresh : ∀ binding ∈ site.visible, binding.ident ≠ site.statement.binding.ident
  referred : ∀ leaf ∈ site.statement.sizes ++ site.statement.operands, leaf.Visible site.visible
  sized : ∀ descriptor ∈ site.statement.descriptor?,
    descriptor.width ≠ none ∨ descriptor.count ≠ none
  sizesInRange : ∀ leaf ∈ site.statement.sizes, leaf.InRange UInt64.size
  operandsInRange : ∀ leaf ∈ site.statement.operands, leaf.InRange signedSize
  tagsInRange : ∀ arm ∈ site.statement.arms, InRange signedSize arm.tag.value
  armsApart : site.statement.arms.Pairwise Arm.Apart

structure Inheritance.Lawful (clause : Inheritance) (earlier : List Packet) : Prop where
  declared : ∃ parent ∈ earlier, parent.ident.item = clause.parent.item
  referred : ∀ leaf ∈ selectionLeaves clause.condition,
    leaf.Visible (ancestral earlier clause.parent.item)
  inRange : ∀ leaf ∈ selectionLeaves clause.condition, leaf.InRange signedSize

structure Module.Lawful (tree : Module) : Prop where
  packetsDistinct : (tree.packets.map fun packet => packet.ident.item).Nodup
  clauses : ∀ site ∈ tree.packetSites, ∀ clause ∈ site.packet.inheritance,
    clause.Lawful site.earlier
  statements : ∀ site ∈ tree.sites, site.Lawful
  packetsApart : tree.packets.Pairwise Packet.Apart

/-! The rules can be computed. -/

instance (visible : List Binding) (leaf : Value) : Decidable (leaf.Visible visible) :=
  match leaf with
  | .integer _ => inferInstanceAs (Decidable True)
  | .reference ident => inferInstanceAs (Decidable (⟨ident.item, .always⟩ ∈ visible))

instance (bound : Nat) (numeral : Token) : Decidable (InRange bound numeral) :=
  decidable_of_iff ((number? numeral).any (· < bound) = true) (by
    unfold InRange
    cases number? numeral <;> simp)

instance (bound : Nat) (leaf : Value) : Decidable (leaf.InRange bound) :=
  match leaf with
  | .integer numeral => inferInstanceAs (Decidable (Tree.InRange bound numeral))
  | .reference _ => inferInstanceAs (Decidable True)

instance (left right : Arm) : Decidable (left.Apart right) :=
  inferInstanceAs (Decidable (_ ∧ _ ∧ _))

instance (left right : Packet) : Decidable (left.Apart right) :=
  inferInstanceAs (Decidable (∀ clause ∈ left.inheritance, ∀ other ∈ right.inheritance, _ → _))

instance (site : Site) : Decidable site.Lawful :=
  decidable_of_iff
    ((∀ binding ∈ site.visible, binding.ident ≠ site.statement.binding.ident) ∧
      (∀ leaf ∈ site.statement.sizes ++ site.statement.operands, leaf.Visible site.visible) ∧
      (∀ descriptor ∈ site.statement.descriptor?,
        descriptor.width ≠ none ∨ descriptor.count ≠ none) ∧
      (∀ leaf ∈ site.statement.sizes, leaf.InRange UInt64.size) ∧
      (∀ leaf ∈ site.statement.operands, leaf.InRange signedSize) ∧
      (∀ arm ∈ site.statement.arms, InRange signedSize arm.tag.value) ∧
      site.statement.arms.Pairwise Arm.Apart)
    ⟨fun ⟨fresh, referred, sized, sizes, operands, tags, apart⟩ =>
      ⟨fresh, referred, sized, sizes, operands, tags, apart⟩,
    fun lawful => ⟨lawful.fresh, lawful.referred, lawful.sized, lawful.sizesInRange,
      lawful.operandsInRange, lawful.tagsInRange, lawful.armsApart⟩⟩

instance (clause : Inheritance) (earlier : List Packet) : Decidable (clause.Lawful earlier) :=
  decidable_of_iff
    ((∃ parent ∈ earlier, parent.ident.item = clause.parent.item) ∧
      (∀ leaf ∈ selectionLeaves clause.condition,
        leaf.Visible (ancestral earlier clause.parent.item)) ∧
      ∀ leaf ∈ selectionLeaves clause.condition, leaf.InRange signedSize)
    ⟨fun ⟨declared, referred, inRange⟩ => ⟨declared, referred, inRange⟩,
    fun lawful => ⟨lawful.declared, lawful.referred, lawful.inRange⟩⟩

instance (tree : Module) : Decidable tree.Lawful :=
  decidable_of_iff
    ((tree.packets.map fun packet => packet.ident.item).Nodup ∧
      (∀ site ∈ tree.packetSites, ∀ clause ∈ site.packet.inheritance,
        clause.Lawful site.earlier) ∧
      (∀ site ∈ tree.sites, site.Lawful) ∧ tree.packets.Pairwise Packet.Apart)
    ⟨fun ⟨distinct, clauses, statements, apart⟩ => ⟨distinct, clauses, statements, apart⟩,
    fun lawful => ⟨lawful.packetsDistinct, lawful.clauses, lawful.statements,
      lawful.packetsApart⟩⟩

end PacketSchema.Tree
