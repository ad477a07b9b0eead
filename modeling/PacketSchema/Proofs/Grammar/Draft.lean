import PacketSchema.Proofs.Grammar.Lexeme

/-!
# What a schema text says

A draft is a schema before it is laid out as a text: its packets, statements and conditions with
the identifiers and integers they are written with, and no places. A condition is a list of
alternatives, each of them a list of conjuncts; an arm for all other cases can only be the last;
empty statements stand where they are written. A draft has its lexemes, in the order of the
grammar, and for every way to place them a tree.
-/

namespace PacketSchema.Draft

open Grammar (Keyword Mark Lexeme)

inductive Value where
  | integer (numeral : String)
  | reference (name : String)
deriving DecidableEq, Repr

structure Width where
  count : Value
  unit : WidthUnit
deriving DecidableEq, Repr

structure Descriptor where
  scalar : ScalarType
  width : Option Width
  count : Option Value
deriving DecidableEq, Repr

mutual

inductive Disjunction where
  | mk (first : Conjunction) (others : List Conjunction)

inductive Conjunction where
  | mk (first : Relation) (others : List Relation)

inductive Relation where
  | operand (operand : Operand)
  | compare (left : Operand) (comparison : Comparison) (right : Operand)

inductive Operand where
  | value (value : Value)
  | negation (operand : Operand)
  | group (inner : Disjunction)

end

def Disjunction.extend : Disjunction → Conjunction → Disjunction
  | .mk first others, next => .mk first (others ++ [next])

def Conjunction.extend : Conjunction → Relation → Conjunction
  | .mk first others, next => .mk first (others ++ [next])

def Disjunction.only (operand : Operand) : Disjunction := .mk (.mk (.operand operand) []) []

structure Tag where
  label : String
  value : String
deriving DecidableEq, Repr

mutual

inductive Statement where
  | always (ident : String) (descriptor : Descriptor)
  | optional (ident : String) (condition : Disjunction) (body : List Statement)
  | union (ident : String) (cases : List Case) (otherwise : Option Otherwise)
  | empty

inductive Case where
  | mk (condition : Disjunction) (tag : Tag) (body : List Statement)

inductive Otherwise where
  | mk (tag : Tag) (body : List Statement)

end

structure Inheritance where
  parent : String
  condition : Option Disjunction

structure Packet where
  ident : String
  inheritance : Option Inheritance
  body : List Statement

structure Module where
  packets : List Packet

def annexed (lexemes : List Lexeme) : List Lexeme := .mark .colon :: lexemes

def parenthesized (lexemes : List Lexeme) : List Lexeme :=
  .mark .openGroup :: (lexemes ++ [.mark .closeGroup])

def braced (lexemes : List Lexeme) : List Lexeme :=
  .mark .openBrace :: (lexemes ++ [.mark .closeBrace])

theorem parenthesized_length (lexemes : List Lexeme) :
    (parenthesized lexemes).length = 1 + lexemes.length + 1 := by
  rw [parenthesized, List.length_cons, List.length_append, List.length_singleton]
  omega

theorem braced_length (lexemes : List Lexeme) :
    (braced lexemes).length = 1 + lexemes.length + 1 := by
  rw [braced, List.length_cons, List.length_append, List.length_singleton]
  omega

def Value.lexeme : Value → Lexeme
  | .integer numeral => .integer numeral
  | .reference name => .reference name

def orderKeyword : ByteOrder → Keyword
  | .big => .big
  | .little => .little

def unitLexemes : WidthUnit → List Lexeme
  | .bits => [.keyword .bits]
  | .bytes order => .keyword .bytes :: order.toList.map fun order => .keyword (orderKeyword order)

def Width.lexemes (width : Width) : List Lexeme := width.count.lexeme :: unitLexemes width.unit

def scalarLexeme : ScalarType → Lexeme
  | .ignored => .mark .ignored
  | .signed => .keyword .signed
  | .unsigned => .keyword .unsigned

def widthLexemes : Option Width → List Lexeme
  | none => []
  | some width => annexed width.lexemes

def countLexemes : Option Value → List Lexeme
  | none => []
  | some count => annexed [count.lexeme]

def Descriptor.lexemes (descriptor : Descriptor) : List Lexeme :=
  scalarLexeme descriptor.scalar :: (widthLexemes descriptor.width ++ countLexemes descriptor.count)

mutual

def Disjunction.lexemes : Disjunction → List Lexeme
  | .mk first others => first.lexemes ++ alternativeLexemes others

def alternativeLexemes : List Conjunction → List Lexeme
  | [] => []
  | next :: rest => .mark .either :: (next.lexemes ++ alternativeLexemes rest)

def Conjunction.lexemes : Conjunction → List Lexeme
  | .mk first others => first.lexemes ++ conjunctLexemes others

def conjunctLexemes : List Relation → List Lexeme
  | [] => []
  | next :: rest => .mark .both :: (next.lexemes ++ conjunctLexemes rest)

def Relation.lexemes : Relation → List Lexeme
  | .operand only => only.lexemes
  | .compare left comparison right =>
      left.lexemes ++ .mark (.comparison comparison) :: right.lexemes

def Operand.lexemes : Operand → List Lexeme
  | .value written => [written.lexeme]
  | .negation operand => .mark .negation :: operand.lexemes
  | .group inner => parenthesized inner.lexemes

end

theorem Disjunction.only_lexemes (operand : Operand) :
    (Disjunction.only operand).lexemes = operand.lexemes := by
  simp [Disjunction.only, Disjunction.lexemes, Conjunction.lexemes, Relation.lexemes,
    alternativeLexemes, conjunctLexemes]

def joinedLexemes {Part : Type} (join : Mark) (lexemes : Part → List Lexeme) :
    List Part → List Lexeme
  | [] => []
  | next :: rest => .mark join :: (lexemes next ++ joinedLexemes join lexemes rest)

theorem joined_lexemes_map {Part Item : Type} (join : Mark) (lexemes : Part → List Lexeme)
    (part : Item → Part) (items : List Item) :
    joinedLexemes join lexemes (items.map part) =
      joinedLexemes join (fun item => lexemes (part item)) items := by
  induction items with
  | nil => rfl
  | cons next rest later => rw [List.map_cons, joinedLexemes, joinedLexemes, later]

theorem conjunct_lexemes_eq (rest : List Relation) :
    conjunctLexemes rest = joinedLexemes .both Relation.lexemes rest := by
  induction rest with
  | nil => rfl
  | cons next rest later => rw [conjunctLexemes, joinedLexemes, later]

theorem alternative_lexemes_eq (rest : List Conjunction) :
    alternativeLexemes rest = joinedLexemes .either Conjunction.lexemes rest := by
  induction rest with
  | nil => rfl
  | cons next rest later => rw [alternativeLexemes, joinedLexemes, later]

def Tag.lexemes (tag : Tag) : List Lexeme :=
  [.mark .bar, .ident tag.label, .mark .colon, .integer tag.value, .mark .bar]

mutual

def Statement.lexemes : Statement → List Lexeme
  | .always ident descriptor =>
      .keyword .always :: .ident ident :: (descriptor.lexemes ++ [.mark .semicolon])
  | .optional ident condition body =>
      .keyword .optional :: .ident ident :: .keyword .when ::
        (parenthesized condition.lexemes ++ braced (blockLexemes body))
  | .union ident cases otherwise =>
      .keyword .union :: .ident ident ::
        braced (caseLexemes cases ++ otherwiseLexemes otherwise)
  | .empty => [.mark .semicolon]

def Case.lexemes : Case → List Lexeme
  | .mk condition tag body =>
      .keyword .case ::
        (parenthesized condition.lexemes ++ (tag.lexemes ++ braced (blockLexemes body)))

def Otherwise.lexemes : Otherwise → List Lexeme
  | .mk tag body => .keyword .otherwise :: (tag.lexemes ++ braced (blockLexemes body))

def blockLexemes : List Statement → List Lexeme
  | [] => []
  | statement :: rest => statement.lexemes ++ blockLexemes rest

def caseLexemes : List Case → List Lexeme
  | [] => []
  | next :: rest => next.lexemes ++ caseLexemes rest

def otherwiseLexemes : Option Otherwise → List Lexeme
  | none => []
  | some last => last.lexemes

end

def conditionLexemes : Option Disjunction → List Lexeme
  | none => []
  | some condition => parenthesized condition.lexemes

def Inheritance.lexemes (clause : Inheritance) : List Lexeme :=
  annexed (.ident clause.parent :: conditionLexemes clause.condition)

def inheritanceLexemes : Option Inheritance → List Lexeme
  | none => []
  | some clause => clause.lexemes

def Packet.lexemes (packet : Packet) : List Lexeme :=
  .ident packet.ident ::
    (inheritanceLexemes packet.inheritance ++ braced (blockLexemes packet.body))

def packetLexemes : List Packet → List Lexeme
  | [] => []
  | packet :: rest => packet.lexemes ++ packetLexemes rest

def Module.lexemes (schema : Module) : List Lexeme := packetLexemes schema.packets

/-! The tree of a part of a schema, where `place` tells the place of every lexeme of the schema by
its number and the part begins with the lexeme of number `index`. -/

section Placed

variable (place : Nat → Location) (index : Nat)

def Value.tree : Value → Tree.Value
  | .integer numeral => .integer ⟨place index, numeral⟩
  | .reference name => .reference ⟨place index, name⟩

def unitTree : WidthUnit → Tree.Measure
  | .bits => .bits
  | .bytes order => .bytes (order.map fun order => ⟨place (index + 1), order⟩)

def Width.tree (width : Width) : Tree.Width :=
  ⟨width.count.tree place index, ⟨place (index + 1), unitTree place (index + 1) width.unit⟩⟩

def Descriptor.tree (descriptor : Descriptor) : Tree.Descriptor where
  scalar := ⟨place index, descriptor.scalar⟩
  width := descriptor.width.map (Width.tree place (index + 2))
  count := descriptor.count.map
    (Value.tree place (index + 1 + (widthLexemes descriptor.width).length + 1))

end Placed

section Conditions

variable (place : Nat → Location)

mutual

def Disjunction.tree (index : Nat) : Disjunction → Tree.Disjunction
  | .mk first others =>
      (alternativeTrees (index + first.lexemes.length) others).foldl .or
        (.single (first.tree index))

def alternativeTrees (index : Nat) : List Conjunction → List Tree.Conjunction
  | [] => []
  | next :: rest =>
      next.tree (index + 1) :: alternativeTrees (index + 1 + next.lexemes.length) rest

def Conjunction.tree (index : Nat) : Conjunction → Tree.Conjunction
  | .mk first others =>
      (conjunctTrees (index + first.lexemes.length) others).foldl .and (.single (first.tree index))

def conjunctTrees (index : Nat) : List Relation → List Tree.Relation
  | [] => []
  | next :: rest =>
      next.tree (index + 1) :: conjunctTrees (index + 1 + next.lexemes.length) rest

def Relation.tree (index : Nat) : Relation → Tree.Relation
  | .operand only => .operand (only.tree index)
  | .compare left comparison right =>
      .compare (left.tree index) ⟨place (index + left.lexemes.length), comparison⟩
        (right.tree (index + left.lexemes.length + 1))

def Operand.tree (index : Nat) : Operand → Tree.Operand
  | .value written => .value (written.tree place index)
  | .negation operand => .negation (place index) (operand.tree (index + 1))
  | .group inner => .group (place index) (inner.tree (index + 1))

end

theorem Disjunction.only_tree (operand : Operand) (index : Nat) :
    (Disjunction.only operand).tree place index =
      .single (.single (.operand (operand.tree place index))) := by
  simp [Disjunction.only, Disjunction.tree, Conjunction.tree, Relation.tree, alternativeTrees,
    conjunctTrees]

end Conditions

section Statements

variable (place : Nat → Location)

def Tag.tree (index : Nat) (tag : Tag) : Tree.Tag :=
  ⟨place index, ⟨place (index + 1), tag.label⟩, ⟨place (index + 3), tag.value⟩⟩

mutual

/-- Nothing is left of an empty statement. -/
def Statement.tree (index : Nat) : Statement → Option Tree.Statement
  | .always ident descriptor =>
      some (.always (place index) ⟨place (index + 1), ident⟩ (descriptor.tree place (index + 2)))
  | .optional ident condition body =>
      some (.optional (place index) ⟨place (index + 1), ident⟩ (condition.tree place (index + 4))
        (blockTree (index + 3 + (parenthesized condition.lexemes).length + 1) body))
  | .union ident cases otherwise =>
      some (.union (place index) ⟨place (index + 1), ident⟩
        (caseTrees (index + 3) cases ++
          (otherwiseTree (index + 3 + (caseLexemes cases).length) otherwise).toList))
  | .empty => none

def Case.tree (index : Nat) : Case → Tree.Arm
  | .mk condition tag body =>
      .mk (place index) (some (condition.tree place (index + 2)))
        (tag.tree place (index + 1 + (parenthesized condition.lexemes).length))
        (blockTree (index + 1 + (parenthesized condition.lexemes).length + tag.lexemes.length + 1)
          body)

def Otherwise.tree (index : Nat) : Otherwise → Tree.Arm
  | .mk tag body =>
      .mk (place index) none (tag.tree place (index + 1))
        (blockTree (index + 1 + tag.lexemes.length + 1) body)

def blockTree (index : Nat) : List Statement → List Tree.Statement
  | [] => []
  | statement :: rest =>
      (statement.tree index).toList ++ blockTree (index + statement.lexemes.length) rest

def caseTrees (index : Nat) : List Case → List Tree.Arm
  | [] => []
  | next :: rest => next.tree index :: caseTrees (index + next.lexemes.length) rest

def otherwiseTree (index : Nat) : Option Otherwise → Option Tree.Arm
  | none => none
  | some last => some (last.tree index)

end

def Inheritance.tree (index : Nat) (clause : Inheritance) : Tree.Inheritance where
  location := place index
  parent := ⟨place (index + 1), clause.parent⟩
  condition := clause.condition.map (Disjunction.tree place (index + 3))

def Packet.tree (index : Nat) (packet : Packet) : Tree.Packet where
  ident := ⟨place index, packet.ident⟩
  inheritance := packet.inheritance.map (Inheritance.tree place (index + 1))
  body := blockTree place (index + 1 + (inheritanceLexemes packet.inheritance).length + 1)
    packet.body

def packetTrees (index : Nat) : List Packet → List Tree.Packet
  | [] => []
  | packet :: rest => packet.tree place index :: packetTrees (index + packet.lexemes.length) rest

/-- A whole schema; its text ends at the place after the last lexeme. -/
def Module.tree (schema : Module) : Tree.Module :=
  ⟨packetTrees place 0 schema.packets, place schema.lexemes.length⟩

end Statements

end PacketSchema.Draft
