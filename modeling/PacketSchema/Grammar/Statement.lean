import PacketSchema.Grammar.Condition

/-!
Statements: scalars, optional blocks, unions and the empty statement. Blocks hold statements
again; each statement that has a block is first given over the reader of its block, and a bound
on the depth of nesting, for which the length of the text is enough, ties the two together.
-/

namespace PacketSchema.Grammar.Parser

open PacketSchema.Tree (Statement)

def tag : Parser Tree.Tag :=
  named .tag (do
    let location ← here
    mark ['|']
    let label ← ident
    mark [':']
    let value ← integer
    mark ['|']
    return ⟨location, label, value⟩)

def braced {Item : Type} (block : Parser Item) : Parser Item := do
  mark ['\x7b']
  let item ← block
  mark ['\x7d']
  return item

def alwaysStatement : Parser Statement :=
  named .always (do
    let location ← here
    reserved .always
    let ident ← ident
    let descriptor ← descriptor
    mark [';']
    return .always location ident descriptor)

def optionalOf (bound : Nat) (block : Parser (List Statement)) : Parser Statement :=
  named .optional (do
    let location ← here
    reserved .optional
    let ident ← ident
    reserved .when
    let condition ← guard bound
    let body ← braced block
    return .optional location ident condition body)

def caseOf (bound : Nat) (block : Parser (List Statement)) : Parser Tree.Arm :=
  named .case (do
    let location ← here
    reserved .case
    let condition ← guard bound
    let tag ← tag
    let body ← braced block
    return .mk location (some condition) tag body)

def otherwiseOf (block : Parser (List Statement)) : Parser Tree.Arm :=
  named .otherwise (do
    let location ← here
    reserved .otherwise
    let tag ← tag
    let body ← braced block
    return .mk location none tag body)

def unionOf (bound : Nat) (block : Parser (List Statement)) : Parser Statement :=
  named .union (do
    let location ← here
    reserved .union
    let ident ← ident
    let arms ← braced (do
      let cases ← many bound (caseOf bound block)
      let otherwise ← option (otherwiseOf block)
      return cases ++ otherwise.toList)
    return .union location ident arms)

def emptyStatement : Parser Unit := mark [';']

/-- Reads a statement; nothing is left of an empty one. -/
def statementOf (bound : Nat) (block : Parser (List Statement)) : Parser (Option Statement) :=
  (do
    let statement ← alwaysStatement <|> optionalOf bound block <|> unionOf bound block
    return some statement) <|>
  (do
    emptyStatement
    return none)

def block : Nat → Parser (List Statement)
  | 0, cursor => refuse cursor
  | bound + 1, cursor =>
      (do
        let statements ← many bound (statementOf bound (block bound))
        return statements.filterMap id : Parser (List Statement)) cursor

end PacketSchema.Grammar.Parser
