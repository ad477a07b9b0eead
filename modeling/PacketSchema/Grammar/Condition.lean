import PacketSchema.Grammar.Descriptor

/-!
Conditions. Alternatives bind loosest, then conjuncts, then relations; a negation applies to the
operand that follows it, and parentheses make an operand of any condition. Each level is first
given over the level below it, whatever that reads; the levels are then tied into one recursion
that a bound on the depth of nesting makes finite. Every step down takes a parenthesis or an
exclamation mark, so the length of the text is bound enough.
-/

namespace PacketSchema.Grammar.Parser

open PacketSchema.Tree (Located Operand Relation Conjunction Disjunction)

/-- Reads the symbol of a comparison, a longer one before one that begins it. -/
def bareComparison : Parser Comparison :=
  choice ([.greaterOrEqual, .lessOrEqual, .equal, .notEqual, .greater, .less].map
    fun comparison => do
      literal comparison.symbol.toList
      return comparison)

def comparison : Parser (Located Comparison) :=
  beforeGap (located (named .comparison bareComparison))

def relationOf (operand : Parser Operand) : Parser Relation :=
  named .relation (do
    let left ← operand
    let rest ← option (do
      let comparison ← comparison
      let right ← operand
      return (comparison, right))
    return match rest with
      | none => .operand left
      | some (comparison, right) => .compare left comparison right)

def conjunctionOf (bound : Nat) (operand : Parser Operand) : Parser Conjunction :=
  named .conjunction (do
    let first ← relationOf operand
    let others ← many bound (do
      mark ['&', '&']
      relationOf operand)
    return others.foldl .and (.single first))

def disjunctionOf (bound : Nat) (operand : Parser Operand) : Parser Disjunction :=
  named .disjunction (do
    let first ← conjunctionOf bound operand
    let others ← many bound (do
      mark ['|', '|']
      conjunctionOf bound operand)
    return others.foldl .or (.single first))

def negationOf (operand : Parser Operand) : Parser Operand :=
  named .negation (do
    let location ← here
    mark ['!']
    let operand ← operand
    return .negation location operand)

def groupOf (disjunction : Parser Disjunction) : Parser Operand := do
  let location ← here
  mark ['(']
  let inner ← disjunction
  mark [')']
  return .group location inner

def operand : Nat → Parser Operand
  | 0, cursor => refuse cursor
  | bound + 1, cursor =>
      (negationOf (operand bound) <|> groupOf (disjunctionOf bound (operand bound)) <|> (do
        let written ← value
        return .value written)) cursor

def relation (bound : Nat) : Parser Relation := relationOf (operand bound)

def conjunction (bound : Nat) : Parser Conjunction := conjunctionOf bound (operand bound)

def condition (bound : Nat) : Parser Disjunction := disjunctionOf bound (operand bound)

def guard (bound : Nat) : Parser Disjunction := do
  mark ['(']
  let condition ← condition bound
  mark [')']
  return condition

end PacketSchema.Grammar.Parser
