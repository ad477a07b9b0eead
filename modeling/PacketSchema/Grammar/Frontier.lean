import PacketSchema.Grammar.Rule
import PacketSchema.Text.Location

/-!
The frontier of a reading: the furthest place where a rule was refused, and the rules refused
there. Refusals are never forgotten when a reading goes back and tries something else, so a
failed reading can say how far the text made sense and what could have followed.
-/

namespace PacketSchema.Grammar

structure Frontier where
  place : Location
  rules : List Rule
deriving DecidableEq, Repr

namespace Frontier

def empty : Frontier := ⟨.start, []⟩

/-- The further of two frontiers; at one place the refused rules of both. -/
def join (left right : Frontier) : Frontier :=
  if left.place.isBefore right.place then right
  else if right.place.isBefore left.place then left
  else ⟨left.place, left.rules ++ right.rules⟩

/-- The frontier of a rule that was refused at `place`, `inside` being that of its body. What the
body met further on counts for more than the rule itself. At `place` the rule stands for all that
its body tried there, unless that was a single rule, which then says more than this one. -/
def refuse (rule : Rule) (place : Location) (inside : Frontier) : Frontier :=
  if place.isBefore inside.place then inside
  else if inside.place = place ∧ inside.rules.length = 1 then inside
  else ⟨place, [rule]⟩

/-- The refused rules, each once and in the order of the grammar. -/
def expected (frontier : Frontier) : List Rule :=
  Rule.all.filter fun rule => frontier.rules.contains rule

end Frontier

end PacketSchema.Grammar
