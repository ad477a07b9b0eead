import PacketSchema.Grammar.Statement

/-!
Packets and whole texts. A text is a sequence of packets with gaps around them, and is read to
its end or not at all.
-/

namespace PacketSchema.Grammar

namespace Parser

def inheritance (bound : Nat) : Parser Tree.Inheritance :=
  named .inheritance (do
    let location ← here
    mark [':']
    let parent ← ident
    let condition ← option (guard bound)
    return ⟨location, parent, condition⟩)

def packet (bound : Nat) : Parser Tree.Packet :=
  named .packet (do
    let ident ← ident
    let inheritance ← option (inheritance bound)
    let body ← braced (block bound)
    return ⟨ident, inheritance, body⟩)

def bareEndOfInput : Parser Unit := fun cursor =>
  if cursor.rest.isEmpty then ⟨some ((), cursor), .empty⟩ else ⟨none, .empty⟩

def endOfInput : Parser Location :=
  named .endOfInput (do
    let location ← here
    bareEndOfInput
    return location)

def module (bound : Nat) : Parser Tree.Module :=
  named .module (do
    gap
    let packets ← many bound (packet bound)
    let finish ← endOfInput
    return ⟨packets, finish⟩)

end Parser

/-- A bound for everything that a text can repeat or nest: one more than its characters. -/
def boundOf (text : List Char) : Nat := text.length + 1

end PacketSchema.Grammar
