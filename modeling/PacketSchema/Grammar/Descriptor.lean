import PacketSchema.Grammar.Word

/-!
Values and descriptors. A descriptor is a scalar type, then a width, which has a unit, then a
count, which has none; each of the two comes after a colon and either may be missing. No gap
stands between an ampersand and its identifier.
-/

namespace PacketSchema.Grammar.Parser

open PacketSchema.Tree (Token Located)

def bareReference : Parser String := do
  literal ['&']
  named .ident bareIdent

def reference : Parser Token := beforeGap (located (named .reference bareReference))

def value : Parser Tree.Value :=
  named .value
    ((do
      let numeral ← integer
      return .integer numeral) <|>
    (do
      let ident ← reference
      return .reference ident))

def meaning {Item : Type} (keyword : Keyword) (item : Item) : Parser Item := do
  reserved keyword
  return item

def scalarType : Parser (Located ScalarType) :=
  located (named .scalarType
    ((do
      mark ['_']
      return .ignored) <|>
    meaning .signed .signed <|> meaning .unsigned .unsigned))

def byteOrder : Parser (Located ByteOrder) :=
  located (named .byteOrder (meaning .big .big <|> meaning .little .little))

def bits : Parser Tree.Measure := named .bits (meaning .bits .bits)

def bytes : Parser Tree.Measure :=
  named .bytes (do
    reserved .bytes
    let order ← option byteOrder
    return .bytes order)

def unit : Parser (Located Tree.Measure) := located (named .unit (bits <|> bytes))

def width : Parser Tree.Width :=
  named .width (do
    let count ← value
    let unit ← unit
    return ⟨count, unit⟩)

def afterColon {Item : Type} (parser : Parser Item) : Parser Item := do
  mark [':']
  parser

def descriptor : Parser Tree.Descriptor :=
  named .descriptor (do
    let scalar ← scalarType
    let width ← option (afterColon width)
    let count ← option (afterColon value)
    return ⟨scalar, width, count⟩)

end PacketSchema.Grammar.Parser
