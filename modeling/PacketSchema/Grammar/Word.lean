import PacketSchema.Grammar.Gap
import PacketSchema.Tree.Basic

/-!
Words, numbers and marks. A keyword is one of twelve words and ends where the word ends, so no
keyword is seen inside a longer word; an identifier is any other word that starts with a letter
or an underscore. The readers called `bare` take the text alone, all others the gap after it too.
-/

namespace PacketSchema.Grammar

open PacketSchema.Tree (Token Located)

inductive Keyword where
  | always
  | optional
  | otherwise
  | when
  | union
  | case
  | bits
  | bytes
  | big
  | little
  | signed
  | unsigned
deriving DecidableEq, Repr

namespace Keyword

def all : List Keyword :=
  [.always, .optional, .otherwise, .when, .union, .case, .bits, .bytes, .big, .little, .signed,
    .unsigned]

def spelling : Keyword → String
  | .always => "always"
  | .optional => "optional"
  | .otherwise => "otherwise"
  | .when => "when"
  | .union => "variable"
  | .case => "case"
  | .bits => "bits"
  | .bytes => "bytes"
  | .big => "be"
  | .little => "le"
  | .signed => "sint"
  | .unsigned => "uint"

def letters (keyword : Keyword) : List Char := keyword.spelling.toList

end Keyword

def isWordCharacter (character : Char) : Bool := character.isAlphanum || character == '_'

def isWordStart (character : Char) : Bool := character.isAlpha || character == '_'

def isHexDigit (character : Char) : Bool :=
  character.isDigit || ('a' ≤ character && character ≤ 'f') ||
    ('A' ≤ character && character ≤ 'F')

namespace Parser

variable {Item : Type}

def beforeGap (parser : Parser Item) : Parser Item := do
  let item ← parser
  gap
  return item

def located (parser : Parser Item) : Parser (Located Item) := do
  let location ← here
  let item ← parser
  return ⟨location, item⟩

def mark (text : List Char) : Parser Unit := beforeGap (literal text)

def bareWordCharacter : Parser Unit := do
  let _ ← satisfy isWordCharacter
  return ()

/-- Reads the first keyword that the text spells, provided that its word ends there. -/
def bareKeyword : Parser Keyword := do
  let keyword ← choice (Keyword.all.map fun keyword => do
    literal keyword.letters
    return keyword)
  notAhead bareWordCharacter
  return keyword

/-- Reads one keyword: a keyword must come, and it must be this one. -/
def bareReserved (keyword : Keyword) : Parser Unit := do
  let _ ← ahead (named .keyword bareKeyword)
  literal keyword.letters

def reserved (keyword : Keyword) : Parser Unit := beforeGap (bareReserved keyword)

def bareIdent : Parser String := do
  notAhead bareKeyword
  let first ← satisfy isWordStart
  let others ← span isWordCharacter
  return String.ofList (first :: others)

def ident : Parser Token := beforeGap (located (named .ident bareIdent))

def bareHexMark : Parser (List Char) :=
  (do
    literal ['0', 'x']
    return ['0', 'x']) <|>
  (do
    literal ['0', 'X']
    return ['0', 'X'])

/-- Reads the text of a hexadecimal or else of a decimal number. A mark without digits after it
is no part of a number, so only its zero is read. -/
def bareInteger : Parser String :=
  (do
    let hexMark ← bareHexMark
    let digits ← spanSome isHexDigit
    return String.ofList (hexMark ++ digits)) <|>
  (do
    let digits ← spanSome Char.isDigit
    return String.ofList digits)

def integer : Parser Token := beforeGap (located (named .integer bareInteger))

end Parser

end PacketSchema.Grammar
