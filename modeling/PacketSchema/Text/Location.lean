/-!
Places in a text. A place is a line and a column, both counted from one; a column is one
character and a line feed ends its line. Later characters of a text have later places, so the
order of places is the order of reading and no offset is kept beside them.
-/

namespace PacketSchema

structure Location where
  line : Nat
  column : Nat
deriving DecidableEq, Repr

namespace Location

def start : Location := ⟨1, 1⟩

/-- The place just after a character. A carriage return takes a column like any other character;
where a line feed follows it, no later line is moved by that. -/
def next (location : Location) (character : Char) : Location :=
  if character = '\n' then ⟨location.line + 1, 1⟩ else ⟨location.line, location.column + 1⟩

def after (location : Location) (text : List Char) : Location :=
  text.foldl next location

/-- Reading order: by line, then by column. -/
def isBefore (left right : Location) : Bool :=
  left.line < right.line || (left.line == right.line && left.column < right.column)

def text (location : Location) : String :=
  toString location.line ++ ":" ++ toString location.column

theorem after_nil (location : Location) : location.after [] = location := rfl

theorem after_cons (location : Location) (character : Char) (text : List Char) :
    location.after (character :: text) = (location.next character).after text := rfl

theorem after_append (location : Location) (first second : List Char) :
    location.after (first ++ second) = (location.after first).after second :=
  List.foldl_append

end Location

def afterLineFeeds : Nat → List Char → List Char
  | 0, text => text
  | _ + 1, [] => []
  | count + 1, character :: text =>
      if character = '\n' then afterLineFeeds count text else afterLineFeeds (count + 1) text

def throughLineFeed : List Char → List Char
  | [] => []
  | character :: text => if character = '\n' then [character] else character :: throughLineFeed text

def lineOfText (number : Nat) (text : List Char) : List Char :=
  throughLineFeed (afterLineFeeds (number - 1) text)

structure Cursor where
  location : Location
  rest : List Char
deriving DecidableEq, Repr

namespace Cursor

def ofText (text : List Char) : Cursor := ⟨.start, text⟩

/-- Moves past `taken`, the front of what was to be read, and leaves `rest`. -/
def past (cursor : Cursor) (taken rest : List Char) : Cursor :=
  ⟨cursor.location.after taken, rest⟩

end Cursor

end PacketSchema
