import PacketSchema.Grammar.Module

/-!
What a text that cannot be read is answered with: the furthest place where a rule was refused,
the line of the text around it and the rules that could have stood there. The message shows the
line with a caret under the place. Line ends are dropped from the line, unless the place is one
of them; they then show as the pictures of their control characters.
-/

namespace PacketSchema.Grammar

structure SyntaxError where
  location : Location
  line : List Char
  expected : List Rule
deriving DecidableEq, Repr

namespace SyntaxError

def ofFrontier (text : List Char) (frontier : Frontier) : SyntaxError :=
  ⟨frontier.place, lineOfText frontier.place.line text, frontier.expected⟩

/-- Names in a row: one, two with a word between them, or more with commas as well. -/
def enumeration : List String → String
  | [] => ""
  | [only] => only
  | [first, second] => first ++ " or " ++ second
  | names => ", ".intercalate names.dropLast ++ ", or " ++ names.getLastD ""

def expectation (error : SyntaxError) : String :=
  match error.expected with
  | [] => "unknown parsing error"
  | rules => "expected " ++ enumeration (rules.map Rule.name)

def isLineEnd (character : Char) : Bool := character == '\n' || character == '\r'

/-- The picture of a line end; other characters stand for themselves. -/
def pictured (character : Char) : Char :=
  if character = '\r' then '\u240d' else if character = '\n' then '\u240a' else character

def shownLine (error : SyntaxError) : List Char :=
  if (error.line[error.location.column - 1]?).any isLineEnd then error.line.map pictured
  else error.line.filter fun character => !isLineEnd character

/-- What stands under the line as it is shown: a blank for each character before the column, or
a tab for a tab, and then the caret. Line ends that are not shown leave fewer of them. -/
def underline (error : SyntaxError) : List Char :=
  (error.shownLine.take (error.location.column - 1)).map
    (fun character => if character = '\t' then '\t' else ' ') ++ ['^', '-', '-', '-']

def message (error : SyntaxError) : String :=
  let line := toString error.location.line
  let margin := String.ofList (List.replicate line.length ' ')
  "\n".intercalate
    [margin ++ "--> " ++ error.location.text,
      margin ++ " |",
      line ++ " | " ++ String.ofList error.shownLine,
      margin ++ " | " ++ String.ofList error.underline,
      margin ++ " |",
      margin ++ " = " ++ error.expectation]

end SyntaxError

def readFront {Item : Type} (parser : Nat → Parser Item) (source : String) :
    Except SyntaxError Item :=
  let text := source.toList
  let outcome := parser (boundOf text) (.ofText text)
  match outcome.result with
  | some (item, _) => .ok item
  | none => .error (.ofFrontier text outcome.frontier)

def parse (source : String) : Except SyntaxError Tree.Module := readFront Parser.module source

/-- A text is read where the parser of modules accepts it. -/
theorem parse_eq_ok_iff {source : String} {tree : Tree.Module} :
    parse source = .ok tree ↔
      ∃ after, (Parser.module (boundOf source.toList)).run (.ofText source.toList) =
        some (tree, after) := by
  unfold parse readFront Parser.run
  simp only
  rcases (Parser.module (boundOf source.toList) (.ofText source.toList)).result with
    _ | ⟨found, after⟩
  · simp
  · simp

end PacketSchema.Grammar
