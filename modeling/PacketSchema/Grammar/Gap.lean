import PacketSchema.Grammar.Parser

/-!
Gaps: the blanks and comments that may stand between two tokens. There are four blanks. A comment
runs from `//` up to the end of its line, the line feed left to the gap that follows, or from
`/*` through the first `*/`; where that never comes, the two characters open no comment.
-/

namespace PacketSchema.Grammar

def isBlank (character : Char) : Bool :=
  character == ' ' || character == '\t' || character == '\r' || character == '\n'

/-- Where in a gap a reader stands. Inside a comment that still has to be closed it remembers the
cursor at the comment's opening, to go back to. -/
inductive GapState where
  | between
  | lineComment
  | blockComment (opening : Cursor)

/-- The cursor after the longest gap that begins, or goes on, with `text`. -/
def afterGapFrom : GapState → Location → List Char → Cursor
  | .between, location, [] => ⟨location, []⟩
  | .between, location, '/' :: '/' :: text =>
      afterGapFrom .lineComment ((location.next '/').next '/') text
  | .between, location, '/' :: '*' :: text =>
      afterGapFrom (.blockComment ⟨location, '/' :: '*' :: text⟩)
        ((location.next '/').next '*') text
  | .between, location, character :: text =>
      if isBlank character then afterGapFrom .between (location.next character) text
      else ⟨location, character :: text⟩
  | .lineComment, location, [] => ⟨location, []⟩
  | .lineComment, location, character :: text =>
      if character = '\n' then afterGapFrom .between (location.next character) text
      else afterGapFrom .lineComment (location.next character) text
  | .blockComment opening, _, [] => opening
  | .blockComment _, location, '*' :: '/' :: text =>
      afterGapFrom .between ((location.next '*').next '/') text
  | .blockComment opening, location, character :: text =>
      afterGapFrom (.blockComment opening) (location.next character) text

def afterGap (cursor : Cursor) : Cursor :=
  afterGapFrom .between cursor.location cursor.rest

def afterClose? : Location → List Char → Option Cursor
  | _, [] => none
  | location, '*' :: '/' :: text => some ⟨(location.next '*').next '/', text⟩
  | location, character :: text => afterClose? (location.next character) text

namespace Parser

def gap : Parser Unit := fun cursor => ⟨some ((), afterGap cursor), .empty⟩

def blank : Parser Unit := do
  let _ ← satisfy isBlank
  return ()

def throughClose : Parser Unit := fun cursor =>
  ⟨(afterClose? cursor.location cursor.rest).map fun after => ((), after), .empty⟩

def comment : Parser Unit :=
  (do
    literal ['/', '/']
    let _ ← span (· != '\n')
    return ()) <|>
  (do
    literal ['/', '*']
    throughClose)

end Parser

end PacketSchema.Grammar
