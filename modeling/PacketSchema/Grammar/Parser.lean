import PacketSchema.Grammar.Frontier

/-!
Parsers of ordered choice. A parser reads from a cursor and either refuses or answers a value and
the cursor after it; beside that it reports its frontier. The first alternative that is accepted
is taken for good, and a repetition takes as much as it can. Acceptance never depends on a
frontier: `run` is what a parser accepts, and each combinator has an equation for its `run`.
-/

namespace PacketSchema.Grammar

structure Outcome (Item : Type) where
  result : Option (Item × Cursor)
  frontier : Frontier

def Parser (Item : Type) : Type := Cursor → Outcome Item

namespace Parser

variable {Item Other : Type}

/-- What a parser accepts, its frontier left aside. -/
def run (parser : Parser Item) (cursor : Cursor) : Option (Item × Cursor) :=
  (parser cursor).result

def accept (item : Item) : Parser Item := fun cursor => ⟨some (item, cursor), .empty⟩

def refuse : Parser Item := fun _ => ⟨none, .empty⟩

def andThen (parser : Parser Item) (next : Item → Parser Other) : Parser Other := fun cursor =>
  match parser cursor with
  | ⟨none, frontier⟩ => ⟨none, frontier⟩
  | ⟨some (item, after), frontier⟩ =>
      let outcome := next item after
      ⟨outcome.result, frontier.join outcome.frontier⟩

instance : Monad Parser where
  pure := accept
  bind := andThen

def orElse (first : Parser Item) (second : Unit → Parser Item) : Parser Item := fun cursor =>
  match first cursor with
  | ⟨some accepted, frontier⟩ => ⟨some accepted, frontier⟩
  | ⟨none, frontier⟩ =>
      let outcome := second () cursor
      ⟨outcome.result, frontier.join outcome.frontier⟩

instance : OrElse (Parser Item) where
  orElse := orElse

def choice : List (Parser Item) → Parser Item
  | [] => refuse
  | first :: others => first <|> choice others

def option (parser : Parser Item) : Parser (Option Item) :=
  (do let item ← parser; return some item) <|> accept none

/-- Reads items as long as there are any, at most `bound` of them. Every item that the grammar
repeats takes a character at least, so the length of the text is bound enough. -/
def many : Nat → Parser Item → Parser (List Item)
  | 0, _, cursor => accept [] cursor
  | bound + 1, parser, cursor =>
      (option parser).andThen (fun
        | none => accept []
        | some item => (many bound parser).andThen fun items => accept (item :: items)) cursor

/-- Reads ahead: accepts what the parser accepts and takes nothing of the text. -/
def ahead (parser : Parser Item) : Parser Item := fun cursor =>
  match parser cursor with
  | ⟨none, frontier⟩ => ⟨none, frontier⟩
  | ⟨some (item, _), frontier⟩ => ⟨some (item, cursor), frontier⟩

/-- Accepts where the parser refuses, and takes nothing of the text. What is refused in here is
no part of any frontier. -/
def notAhead (parser : Parser Item) : Parser Unit := fun cursor =>
  match parser.run cursor with
  | none => ⟨some ((), cursor), .empty⟩
  | some _ => ⟨none, .empty⟩

def here : Parser Location := fun cursor => ⟨some (cursor.location, cursor), .empty⟩

def literal (text : List Char) : Parser Unit := fun cursor =>
  if text.isPrefixOf cursor.rest then
    ⟨some ((), cursor.past text (cursor.rest.drop text.length)), .empty⟩
  else ⟨none, .empty⟩

def satisfy (accepts : Char → Bool) : Parser Char := fun cursor =>
  match cursor.rest with
  | [] => ⟨none, .empty⟩
  | character :: rest =>
      if accepts character then ⟨some (character, cursor.past [character] rest), .empty⟩
      else ⟨none, .empty⟩

def span (accepts : Char → Bool) : Parser (List Char) := fun cursor =>
  let taken := cursor.rest.takeWhile accepts
  ⟨some (taken, cursor.past taken (cursor.rest.dropWhile accepts)), .empty⟩

def spanSome (accepts : Char → Bool) : Parser (List Char) := do
  let first ← satisfy accepts
  let others ← span accepts
  return first :: others

/-- Reads as a rule of the grammar: where the body is refused, the rule is. -/
def named (rule : Rule) (body : Parser Item) : Parser Item := fun cursor =>
  match body cursor with
  | ⟨some accepted, frontier⟩ => ⟨some accepted, frontier⟩
  | ⟨none, frontier⟩ => ⟨none, frontier.refuse rule cursor.location⟩

@[simp] theorem run_pure (item : Item) (cursor : Cursor) :
    (pure item : Parser Item).run cursor = some (item, cursor) := rfl

@[simp] theorem run_accept (item : Item) (cursor : Cursor) :
    (accept item).run cursor = some (item, cursor) := rfl

@[simp] theorem run_refuse (cursor : Cursor) : (refuse : Parser Item).run cursor = none := rfl

@[simp] theorem run_bind (parser : Parser Item) (next : Item → Parser Other) (cursor : Cursor) :
    (parser >>= next).run cursor =
      (parser.run cursor).bind fun (item, after) => (next item).run after := by
  change (andThen parser next cursor).result = _
  unfold andThen run
  rcases parser cursor with ⟨_ | ⟨item, after⟩, frontier⟩ <;> rfl

@[simp] theorem run_orElse (first second : Parser Item) (cursor : Cursor) :
    (first <|> second).run cursor = (first.run cursor).or (second.run cursor) := by
  change (orElse first (fun _ => second) cursor).result = _
  unfold orElse run
  rcases first cursor with ⟨_ | accepted, frontier⟩ <;> rfl

@[simp] theorem run_ahead (parser : Parser Item) (cursor : Cursor) :
    (ahead parser).run cursor = (parser.run cursor).map fun accepted => (accepted.1, cursor) := by
  change (ahead parser cursor).result = (parser cursor).result.map _
  unfold ahead
  rcases parser cursor with ⟨_ | ⟨item, after⟩, frontier⟩ <;> rfl

@[simp] theorem run_notAhead (parser : Parser Item) (cursor : Cursor) :
    (notAhead parser).run cursor =
      if (parser.run cursor).isNone then some ((), cursor) else none := by
  change (notAhead parser cursor).result = _
  unfold notAhead
  cases parser.run cursor <;> rfl

@[simp] theorem run_here (cursor : Cursor) :
    here.run cursor = some (cursor.location, cursor) := rfl

@[simp] theorem run_named (rule : Rule) (body : Parser Item) (cursor : Cursor) :
    (named rule body).run cursor = body.run cursor := by
  change (named rule body cursor).result = (body cursor).result
  unfold named
  rcases body cursor with ⟨_ | accepted, frontier⟩ <;> rfl

end Parser

end PacketSchema.Grammar
