import PacketSchema.Proofs.Grammar.Bare
import PacketSchema.Proofs.Grammar.Spelling

/-!
# What parsers take

A parser accounts for what it takes when all of it is layout and lexemes that the item it answers
tells. Each combinator passes this on. A refused alternative takes nothing, whatever it read, for
the next one starts where it did.
-/

namespace PacketSchema.Grammar.Parser

open PacketSchema.Tree (Located)

variable {Item Other : Type} {spelled : Item → List Lexeme → Prop}
  {told : Other → List Lexeme → Prop} {lexemes : Item → List Lexeme} {parser : Parser Item}
  {next : Item → Parser Other}

/-- The lexemes that the parser takes stand in a relation to the item that it answers. -/
structure Accounts (spelled : Item → List Lexeme → Prop) (parser : Parser Item) : Prop where
  holds : ∀ cursor item after, parser.run cursor = some (item, after) →
    ∃ taken, spelled item taken ∧ Spells cursor.rest taken after.rest

/-- The item that the parser answers determines the lexemes that it takes. -/
def Writes (lexemes : Item → List Lexeme) (parser : Parser Item) : Prop :=
  parser.Accounts fun item taken => taken = lexemes item

theorem accounts_pure {item : Item} (holds : spelled item []) :
    Accounts spelled (pure item : Parser Item) := by
  constructor
  intro cursor found after accepted
  rw [run_pure] at accepted
  cases accepted
  exact ⟨[], holds, .done⟩

theorem accounts_refuse : Accounts spelled (refuse : Parser Item) := by
  constructor
  intro cursor item after accepted
  cases accepted

theorem Accounts.weaken {wider : Item → List Lexeme → Prop} (accounts : parser.Accounts spelled)
    (within : ∀ item taken, spelled item taken → wider item taken) : parser.Accounts wider := by
  constructor
  intro cursor item after accepted
  obtain ⟨taken, relation, spells⟩ := accounts.holds cursor item after accepted
  exact ⟨taken, within item taken relation, spells⟩

theorem Accounts.bind (first : parser.Accounts spelled)
    (second : ∀ item taken, spelled item taken →
      (next item).Accounts fun other more => told other (taken ++ more)) :
    (parser >>= next).Accounts told := by
  constructor
  intro cursor other after accepted
  obtain ⟨item, middle, read, rest⟩ := bind_eq_some_iff.mp accepted
  obtain ⟨taken, relation, front⟩ := first.holds cursor item middle read
  obtain ⟨more, tells, back⟩ := (second item taken relation).holds middle other after rest
  exact ⟨taken ++ more, tells, front.append back⟩

theorem Writes.bind (first : parser.Writes lexemes)
    (second : ∀ item, (next item).Accounts fun other more => told other (lexemes item ++ more)) :
    (parser >>= next).Accounts told := by
  apply Accounts.bind first
  rintro item taken rfl
  exact second item

/-- To tell the place takes nothing. -/
theorem accounts_here {next : Location → Parser Other}
    (second : ∀ location, (next location).Accounts told) : (here >>= next).Accounts told := by
  constructor
  intro cursor other after accepted
  rw [run_bind_some (run_here cursor)] at accepted
  exact (second cursor.location).holds cursor other after accepted

theorem Accounts.or_else {second : Parser Item} (left : parser.Accounts spelled)
    (right : second.Accounts spelled) : (parser <|> second).Accounts spelled := by
  constructor
  intro cursor item after accepted
  rw [run_orElse] at accepted
  rcases Option.or_eq_some_iff.mp accepted with first | ⟨-, last⟩
  · exact left.holds cursor item after first
  · exact right.holds cursor item after last

theorem Accounts.named (body : parser.Accounts spelled) (rule : Rule) :
    (named rule parser).Accounts spelled := by
  constructor
  intro cursor item after accepted
  rw [run_named] at accepted
  exact body.holds cursor item after accepted

theorem Accounts.option (body : parser.Accounts spelled) :
    (option parser).Accounts fun answer taken =>
      answer.elim (taken = []) fun item => spelled item taken := by
  apply Accounts.or_else
  · apply body.bind
    intro item taken relation
    apply accounts_pure
    rw [List.append_nil]
    exact relation
  · exact accounts_pure rfl

/-- A repetition accounts for its items when they are accounted for one after another. -/
theorem Accounts.many {all : List Item → List Lexeme → Prop} (each : parser.Accounts spelled)
    (none : all [] [])
    (more : ∀ item items taken later, spelled item taken → all items later →
      all (item :: items) (taken ++ later)) (bound : Nat) : (many bound parser).Accounts all := by
  induction bound with
  | zero => exact accounts_pure none
  | succ bound rest =>
      apply each.option.bind
      intro answer taken relation
      cases answer with
      | none =>
          cases relation
          exact accounts_pure none
      | some item =>
          apply rest.bind
          intro items later following
          apply accounts_pure
          rw [List.append_nil]
          exact more item items taken later relation following

theorem Accounts.before_gap (body : parser.Accounts spelled) :
    (beforeGap parser).Accounts spelled := by
  constructor
  intro cursor item after accepted
  obtain ⟨read, middle, front, rest⟩ := bind_eq_some_iff.mp accepted
  cases rest
  obtain ⟨taken, relation, spells⟩ := body.holds cursor item middle front
  refine ⟨taken, relation, ?_⟩
  have whole := spells.append (spells_after_gap middle)
  rwa [List.append_nil] at whole

theorem Writes.option (body : parser.Writes lexemes) :
    (option parser).Writes fun answer => answer.elim [] lexemes := by
  constructor
  intro cursor answer after accepted
  obtain ⟨taken, relation, spells⟩ := (Accounts.option body).holds cursor answer after accepted
  refine ⟨taken, ?_, spells⟩
  cases answer <;> exact relation

theorem located_writes (lexemes : Item → List Lexeme) (body : parser.Writes lexemes) :
    (located parser).Writes fun found => lexemes found.item := by
  apply accounts_here
  intro location
  apply body.bind
  intro item
  exact accounts_pure (List.append_nil _)

/-- What takes the text of a lexeme takes the lexeme. -/
theorem writes_lexeme {lexeme : Item → Lexeme}
    (takes : ∀ cursor item after, parser.run cursor = some (item, after) →
      (lexeme item).Legal ∧ cursor.Passes (lexeme item).text after ∧
        (lexeme item).Ends after.rest) :
    parser.Writes fun item => [lexeme item] := by
  constructor
  intro cursor item after accepted
  obtain ⟨legal, passes, ends⟩ := takes cursor item after accepted
  refine ⟨_, rfl, ?_⟩
  rw [passes.rest]
  exact .lexeme legal ends .done

theorem token_writes {rule : Rule} (lexeme : Item → Lexeme)
    (takes : ∀ cursor item after, parser.run cursor = some (item, after) →
      (lexeme item).Legal ∧ cursor.Passes (lexeme item).text after ∧
        (lexeme item).Ends after.rest) :
    (beforeGap (Parser.located (named rule parser))).Writes fun found => [lexeme found.item] :=
  (located_writes _ ((writes_lexeme takes).named rule)).before_gap

theorem mark_writes (mark : Mark) :
    (Parser.mark mark.text).Writes fun _ => [Lexeme.mark mark] := by
  apply Accounts.before_gap
  apply writes_lexeme
  intro cursor item after accepted
  exact ⟨trivial, literal_iff.mp accepted, trivial⟩

theorem reserved_writes (keyword : Keyword) :
    (reserved keyword).Writes fun _ => [Lexeme.keyword keyword] := by
  apply Accounts.before_gap
  apply writes_lexeme
  intro cursor item after accepted
  obtain ⟨passes, breaks⟩ := bare_reserved_iff.mp accepted
  exact ⟨trivial, passes, breaks⟩

theorem ident_writes : ident.Writes fun token => [Lexeme.ident token.item] := by
  apply token_writes Lexeme.ident
  intro cursor name after accepted
  exact bare_ident_iff.mp accepted

theorem integer_writes : integer.Writes fun token => [Lexeme.integer token.item] := by
  apply token_writes Lexeme.integer
  intro cursor numeral after accepted
  exact bare_integer_shaped accepted

theorem reference_writes : reference.Writes fun token => [Lexeme.reference token.item] := by
  apply token_writes Lexeme.reference
  intro cursor name after accepted
  exact bare_reference_iff.mp accepted

theorem comparison_writes :
    comparison.Writes fun found => [Lexeme.mark (.comparison found.item)] := by
  apply token_writes fun symbol => Lexeme.mark (.comparison symbol)
  intro cursor symbol after accepted
  exact ⟨trivial, (bare_comparison_iff.mp accepted).2, trivial⟩

end PacketSchema.Grammar.Parser
