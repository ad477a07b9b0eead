import PacketSchema.Proofs.Grammar.Reading.Condition

/-!
# Statements can be read

However the lexemes of a statement are written, the statement is read. A statement is told by its
first lexeme and a block goes on up to the brace that closes it. The reader of blocks is bounded in
depth; a block with fewer lexemes than the bound is read whole.
-/

namespace PacketSchema.Grammar.Writing

open PacketSchema.Draft

variable {writing : Writing} {start : Nat} (legal : writing.Legal)

include legal

theorem tag_reads {tag : Draft.Tag} (spelled : writing.Holds start tag.lexemes) :
    writing.Reads Parser.tag start (tag.tree writing.place start) (start + tag.lexemes.length) := by
  obtain ⟨opening, label, colon, value, closing, -⟩ := spelled
  apply Reads.named
  apply reads_here.bind
  apply (mark_reads legal opening).bind
  apply (ident_reads legal label).bind
  apply (mark_reads legal colon).bind
  apply (integer_reads legal value).bind
  apply (mark_reads legal closing).bind
  exact reads_pure

theorem braced_reads {Item : Type} {parser : Parser Item} {item : Item} {lexemes : List Lexeme}
    (spelled : writing.Holds start (Draft.braced lexemes))
    (body : writing.Holds (start + 1) lexemes →
      writing.lexemes[start + 1 + lexemes.length]? = some (.mark .closeBrace) →
      writing.Reads parser (start + 1) item (start + 1 + lexemes.length)) :
    writing.Reads (Parser.braced parser) start item (start + (Draft.braced lexemes).length) := by
  obtain ⟨opening, tail⟩ := spelled
  obtain ⟨written, closing, -⟩ := holds_append.mp tail
  rw [braced_length, ← Nat.add_assoc, ← Nat.add_assoc]
  apply (mark_reads legal opening).bind
  apply (body written closing).bind
  apply (mark_reads legal closing).bind
  exact reads_pure

theorem always_reads {ident : String} {descriptor : Draft.Descriptor}
    (spelled : writing.Holds start (Draft.Statement.always ident descriptor).lexemes) :
    writing.Reads Parser.alwaysStatement start
      (.always (writing.place start) ⟨writing.place (start + 1), ident⟩
        (descriptor.tree writing.place (start + 2)))
      (start + (Draft.Statement.always ident descriptor).lexemes.length) := by
  obtain ⟨word, name, tail⟩ := spelled
  obtain ⟨written, ends, -⟩ := holds_append.mp tail
  have total : start + (Draft.Statement.always ident descriptor).lexemes.length =
      start + 1 + 1 + descriptor.lexemes.length + 1 := by
    rw [Statement.lexemes, List.length_cons, List.length_cons, List.length_append,
      List.length_singleton]
    omega
  rw [total]
  apply Reads.named
  apply reads_here.bind
  apply (reserved_reads legal word).bind
  apply (ident_reads legal name).bind
  apply (descriptor_reads legal written (stops_at_mark ends)).bind
  apply (mark_reads legal ends).bind
  exact reads_pure

omit legal in
theorem opened_refused {Item : Type} {rule : Rule} {keyword : Keyword}
    {body : Location → Parser Item} (no_word : writing.Refuses (Parser.reserved keyword) start) :
    writing.Refuses (Parser.named rule (do
      let location ← Parser.here
      Parser.reserved keyword
      body location)) start := by
  apply Refuses.named
  apply reads_here.bind_refuses
  exact no_word.bind

section Blocks

variable {block : Parser (List Tree.Statement)} {bound : Nat}

omit legal in
/-- The parser reads every block that has few enough lexemes, up to the brace that closes it. -/
def ReadsBlocks (writing : Writing) (block : Parser (List Tree.Statement)) (bound : Nat) : Prop :=
  ∀ (body : List Draft.Statement) (start : Nat), (blockLexemes body).length < bound →
    writing.Holds start (blockLexemes body) →
    writing.lexemes[start + (blockLexemes body).length]? = some (.mark .closeBrace) →
    writing.Reads block start (blockTree writing.place start body)
      (start + (blockLexemes body).length)

variable (inner : writing.ReadsBlocks block bound)

include inner

theorem body_reads {body : List Draft.Statement} (small : (blockLexemes body).length < bound)
    (spelled : writing.Holds start (Draft.braced (blockLexemes body))) :
    writing.Reads (Parser.braced block) start (blockTree writing.place (start + 1) body)
      (start + (Draft.braced (blockLexemes body)).length) := by
  apply braced_reads legal spelled
  intro written closing
  exact inner body (start + 1) small written closing

theorem optional_reads {ident : String} {condition : Draft.Disjunction}
    {body : List Draft.Statement}
    (small : (Draft.Statement.optional ident condition body).lexemes.length ≤ bound)
    (spelled : writing.Holds start (Draft.Statement.optional ident condition body).lexemes) :
    writing.Reads (Parser.optionalOf bound block) start
      (.optional (writing.place start) ⟨writing.place (start + 1), ident⟩
        (condition.tree writing.place (start + 4))
        (blockTree writing.place (start + 3 + (parenthesized condition.lexemes).length + 1) body))
      (start + (Draft.Statement.optional ident condition body).lexemes.length) := by
  obtain ⟨word, name, when, tail⟩ := spelled
  obtain ⟨guard, braces⟩ := holds_append.mp tail
  have total : (Draft.Statement.optional ident condition body).lexemes.length =
      3 + (parenthesized condition.lexemes).length +
        (Draft.braced (blockLexemes body)).length := by
    rw [Statement.lexemes, List.length_cons, List.length_cons, List.length_cons,
      List.length_append]
    omega
  rw [total, parenthesized_length, braced_length] at small
  rw [total, ← Nat.add_assoc, ← Nat.add_assoc]
  apply Reads.named
  apply reads_here.bind
  apply (reserved_reads legal word).bind
  apply (ident_reads legal name).bind
  apply (reserved_reads legal when).bind
  apply (guard_reads legal (by omega) guard).bind
  apply (body_reads legal inner (by omega) braces).bind
  exact reads_pure

theorem case_reads {draft : Draft.Case} (small : draft.lexemes.length ≤ bound)
    (spelled : writing.Holds start draft.lexemes) :
    writing.Reads (Parser.caseOf bound block) start (draft.tree writing.place start)
      (start + draft.lexemes.length) := by
  obtain ⟨condition, tag, body⟩ := draft
  obtain ⟨word, tail⟩ := spelled
  obtain ⟨guard, rest⟩ := holds_append.mp tail
  obtain ⟨tagged, braces⟩ := holds_append.mp rest
  have total : (Draft.Case.mk condition tag body).lexemes.length =
      1 + (parenthesized condition.lexemes).length + tag.lexemes.length +
        (Draft.braced (blockLexemes body)).length := by
    rw [Case.lexemes, List.length_cons, List.length_append, List.length_append]
    omega
  rw [total, parenthesized_length, braced_length] at small
  rw [total, ← Nat.add_assoc, ← Nat.add_assoc, ← Nat.add_assoc]
  apply Reads.named
  apply reads_here.bind
  apply (reserved_reads legal word).bind
  apply (guard_reads legal (by omega) guard).bind
  apply (tag_reads legal tagged).bind
  apply (body_reads legal inner (by omega) braces).bind
  exact reads_pure

theorem otherwise_reads {draft : Draft.Otherwise} (small : draft.lexemes.length ≤ bound)
    (spelled : writing.Holds start draft.lexemes) :
    writing.Reads (Parser.otherwiseOf block) start (draft.tree writing.place start)
      (start + draft.lexemes.length) := by
  obtain ⟨tag, body⟩ := draft
  obtain ⟨word, tail⟩ := spelled
  obtain ⟨tagged, braces⟩ := holds_append.mp tail
  have total : (Draft.Otherwise.mk tag body).lexemes.length =
      1 + tag.lexemes.length + (Draft.braced (blockLexemes body)).length := by
    rw [Otherwise.lexemes, List.length_cons, List.length_append]
    omega
  rw [total, braced_length] at small
  rw [total, ← Nat.add_assoc, ← Nat.add_assoc]
  apply Reads.named
  apply reads_here.bind
  apply (reserved_reads legal word).bind
  apply (tag_reads legal tagged).bind
  apply (body_reads legal inner (by omega) braces).bind
  exact reads_pure

omit inner in
theorem case_refused_at_otherwise {rest : Option Draft.Otherwise}
    (spelled : writing.Holds start (otherwiseLexemes rest))
    (ends : writing.lexemes[start + (otherwiseLexemes rest).length]? = some (.mark .closeBrace)) :
    writing.Refuses (Parser.caseOf bound block) start := by
  have no_word : writing.Refuses (Parser.reserved .case) start := by
    cases rest with
    | none => exact reserved_refused_at_mark legal ends
    | some last =>
        obtain ⟨tag, body⟩ := last
        exact reserved_refused_at_keyword legal spelled.1 (by decide)
  exact opened_refused no_word

theorem otherwise_option_reads {rest : Option Draft.Otherwise}
    (small : (otherwiseLexemes rest).length ≤ bound)
    (spelled : writing.Holds start (otherwiseLexemes rest))
    (ends : writing.lexemes[start + (otherwiseLexemes rest).length]? = some (.mark .closeBrace)) :
    writing.Reads (Parser.option (Parser.otherwiseOf block)) start
      (otherwiseTree writing.place start rest) (start + (otherwiseLexemes rest).length) := by
  cases rest with
  | none =>
      apply Refuses.option
      exact opened_refused (reserved_refused_at_mark legal ends)
  | some last => exact (otherwise_reads legal inner small spelled).option

theorem cases_read {cases : List Draft.Case} (small : (caseLexemes cases).length ≤ bound)
    (spelled : writing.Holds start (caseLexemes cases)) :
    writing.ReadsAll (Parser.caseOf bound block) start (caseTrees writing.place start cases)
      (start + (caseLexemes cases).length) := by
  induction cases generalizing start with
  | nil => exact .nil
  | cons next rest later =>
      obtain ⟨first, others⟩ := holds_append.mp spelled
      rw [caseLexemes, List.length_append] at small
      rw [caseLexemes, List.length_append, ← Nat.add_assoc]
      have onward : 0 < next.lexemes.length := by
        obtain ⟨condition, tag, body⟩ := next
        exact Nat.succ_pos _
      exact .cons (by omega) (case_reads legal inner (by omega) first) (later (by omega) others)

theorem union_reads {ident : String} {cases : List Draft.Case} {otherwise : Option Draft.Otherwise}
    (small : (Draft.Statement.union ident cases otherwise).lexemes.length ≤ bound)
    (spelled : writing.Holds start (Draft.Statement.union ident cases otherwise).lexemes) :
    writing.Reads (Parser.unionOf bound block) start
      (.union (writing.place start) ⟨writing.place (start + 1), ident⟩
        (caseTrees writing.place (start + 3) cases ++
          (otherwiseTree writing.place (start + 3 + (caseLexemes cases).length)
            otherwise).toList))
      (start + (Draft.Statement.union ident cases otherwise).lexemes.length) := by
  obtain ⟨word, name, braces⟩ := spelled
  have total : (Draft.Statement.union ident cases otherwise).lexemes.length =
      2 + (Draft.braced (caseLexemes cases ++ otherwiseLexemes otherwise)).length := by
    rw [Statement.lexemes, List.length_cons, List.length_cons]
    omega
  rw [total, braced_length, List.length_append] at small
  rw [total, ← Nat.add_assoc]
  apply Reads.named
  apply reads_here.bind
  apply (reserved_reads legal word).bind
  apply (ident_reads legal name).bind
  apply Reads.bind
  · apply braced_reads legal braces
    intro written closing
    obtain ⟨casesWritten, lastWritten⟩ := holds_append.mp written
    rw [List.length_append, ← Nat.add_assoc] at closing ⊢
    have all := cases_read legal inner (by omega) casesWritten
    apply (all.many (case_refused_at_otherwise legal lastWritten closing) (by omega)).bind
    apply (otherwise_option_reads legal inner (by omega) lastWritten closing).bind
    exact reads_pure
  · exact reads_pure

omit inner in
theorem nothing_opens {mark : Mark} (found : writing.lexemes[start]? = some (.mark mark)) :
    writing.Refuses
      (Parser.alwaysStatement <|> Parser.optionalOf bound block <|> Parser.unionOf bound block)
      start := by
  apply Refuses.both (opened_refused (reserved_refused_at_mark legal found))
  apply Refuses.both
  · exact opened_refused (reserved_refused_at_mark legal found)
  · exact opened_refused (reserved_refused_at_mark legal found)

/-- An empty statement leaves nothing, any other its tree. -/
theorem statement_reads {draft : Draft.Statement} (small : draft.lexemes.length ≤ bound)
    (spelled : writing.Holds start draft.lexemes) :
    writing.Reads (Parser.statementOf bound block) start (draft.tree writing.place start)
      (start + draft.lexemes.length) := by
  cases draft with
  | always ident descriptor =>
      apply Reads.first
      apply (always_reads legal spelled).first.bind
      exact reads_pure
  | optional ident condition body =>
      apply Reads.first
      have no_always : writing.Refuses Parser.alwaysStatement start :=
        opened_refused (reserved_refused_at_keyword legal spelled.1 (by decide))
      apply ((optional_reads legal inner small spelled).first.second no_always).bind
      exact reads_pure
  | union ident cases otherwise =>
      apply Reads.first
      have no_always : writing.Refuses Parser.alwaysStatement start :=
        opened_refused (reserved_refused_at_keyword legal spelled.1 (by decide))
      have no_optional : writing.Refuses (Parser.optionalOf bound block) start :=
        opened_refused (reserved_refused_at_keyword legal spelled.1 (by decide))
      have reads := (union_reads legal inner small spelled).second no_optional
      apply (reads.second no_always).bind
      exact reads_pure
  | empty =>
      apply Reads.second _ (nothing_opens legal spelled.1).bind
      apply (mark_reads legal spelled.1).bind
      exact reads_pure

theorem statements_read {body : List Draft.Statement} (small : (blockLexemes body).length ≤ bound)
    (spelled : writing.Holds start (blockLexemes body)) :
    ∃ answers, writing.ReadsAll (Parser.statementOf bound block) start answers
        (start + (blockLexemes body).length) ∧
      answers.filterMap id = blockTree writing.place start body := by
  induction body generalizing start with
  | nil => exact ⟨[], .nil, rfl⟩
  | cons statement rest later =>
      obtain ⟨first, others⟩ := holds_append.mp spelled
      rw [blockLexemes, List.length_append] at small
      rw [blockLexemes, List.length_append, ← Nat.add_assoc]
      have onward : 0 < statement.lexemes.length := by
        cases statement <;> exact Nat.succ_pos _
      obtain ⟨answers, all, kept⟩ := later (by omega) others
      refine ⟨statement.tree writing.place start :: answers, ?_, ?_⟩
      · exact .cons (by omega) (statement_reads legal inner (by omega) first) all
      · rw [blockTree, ← kept]
        cases statement.tree writing.place start <;> rfl

omit inner in
theorem statement_refused
    (closing : writing.lexemes[start]? = some (.mark .closeBrace)) :
    writing.Refuses (Parser.statementOf bound block) start := by
  have no_semicolon : writing.Refuses (Parser.mark Mark.semicolon.text) start :=
    mark_refused legal closing (by decide)
  exact (nothing_opens legal closing).bind.both no_semicolon.bind

end Blocks

theorem block_reads (bound : Nat) : writing.ReadsBlocks (Parser.block bound) bound := by
  induction bound with
  | zero =>
      intro body start small
      cases small
  | succ bound inner =>
      intro body start small spelled closing
      obtain ⟨answers, all, kept⟩ := statements_read legal inner (by omega) spelled
      rw [← kept]
      apply (all.many (statement_refused legal closing) (by omega)).bind
      exact reads_pure

end PacketSchema.Grammar.Writing
