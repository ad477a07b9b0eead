import PacketSchema.Proofs.Grammar.Reading.Descriptor

/-!
# Conditions can be read

However the lexemes of a condition are written, the condition is read. Alternatives and conjuncts
are chains, whose parts are joined by a mark and go on as long as that mark comes. An operand is
told by its first lexeme, and a comparison is not cut short, for no operand begins with an equality
sign.
-/

namespace PacketSchema.Grammar.Writing

open PacketSchema.Draft

variable {writing : Writing} {start : Nat} (legal : writing.Legal)

include legal

section Chains

variable {Part Item Chain : Type} {lexemes : Part → List Lexeme} {tree : Nat → Part → Item}
  {parser : Parser Item} {join : Mark} {after : List Mark} {bound : Nat}

def joinedTrees (lexemes : Part → List Lexeme) (tree : Nat → Part → Item) (index : Nat) :
    List Part → List Item
  | [] => []
  | next :: rest =>
      tree (index + 1) next :: joinedTrees lexemes tree (index + 1 + (lexemes next).length) rest

omit legal in
/-- A part is followed by the mark of the next part or by what follows the chain. -/
theorem joined_stops {rest : List Part}
    (spelled : writing.Holds start (joinedLexemes join lexemes rest))
    (ends : writing.Stops (start + (joinedLexemes join lexemes rest).length) after) :
    writing.Stops start (join :: after) := by
  cases rest with
  | nil => exact ends.mono (List.subset_cons_self join after)
  | cons next rest => exact .inr ⟨join, List.mem_cons_self, spelled.1⟩

variable (each : ∀ (part : Part) (start : Nat), (lexemes part).length ≤ bound →
    writing.Holds start (lexemes part) →
    writing.Stops (start + (lexemes part).length) (join :: after) →
    writing.Reads parser start (tree start part) (start + (lexemes part).length))

include each

theorem joined_read {rest : List Part} (small : (joinedLexemes join lexemes rest).length ≤ bound)
    (spelled : writing.Holds start (joinedLexemes join lexemes rest))
    (ends : writing.Stops (start + (joinedLexemes join lexemes rest).length) after) :
    writing.ReadsAll (do
        Parser.mark join.text
        parser) start (joinedTrees lexemes tree start rest)
      (start + (joinedLexemes join lexemes rest).length) := by
  induction rest generalizing start with
  | nil => exact .nil
  | cons next rest later =>
      obtain ⟨mark, tail⟩ := spelled
      obtain ⟨part, others⟩ := holds_append.mp tail
      have total : start + (joinedLexemes join lexemes (next :: rest)).length =
          start + 1 + (lexemes next).length + (joinedLexemes join lexemes rest).length := by
        rw [joinedLexemes, List.length_cons, List.length_append]
        omega
      rw [joinedLexemes, List.length_cons, List.length_append] at small
      rw [total] at ends ⊢
      have reads : writing.Reads parser (start + 1) (tree (start + 1) next)
          (start + 1 + (lexemes next).length) :=
        each next _ (by omega) part (joined_stops others ends)
      exact .cons (by omega) ((mark_reads legal mark).bind reads) (later (by omega) others ends)

/-- A chain is read up to where the text ends or a mark stands that does not begin like the one
that joins its parts. -/
theorem chain_reads {first : Part} {others : List Part} {build : Item → List Item → Chain}
    (small : (lexemes first ++ joinedLexemes join lexemes others).length ≤ bound)
    (spelled : writing.Holds start (lexemes first ++ joinedLexemes join lexemes others))
    (ends : writing.Stops (start + (lexemes first ++ joinedLexemes join lexemes others).length)
      after)
    (apart : ∀ mark ∈ after, mark.text.head? ≠ join.text.head?) :
    writing.Reads (do
        let first ← parser
        let others ← Parser.many bound (do
          Parser.mark join.text
          parser)
        return build first others) start
      (build (tree start first)
        (joinedTrees lexemes tree (start + (lexemes first).length) others))
      (start + (lexemes first ++ joinedLexemes join lexemes others).length) := by
  obtain ⟨firstSpelled, othersSpelled⟩ := holds_append.mp spelled
  rw [List.length_append] at small
  rw [List.length_append, ← Nat.add_assoc] at ends ⊢
  have stops : writing.Refuses (do
      Parser.mark join.text
      parser)
      (start + (lexemes first).length + (joinedLexemes join lexemes others).length) :=
    (mark_refused_at_stop legal ends apart).bind
  have all := joined_read legal each (by omega) othersSpelled ends
  apply (each first start (by omega) firstSpelled (joined_stops othersSpelled ends)).bind
  apply (all.many stops (by omega)).bind
  exact reads_pure

end Chains

omit legal in
theorem operand_lexemes_ne_nil (operand : Draft.Operand) : operand.lexemes ≠ [] := by
  cases operand <;> exact List.cons_ne_nil _ _

/-- No operand begins with an equality sign, which would go on with the comparison before it. -/
theorem operand_begins {operand : Draft.Operand} (spelled : writing.Holds start operand.lexemes) :
    ∃ lexeme, writing.lexemes[start]? = some lexeme ∧ lexeme.text.head? ≠ some '=' := by
  cases operand with
  | value value =>
      refine ⟨value.lexeme, spelled.1, ?_⟩
      intro first
      rcases value_begins legal spelled.1 first with word | ampersand
      · exact absurd word (by decide)
      · exact absurd ampersand (by decide)
  | negation operand => exact ⟨.mark .negation, spelled.1, by decide⟩
  | group inner => exact ⟨.mark .openGroup, spelled.1, by decide⟩

section Levels

variable {operand : Parser Tree.Operand} {bound : Nat}

omit legal in
/-- The parser reads every operand that has few enough lexemes. -/
def ReadsOperands (writing : Writing) (operand : Parser Tree.Operand) (bound : Nat) : Prop :=
  ∀ (draft : Draft.Operand) (start : Nat), draft.lexemes.length ≤ bound →
    writing.Holds start draft.lexemes →
    writing.Reads operand start (draft.tree writing.place start) (start + draft.lexemes.length)

variable (inner : writing.ReadsOperands operand bound)

include inner

theorem relation_reads {draft : Draft.Relation} (small : draft.lexemes.length ≤ bound)
    (spelled : writing.Holds start draft.lexemes)
    (ends : writing.Stops (start + draft.lexemes.length) [.both, .either, .closeGroup]) :
    writing.Reads (Parser.relationOf operand) start (draft.tree writing.place start)
      (start + draft.lexemes.length) := by
  apply Reads.named
  cases draft with
  | operand only =>
      have no_comparison : writing.Refuses Parser.comparison (start + only.lexemes.length) :=
        comparison_refused_at_stop legal ends (by simp [Mark.text])
      apply (inner only start small spelled).bind
      apply no_comparison.bind.option.bind
      exact reads_pure
  | compare left comparison right =>
      obtain ⟨leftSpelled, symbol, rightSpelled⟩ := holds_append.mp spelled
      have total : start + (Draft.Relation.compare left comparison right).lexemes.length =
          start + left.lexemes.length + 1 + right.lexemes.length := by
        rw [Relation.lexemes, List.length_append, List.length_cons]
        omega
      rw [Relation.lexemes, List.length_append, List.length_cons] at small
      obtain ⟨lexeme, later, apart⟩ := operand_begins legal rightSpelled
      rw [total]
      apply (inner left start (by omega) leftSpelled).bind
      have compared : writing.Reads (do
            let comparison ← Parser.comparison
            let right ← operand
            return (comparison, right)) (start + left.lexemes.length)
          (⟨writing.place (start + left.lexemes.length), comparison⟩,
            right.tree writing.place (start + left.lexemes.length + 1))
          (start + left.lexemes.length + 1 + right.lexemes.length) := by
        apply (comparison_reads legal symbol later apart).bind
        apply (inner right _ (by omega) rightSpelled).bind
        exact reads_pure
      apply compared.option.bind
      exact reads_pure

omit legal inner in
theorem conjunct_trees_eq (place : Nat → Location) (rest : List Draft.Relation) :
    conjunctTrees place start rest =
      joinedTrees Relation.lexemes (Relation.tree place) start rest := by
  induction rest generalizing start with
  | nil => rfl
  | cons next rest later => rw [conjunctTrees, joinedTrees, later]

omit legal inner in
theorem alternative_trees_eq (place : Nat → Location) (rest : List Draft.Conjunction) :
    alternativeTrees place start rest =
      joinedTrees Conjunction.lexemes (Conjunction.tree place) start rest := by
  induction rest generalizing start with
  | nil => rfl
  | cons next rest later => rw [alternativeTrees, joinedTrees, later]

theorem conjunction_reads {draft : Draft.Conjunction} (small : draft.lexemes.length ≤ bound)
    (spelled : writing.Holds start draft.lexemes)
    (ends : writing.Stops (start + draft.lexemes.length) [.either, .closeGroup]) :
    writing.Reads (Parser.conjunctionOf bound operand) start (draft.tree writing.place start)
      (start + draft.lexemes.length) := by
  obtain ⟨first, others⟩ := draft
  rw [Conjunction.lexemes, conjunct_lexemes_eq] at small spelled ends ⊢
  rw [Conjunction.tree, conjunct_trees_eq]
  apply Reads.named
  apply chain_reads legal _ small spelled ends (by decide)
  intro relation index small spelled ends
  exact relation_reads legal inner small spelled ends

theorem disjunction_reads {draft : Draft.Disjunction} (small : draft.lexemes.length ≤ bound)
    (spelled : writing.Holds start draft.lexemes)
    (ends : writing.Stops (start + draft.lexemes.length) [.closeGroup]) :
    writing.Reads (Parser.disjunctionOf bound operand) start (draft.tree writing.place start)
      (start + draft.lexemes.length) := by
  obtain ⟨first, others⟩ := draft
  rw [Disjunction.lexemes, alternative_lexemes_eq] at small spelled ends ⊢
  rw [Disjunction.tree, alternative_trees_eq]
  apply Reads.named
  apply chain_reads legal _ small spelled ends (by decide)
  intro conjunction index small spelled ends
  exact conjunction_reads legal inner small spelled ends

end Levels

theorem negation_refused {operand : Parser Tree.Operand} {lexeme : Lexeme}
    (found : writing.lexemes[start]? = some lexeme) (other : lexeme.text.head? ≠ some '!') :
    writing.Refuses (Parser.negationOf operand) start := by
  have no_mark : writing.Refuses (Parser.mark Mark.negation.text) start :=
    mark_refused legal found other
  apply Refuses.named
  apply reads_here.bind_refuses
  exact no_mark.bind

theorem group_refused {condition : Parser Tree.Disjunction} {lexeme : Lexeme}
    (found : writing.lexemes[start]? = some lexeme) (other : lexeme.text.head? ≠ some '(') :
    writing.Refuses (Parser.groupOf condition) start := by
  have no_mark : writing.Refuses (Parser.mark Mark.openGroup.text) start :=
    mark_refused legal found other
  apply reads_here.bind_refuses
  exact no_mark.bind

theorem operand_reads (bound : Nat) : writing.ReadsOperands (Parser.operand bound) bound := by
  induction bound with
  | zero =>
      intro draft start small spelled
      have none := List.length_eq_zero_iff.mp (Nat.le_zero.mp small)
      exact absurd none (operand_lexemes_ne_nil draft)
  | succ bound inner =>
      intro draft start small spelled
      cases draft with
      | value value =>
          obtain ⟨found, -⟩ := spelled
          have other : ∀ {character : Char}, isWordCharacter character = false → character ≠ '&' →
              value.lexeme.text.head? ≠ some character := by
            intro character outside different first
            rcases value_begins legal found first with word | ampersand
            · rw [outside] at word
              cases word
            · exact different ampersand
          apply Reads.second _ (negation_refused legal found (other (by decide) (by decide)))
          apply Reads.second _ (group_refused legal found (other (by decide) (by decide)))
          apply (value_reads legal found).bind
          exact reads_pure
      | negation operand =>
          obtain ⟨mark, written⟩ := spelled
          rw [Operand.lexemes, List.length_cons] at small
          rw [Operand.lexemes, List.length_cons, ← Nat.add_assoc, Nat.add_right_comm]
          apply Reads.first
          apply Reads.named
          apply reads_here.bind
          apply (mark_reads legal mark).bind
          apply (inner operand (start + 1) (by omega) written).bind
          exact reads_pure
      | group condition =>
          obtain ⟨opening, tail⟩ := spelled
          obtain ⟨written, closing, -⟩ := holds_append.mp tail
          rw [Operand.lexemes, parenthesized_length] at small
          rw [Operand.lexemes, parenthesized_length, ← Nat.add_assoc, ← Nat.add_assoc]
          apply Reads.second _ (negation_refused legal opening (by decide))
          apply Reads.first
          apply reads_here.bind
          apply (mark_reads legal opening).bind
          apply (disjunction_reads legal inner (by omega) written (stops_at_mark closing)).bind
          apply (mark_reads legal closing).bind
          exact reads_pure

theorem guard_reads {condition : Draft.Disjunction} {bound : Nat}
    (small : condition.lexemes.length ≤ bound)
    (spelled : writing.Holds start (parenthesized condition.lexemes)) :
    writing.Reads (Parser.guard bound) start (condition.tree writing.place (start + 1))
      (start + (parenthesized condition.lexemes).length) := by
  obtain ⟨opening, tail⟩ := spelled
  obtain ⟨written, closing, -⟩ := holds_append.mp tail
  rw [parenthesized_length, ← Nat.add_assoc, ← Nat.add_assoc]
  apply (mark_reads legal opening).bind
  have closes := stops_at_mark closing
  apply (disjunction_reads legal (operand_reads legal bound) small written closes).bind
  apply (mark_reads legal closing).bind
  exact reads_pure

/-- A text that is all one condition is read as it: where the text ends no level goes on. -/
theorem whole_condition_reads {draft : Draft.Disjunction} {bound : Nat}
    (all : writing.lexemes = draft.lexemes) (small : draft.lexemes.length ≤ bound) :
    writing.Reads (Parser.condition bound) 0 (draft.tree writing.place 0)
      writing.lexemes.length := by
  have spelled : writing.Holds 0 draft.lexemes := holds_of_drop (by rw [List.drop_zero, all])
  have total : 0 + draft.lexemes.length = writing.lexemes.length := by rw [all, Nat.zero_add]
  rw [← total]
  exact disjunction_reads legal (operand_reads legal bound) small spelled (.inl total)

end PacketSchema.Grammar.Writing
