import PacketSchema.Proofs.Grammar.Numerals
import PacketSchema.Proofs.Grammar.Placing

/-!
# Leaves in the order of the text

A parser never goes back, and each integer and each reference takes a character at least. So the
leaves of a condition, from left to right, are in the order of the text: each begins where the one
before it has ended, or later. What is said here of a condition as it is read holds of every part
of it as well, for its leaves are some of those of the whole.
-/

namespace PacketSchema

namespace Tree

def Value.Numbered : Value → Prop
  | .integer numeral => Grammar.IsNumeral numeral.item
  | .reference _ => True

/-- Between two places, the leaves stand one after another. -/
inductive Ascending : Location → List Value → Location → Prop where
  | nil {start finish : Location} (onward : finish.isBefore start = false) :
      Ascending start [] finish
  | cons {start middle finish : Location} {leaf : Value} {rest : List Value}
      (onward : leaf.location.isBefore start = false)
      (further : leaf.location.isBefore middle = true) (numbered : leaf.Numbered)
      (later : Ascending middle rest finish) : Ascending start (leaf :: rest) finish

namespace Ascending

variable {start early middle finish : Location} {first second leaves : List Value}

theorem of_earlier (ascending : Ascending start leaves finish)
    (onward : start.isBefore early = false) : Ascending early leaves finish := by
  rw [Location.not_before_iff] at onward
  cases ascending with
  | nil last =>
      rw [Location.not_before_iff] at last
      exact .nil (Location.not_before_iff.mpr (by omega))
  | cons next further numbered later =>
      rw [Location.not_before_iff] at next
      exact .cons (Location.not_before_iff.mpr (by omega)) further numbered later

theorem append (left : Ascending start first middle) (right : Ascending middle second finish) :
    Ascending start (first ++ second) finish := by
  induction left with
  | nil onward => exact right.of_earlier onward
  | cons onward further numbered _ later => exact .cons onward further numbered (later right)

theorem numbered (ascending : Ascending start leaves finish) :
    ∀ leaf ∈ leaves, leaf.Numbered := by
  induction ascending with
  | nil => exact List.forall_mem_nil _
  | cons _ _ numbered _ later => exact List.forall_mem_cons.mpr ⟨numbered, later⟩

theorem none_before (ascending : Ascending start leaves finish) :
    ∀ leaf ∈ leaves, leaf.location.isBefore start = false := by
  induction ascending with
  | nil => exact List.forall_mem_nil _
  | cons onward further _ _ later =>
      refine List.forall_mem_cons.mpr ⟨onward, ?_⟩
      intro leaf member
      have behind := later leaf member
      rw [Location.not_before_iff] at onward behind ⊢
      rw [Location.is_before_iff] at further
      omega

theorem pairwise (ascending : Ascending start leaves finish) :
    leaves.Pairwise fun left right => left.location.isBefore right.location = true := by
  induction ascending with
  | nil => exact .nil
  | cons _ further _ rest later =>
      refine .cons ?_ later
      intro leaf member
      have behind := rest.none_before leaf member
      rw [Location.not_before_iff] at behind
      rw [Location.is_before_iff] at further ⊢
      omega

end Ascending

end Tree

namespace Grammar.Parser

open PacketSchema.Tree (Ascending Value Disjunction Conjunction Relation Operand)

variable {Item Other : Type} {told : Item → List Value → Prop} {also : Other → List Value → Prop}
  {leaves : Item → List Value} {parser : Parser Item} {next : Item → Parser Other}

structure Advances (parser : Parser Item) : Prop where
  holds : ∀ cursor item after, parser.run cursor = some (item, after) →
    after.location.isBefore cursor.location = false

/-- The leaves that the parser passes stand in a relation to the item that it answers, and they
stand one after another. -/
structure Ascends (told : Item → List Value → Prop) (parser : Parser Item) : Prop where
  holds : ∀ cursor item after, parser.run cursor = some (item, after) →
    ∃ passed, told item passed ∧ Ascending cursor.location passed after.location

def Orders (leaves : Item → List Value) (parser : Parser Item) : Prop :=
  parser.Ascends fun item passed => passed = leaves item

theorem Fronts.advances {word : Item → List Char} (fronts : parser.Fronts word) :
    parser.Advances := by
  constructor
  intro cursor item after accepted
  obtain ⟨more, passes⟩ := fronts.holds cursor item after accepted
  rw [passes.location]
  exact Location.after_not_before _ _

theorem advances_mark (text : List Char) : (mark text).Advances :=
  (literal_fronts text).before_gap.advances

theorem advances_comparison : comparison.Advances :=
  (bare_comparison_fronts.named .comparison).token.before_gap.advances

theorem advances_here : here.Advances := by
  constructor
  intro cursor location after accepted
  cases accepted
  exact Location.after_not_before cursor.location []

theorem ascends_pure {item : Item} (holds : told item []) :
    Ascends told (pure item : Parser Item) := by
  constructor
  intro cursor found after accepted
  cases accepted
  exact ⟨[], holds, .nil (Location.after_not_before cursor.location [])⟩

theorem ascends_refuse : Ascends told (refuse : Parser Item) := by
  constructor
  intro cursor item after accepted
  cases accepted

theorem Ascends.bind (first : parser.Ascends told)
    (second : ∀ item passed, told item passed →
      (next item).Ascends fun other more => also other (passed ++ more)) :
    (parser >>= next).Ascends also := by
  constructor
  intro cursor other after accepted
  obtain ⟨item, middle, read, rest⟩ := bind_eq_some_iff.mp accepted
  obtain ⟨passed, relation, front⟩ := first.holds cursor item middle read
  obtain ⟨more, tells, back⟩ := (second item passed relation).holds middle other after rest
  exact ⟨passed ++ more, tells, front.append back⟩

theorem Orders.bind (first : parser.Orders leaves)
    (second : ∀ item, (next item).Ascends fun other more => also other (leaves item ++ more)) :
    (parser >>= next).Ascends also := by
  apply Ascends.bind first
  rintro item passed rfl
  exact second item

/-- What has no leaves may come first. -/
theorem Advances.bind (first : parser.Advances) (second : ∀ item, (next item).Ascends also) :
    (parser >>= next).Ascends also := by
  constructor
  intro cursor other after accepted
  obtain ⟨item, middle, read, rest⟩ := bind_eq_some_iff.mp accepted
  obtain ⟨passed, tells, back⟩ := (second item).holds middle other after rest
  exact ⟨passed, tells, back.of_earlier (first.holds cursor item middle read)⟩

theorem Ascends.or_else {second : Parser Item} (left : parser.Ascends told)
    (right : second.Ascends told) : (parser <|> second).Ascends told := by
  constructor
  intro cursor item after accepted
  rw [run_orElse] at accepted
  rcases Option.or_eq_some_iff.mp accepted with first | ⟨-, last⟩
  · exact left.holds cursor item after first
  · exact right.holds cursor item after last

theorem Ascends.named (body : parser.Ascends told) (rule : Rule) :
    (named rule parser).Ascends told := by
  constructor
  intro cursor item after accepted
  rw [run_named] at accepted
  exact body.holds cursor item after accepted

theorem Orders.option (body : parser.Orders leaves) :
    (option parser).Orders fun answer => answer.elim [] leaves := by
  apply Ascends.or_else
  · apply body.bind
    intro item
    exact ascends_pure (List.append_nil _)
  · exact ascends_pure rfl

theorem Orders.many (body : parser.Orders leaves) (bound : Nat) :
    (many bound parser).Orders fun items => items.flatMap leaves := by
  induction bound with
  | zero => exact ascends_pure rfl
  | succ bound rest =>
      apply body.option.bind
      intro answer
      cases answer with
      | none => exact ascends_pure rfl
      | some item =>
          apply rest.bind
          intro items
          exact ascends_pure (by rw [List.append_nil]; rfl)

theorem token_read {rule : Rule} {bare : Parser String} {cursor after : Cursor}
    {token : Tree.Token}
    (accepted : (beforeGap (located (named rule bare))).run cursor = some (token, after)) :
    ∃ middle, token.location = cursor.location ∧ bare.run cursor = some (token.item, middle) ∧
      after = afterGap middle := by
  obtain ⟨read, middle, taken, rest⟩ := bind_eq_some_iff.mp accepted
  cases rest
  obtain ⟨here, spelled⟩ := located_eq_some_iff.mp taken
  rw [run_named] at spelled
  exact ⟨middle, here, spelled, rfl⟩

/-- A leaf begins where it is located, and it has a character. -/
theorem ascending_leaf {cursor middle : Cursor} {taken : List Char} {leaf : Value}
    (passes : cursor.Passes taken middle) (nonempty : taken ≠ [])
    (placed : leaf.location = cursor.location) (numbered : leaf.Numbered) :
    Ascending cursor.location [leaf] (afterGap middle).location := by
  obtain ⟨gap, across, -⟩ := passes_after_gap middle
  have onward : (afterGap middle).location.isBefore middle.location = false := by
    rw [across.location]
    exact Location.after_not_before middle.location gap
  refine .cons ?_ ?_ numbered (.nil onward)
  · rw [placed]
    exact Location.after_not_before cursor.location []
  · rw [placed, passes.location]
    exact Location.before_after nonempty

theorem integer_orders : integer.Orders fun numeral => [.integer numeral] := by
  constructor
  intro cursor numeral after accepted
  obtain ⟨middle, here, spelled, rfl⟩ := token_read accepted
  obtain ⟨shaped, passes, -⟩ := bare_integer_shaped spelled
  exact ⟨_, rfl, ascending_leaf passes shaped.nonempty here shaped⟩

theorem reference_orders : reference.Orders fun ident => [.reference ident] := by
  constructor
  intro cursor ident after accepted
  obtain ⟨middle, here, spelled, rfl⟩ := token_read accepted
  obtain ⟨-, passes, -⟩ := bare_reference_iff.mp spelled
  exact ⟨_, rfl, ascending_leaf passes (List.cons_ne_nil _ _) here trivial⟩

theorem value_orders : value.Orders fun found => [found] := by
  apply Ascends.named
  apply Ascends.or_else
  · apply integer_orders.bind
    intro numeral
    exact ascends_pure rfl
  · apply reference_orders.bind
    intro ident
    exact ascends_pure rfl

section Conditions

variable {operand : Parser Operand}

theorem relation_orders (inner : operand.Orders Operand.leaves) :
    (relationOf operand).Orders Relation.leaves := by
  apply Ascends.named
  apply inner.bind
  intro left
  have compared : (do
      let comparison ← comparison
      let right ← operand
      return (comparison, right) : Parser (Tree.Located Comparison × Operand)).Orders
      fun found => found.2.leaves := by
    apply advances_comparison.bind
    intro comparison
    apply inner.bind
    intro right
    exact ascends_pure (List.append_nil _)
  apply compared.option.bind
  intro rest
  apply ascends_pure
  rw [List.append_nil]
  cases rest with
  | none => exact List.append_nil _
  | some found => rfl

/-- The parts of a chain behind its first one, each with the mark before it. -/
theorem joined_orders (body : parser.Orders leaves) (join : List Char) (bound : Nat) :
    (many bound (do
      mark join
      parser)).Orders fun items => items.flatMap leaves := by
  apply Orders.many
  apply (advances_mark join).bind
  intro _
  exact body

theorem conjuncts_leaves (first : Conjunction) (others : List Relation) :
    (others.foldl .and first).leaves = first.leaves ++ others.flatMap Relation.leaves := by
  induction others generalizing first with
  | nil => rw [List.foldl_nil, List.flatMap_nil, List.append_nil]
  | cons next rest later =>
      rw [List.foldl_cons, later, Conjunction.leaves, List.flatMap_cons, List.append_assoc]

theorem alternatives_leaves (first : Disjunction) (others : List Conjunction) :
    (others.foldl .or first).leaves = first.leaves ++ others.flatMap Conjunction.leaves := by
  induction others generalizing first with
  | nil => rw [List.foldl_nil, List.flatMap_nil, List.append_nil]
  | cons next rest later =>
      rw [List.foldl_cons, later, Disjunction.leaves, List.flatMap_cons, List.append_assoc]

theorem conjunction_orders (bound : Nat) (inner : operand.Orders Operand.leaves) :
    (conjunctionOf bound operand).Orders Conjunction.leaves := by
  apply Ascends.named
  apply (relation_orders inner).bind
  intro first
  apply (joined_orders (relation_orders inner) ['&', '&'] bound).bind
  intro others
  apply ascends_pure
  rw [List.append_nil, conjuncts_leaves, Conjunction.leaves]

theorem disjunction_orders (bound : Nat) (inner : operand.Orders Operand.leaves) :
    (disjunctionOf bound operand).Orders Disjunction.leaves := by
  apply Ascends.named
  apply (conjunction_orders bound inner).bind
  intro first
  apply (joined_orders (conjunction_orders bound inner) ['|', '|'] bound).bind
  intro others
  apply ascends_pure
  rw [List.append_nil, alternatives_leaves, Disjunction.leaves]

end Conditions

theorem operand_orders (bound : Nat) : (operand bound).Orders Operand.leaves := by
  induction bound with
  | zero => exact ascends_refuse
  | succ bound inner =>
      apply Ascends.or_else
      · apply Ascends.named
        apply advances_here.bind
        intro location
        apply (advances_mark ['!']).bind
        intro _
        apply inner.bind
        intro found
        exact ascends_pure (List.append_nil _)
      · apply Ascends.or_else
        · apply advances_here.bind
          intro location
          apply (advances_mark ['(']).bind
          intro _
          apply (disjunction_orders bound inner).bind
          intro found
          apply (advances_mark [')']).bind
          intro _
          exact ascends_pure (List.append_nil _)
        · apply value_orders.bind
          intro written
          exact ascends_pure (List.append_nil _)

theorem condition_orders (bound : Nat) : (condition bound).Orders Disjunction.leaves :=
  disjunction_orders bound (operand_orders bound)

end Grammar.Parser

end PacketSchema
