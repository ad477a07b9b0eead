import Mathlib.Data.List.TakeWhile
import PacketSchema.Grammar.SyntaxError

/-!
# What parsers answer

A parser yields a property when all that it accepts has it, whatever the text. Each combinator
passes the property on, so that a property of the parts of a rule gives one of what the rule reads;
how much of the text was taken is left aside here.
-/

namespace PacketSchema.Grammar.Parser

variable {Item Other : Type} {property : Item → Prop} {also : Other → Prop}
  {parser : Parser Item} {next : Item → Parser Other}

structure Yields (property : Item → Prop) (parser : Parser Item) : Prop where
  holds : ∀ cursor item after, parser.run cursor = some (item, after) → property item

theorem yields_pure {item : Item} (holds : property item) :
    Yields property (pure item : Parser Item) := by
  constructor
  intro cursor found after accepted
  rw [run_pure] at accepted
  cases accepted
  exact holds

theorem yields_refuse : Yields property (refuse : Parser Item) := by
  constructor
  intro cursor item after accepted
  rw [run_refuse] at accepted
  cases accepted

theorem Yields.bind (first : parser.Yields property)
    (second : ∀ item, property item → (next item).Yields also) :
    (parser >>= next).Yields also := by
  constructor
  intro cursor item after accepted
  rw [run_bind] at accepted
  rcases Option.bind_eq_some_iff.mp accepted with ⟨⟨read, middle⟩, taken, rest⟩
  exact (second read (first.holds cursor read middle taken)).holds middle item after rest

/-- What is read first may be of no concern. -/
theorem yields_after (second : ∀ item, (next item).Yields also) :
    (parser >>= next).Yields also := by
  have first : parser.Yields fun _ => True := ⟨fun _ _ _ _ => trivial⟩
  exact first.bind fun item _ => second item

theorem Yields.or_else {second : Parser Item} (left : parser.Yields property)
    (right : second.Yields property) : (parser <|> second).Yields property := by
  constructor
  intro cursor item after accepted
  rw [run_orElse] at accepted
  rcases Option.or_eq_some_iff.mp accepted with first | ⟨_, last⟩
  · exact left.holds cursor item after first
  · exact right.holds cursor item after last

theorem Yields.option (holds : parser.Yields property) :
    (option parser).Yields fun answer => ∀ item ∈ answer, property item := by
  unfold Parser.option
  apply Yields.or_else
  · apply holds.bind
    intro item has
    apply yields_pure
    intro other member
    cases member
    exact has
  · apply yields_pure
    intro item member
    cases member

theorem Yields.many (holds : parser.Yields property) (bound : Nat) :
    (many bound parser).Yields fun items => ∀ item ∈ items, property item := by
  induction bound with
  | zero =>
      constructor
      intro cursor items after accepted
      cases accepted
      intro item member
      cases member
  | succ bound rest =>
      apply holds.option.bind
      intro answer has
      cases answer with
      | none =>
          apply yields_pure
          intro item member
          cases member
      | some first =>
          apply rest.bind
          intro items have_all
          apply yields_pure
          intro item member
          rcases List.mem_cons.mp member with rfl | later
          · exact has item rfl
          · exact have_all item later

theorem Yields.named (holds : parser.Yields property) (rule : Rule) :
    (named rule parser).Yields property := by
  constructor
  intro cursor item after accepted
  rw [run_named] at accepted
  exact holds.holds cursor item after accepted

theorem Yields.located (holds : parser.Yields property) :
    (located parser).Yields fun found => property found.item := by
  unfold Parser.located
  apply yields_after
  intro location
  apply holds.bind
  intro item has
  exact yields_pure has

theorem Yields.before_gap (holds : parser.Yields property) :
    (beforeGap parser).Yields property := by
  unfold beforeGap
  apply holds.bind
  intro item has
  apply yields_after
  intro _
  exact yields_pure has

theorem yields_satisfy (accepts : Char → Bool) :
    (satisfy accepts).Yields fun character => accepts character = true := by
  constructor
  intro cursor character after accepted
  unfold run satisfy at accepted
  cases written : cursor.rest with
  | nil =>
      rw [written] at accepted
      cases accepted
  | cons first rest =>
      rw [written] at accepted
      simp only at accepted
      split at accepted
      next passes =>
        cases accepted
        exact passes
      · cases accepted

theorem yields_span (accepts : Char → Bool) :
    (span accepts).Yields fun taken => ∀ character ∈ taken, accepts character = true := by
  constructor
  intro cursor taken after accepted
  cases accepted
  intro character member
  exact List.mem_takeWhile_imp member

end PacketSchema.Grammar.Parser
