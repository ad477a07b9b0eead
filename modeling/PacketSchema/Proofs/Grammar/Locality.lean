import PacketSchema.Proofs.Grammar.Sides

/-!
# What follows a packet does not matter

Each production reads alike on two texts that agree up to the brace that closes the packet. A block
inside the packet leaves the braces around it open, so its own closing brace is one of many; with
the brace of the packet itself the two texts part, and only the gap after it still has to be read.
-/

namespace PacketSchema.Grammar

open PacketSchema.Grammar.Parser
open PacketSchema.Tree (Located Operand Relation Conjunction Disjunction Statement)

namespace Sides

variable {sides : Sides} {Item : Type} {size depth bound another : Nat}

theorem stable_value : sides.Stable size depth depth 1 value value := by
  apply Stable.named
  apply Stable.or_else
  · apply stable_integer.bind
    intro numeral same numerals
    exact stable_pure fun placed => by rw [numerals placed]
  · apply stable_reference.bind
    intro ident same idents
    exact stable_pure fun placed => by rw [idents placed]

theorem stable_meaning {keyword : Keyword} {item : Item} :
    sides.Stable size depth depth 1 (meaning keyword item) (meaning keyword item) := by
  apply (stable_reserved keyword).bind
  intro _ _ _
  exact stable_pure fun _ => rfl

theorem stable_scalar : sides.Stable size depth depth 1 scalarType scalarType := by
  apply Stable.located
  apply Stable.named
  apply Stable.or_else
  · apply (stable_mark .ignored rfl).bind
    intro _ _ _
    exact stable_pure fun _ => rfl
  · exact stable_meaning.or_else stable_meaning

theorem stable_order : sides.Stable size depth depth 1 byteOrder byteOrder := by
  apply Stable.located
  apply Stable.named
  exact stable_meaning.or_else stable_meaning

theorem stable_unit : sides.Stable size depth depth 1 unit unit := by
  apply Stable.located
  apply Stable.named
  apply Stable.or_else
  · exact stable_meaning.named .bits
  · apply Stable.named
    apply (stable_reserved .bytes).bind
    intro _ _ _
    apply stable_order.option.bind
    intro order same orders
    exact stable_pure fun placed => by rw [orders placed]

theorem stable_width : sides.Stable size depth depth 1 width width := by
  apply Stable.named
  apply stable_value.bind
  intro count also counts
  apply stable_unit.loose.bind
  intro unit same units
  exact stable_pure fun placed => by rw [counts placed, units placed]

theorem stable_after_colon {one two : Parser Item}
    (body : ∀ {size}, sides.Stable size depth depth 1 one two) :
    sides.Stable size depth depth 1 (afterColon one) (afterColon two) := by
  apply (stable_mark .colon rfl).bind
  intro _ _ _
  exact body.loose

theorem stable_descriptor : sides.Stable size depth depth 1 descriptor descriptor := by
  apply Stable.named
  apply stable_scalar.bind
  intro scalar also scalars
  apply (stable_after_colon stable_width).option.bind
  intro width same widths
  apply (stable_after_colon stable_value).option.bind
  intro count equal counts
  exact stable_pure fun placed => by rw [scalars placed, widths placed, counts placed]

/-- The parts of a chain behind its first one. -/
theorem stable_joined {first second : Parser Item} (join : Mark)
    (plain : (Lexeme.mark join).isPlain = true)
    (body : sides.Stable size depth depth 1 first second) (fits : size ≤ bound)
    (also : size ≤ another) :
    sides.Stable size depth depth 0
      (many bound (do
        mark join.text
        first))
      (many another (do
        mark join.text
        second)) := by
  apply Stable.many _ fits also
  apply (stable_mark join plain).bind
  intro _ _ _
  exact (body.within (Nat.sub_le size 1)).loose

section Levels

variable {one two : Parser Operand} (inner : sides.Stable size depth depth 1 one two)

include inner

theorem stable_relation : sides.Stable size depth depth 1 (relationOf one) (relationOf two) := by
  apply Stable.named
  apply inner.bind
  intro left also lefts
  have compared : sides.Stable (size - 1) depth depth 1
      (do
        let comparison ← comparison
        let right ← one
        return (comparison, right))
      (do
        let comparison ← comparison
        let right ← two
        return (comparison, right)) := by
    apply stable_comparison.bind
    intro comparison also comparisons
    apply (inner.within (by omega)).loose.bind
    intro right same rights
    exact stable_pure fun placed => by rw [comparisons placed, rights placed]
  apply compared.option.bind
  intro rest same rests
  exact stable_pure fun placed => by rw [lefts placed, rests placed]

theorem stable_conjunction (fits : size ≤ bound) (also : size ≤ another) :
    sides.Stable size depth depth 1 (conjunctionOf bound one) (conjunctionOf another two) := by
  apply Stable.named
  apply (stable_relation inner).bind
  intro first equal firsts
  apply (stable_joined .both rfl
    ((stable_relation inner).within (Nat.sub_le size 1)) (by omega) (by omega)).bind
  intro others same rest
  exact stable_pure fun placed => by rw [firsts placed, rest placed]

theorem stable_disjunction (fits : size ≤ bound) (also : size ≤ another) :
    sides.Stable size depth depth 1 (disjunctionOf bound one) (disjunctionOf another two) := by
  apply Stable.named
  apply (stable_conjunction inner fits also).bind
  intro first equal firsts
  apply (stable_joined .either rfl
    ((stable_conjunction inner fits also).within (Nat.sub_le size 1)) (by omega) (by omega)).bind
  intro others same rest
  exact stable_pure fun placed => by rw [firsts placed, rest placed]

end Levels

/-- Each level of a condition takes a parenthesis or an exclamation mark, so that no nesting comes
to its bound. -/
theorem stable_operand (fits : size ≤ bound) (also : size ≤ another) :
    sides.Stable size depth depth 1 (operand bound) (operand another) := by
  induction size generalizing bound another with
  | zero => exact stable_zero
  | succ size later =>
      obtain ⟨bound, rfl⟩ := Nat.exists_eq_add_one.mpr (Nat.zero_lt_of_lt fits)
      obtain ⟨another, rfl⟩ := Nat.exists_eq_add_one.mpr (Nat.zero_lt_of_lt also)
      have inner := later (Nat.le_of_succ_le_succ fits) (Nat.le_of_succ_le_succ also)
      apply Stable.or_else
      · apply Stable.named
        apply stable_here
        intro place elsewhere places
        apply (stable_mark .negation rfl).bind
        intro _ _ _
        apply inner.loose.bind
        intro operand same operands
        exact stable_pure fun placed => by rw [places placed, operands placed]
      · apply Stable.or_else
        · apply stable_here
          intro place elsewhere places
          apply (stable_mark .openGroup rfl).bind
          intro _ _ _
          have condition := stable_disjunction inner (Nat.le_of_succ_le_succ fits)
            (Nat.le_of_succ_le_succ also)
          apply condition.loose.bind
          intro inside same insides
          apply (stable_mark .closeGroup rfl).loose.bind
          intro _ _ _
          exact stable_pure fun placed => by rw [places placed, insides placed]
        · apply stable_value.bind
          intro written same writtens
          exact stable_pure fun placed => by rw [writtens placed]

theorem stable_guard (fits : size ≤ bound) (also : size ≤ another) :
    sides.Stable size depth depth 1 (guard bound) (guard another) := by
  apply (stable_mark .openGroup rfl).bind
  intro _ _ _
  have condition : sides.Stable size depth depth 1 (condition bound) (condition another) :=
    stable_disjunction (stable_operand fits also) fits also
  apply (condition.within (Nat.sub_le size 1)).loose.bind
  intro inside same insides
  apply (stable_mark .closeGroup rfl).loose.bind
  intro _ _ _
  exact stable_pure insides

theorem stable_tag : sides.Stable size depth depth 1 tag tag := by
  apply Stable.named
  apply stable_here
  intro place elsewhere places
  apply (stable_mark .bar rfl).bind
  intro _ _ _
  apply stable_ident.loose.bind
  intro label also labels
  apply (stable_mark .colon rfl).loose.bind
  intro _ _ _
  apply stable_integer.loose.bind
  intro value same values
  apply (stable_mark .bar rfl).loose.bind
  intro _ _ _
  exact stable_pure fun placed => by rw [places placed, labels placed, values placed]

/-- A block within a packet: its brace is not the last one. -/
theorem stable_braced {one two : Parser Item}
    (body : sides.Stable (size - 1) (depth + 2) (depth + 2) 0 one two) :
    sides.Stable size (depth + 1) (depth + 1) 1 (braced one) (braced two) := by
  apply stable_open_brace.bind
  intro _ _ _
  apply body.bind
  intro item other items
  apply stable_close_brace.loose.bind
  intro _ _ _
  exact stable_pure items

theorem stable_always : sides.Stable size depth depth 1 alwaysStatement alwaysStatement := by
  apply Stable.named
  apply stable_here
  intro place elsewhere places
  apply (stable_reserved .always).bind
  intro _ _ _
  apply stable_ident.loose.bind
  intro ident also idents
  apply stable_descriptor.loose.bind
  intro descriptor same descriptors
  apply (stable_mark .semicolon rfl).loose.bind
  intro _ _ _
  exact stable_pure fun placed => by rw [places placed, idents placed, descriptors placed]

section Blocks

variable {one two : Parser (List Statement)}
  (inner : ∀ depth, sides.Stable (size - 1) (depth + 1) (depth + 1) 0 one two)
  (fits : size ≤ bound) (also : size ≤ another)

include inner fits also

theorem stable_optional :
    sides.Stable size (depth + 1) (depth + 1) 1 (optionalOf bound one)
      (optionalOf another two) := by
  apply Stable.named
  apply stable_here
  intro place elsewhere places
  apply (stable_reserved .optional).bind
  intro _ _ _
  apply stable_ident.loose.bind
  intro ident equal idents
  apply (stable_reserved .when).loose.bind
  intro _ _ _
  apply (stable_guard (by omega) (by omega)).loose.bind
  intro condition alike conditions
  apply (stable_braced ((inner (depth + 1)).within (by omega))).loose.bind
  intro body same bodies
  exact stable_pure fun placed => by
    rw [places placed, idents placed, conditions placed, bodies placed]

theorem stable_case :
    sides.Stable size (depth + 1) (depth + 1) 1 (caseOf bound one) (caseOf another two) := by
  apply Stable.named
  apply stable_here
  intro place elsewhere places
  apply (stable_reserved .case).bind
  intro _ _ _
  apply (stable_guard (by omega) (by omega)).loose.bind
  intro condition alike conditions
  apply stable_tag.loose.bind
  intro tag equal tags
  apply (stable_braced ((inner (depth + 1)).within (by omega))).loose.bind
  intro body same bodies
  exact stable_pure fun placed => by
    rw [places placed, conditions placed, tags placed, bodies placed]

omit fits also in
theorem stable_otherwise :
    sides.Stable size (depth + 1) (depth + 1) 1 (otherwiseOf one) (otherwiseOf two) := by
  apply Stable.named
  apply stable_here
  intro place elsewhere places
  apply (stable_reserved .otherwise).bind
  intro _ _ _
  apply stable_tag.loose.bind
  intro tag equal tags
  apply (stable_braced ((inner (depth + 1)).within (by omega))).loose.bind
  intro body same bodies
  exact stable_pure fun placed => by rw [places placed, tags placed, bodies placed]

theorem stable_union :
    sides.Stable size (depth + 1) (depth + 1) 1 (unionOf bound one) (unionOf another two) := by
  apply Stable.named
  apply stable_here
  intro place elsewhere places
  apply (stable_reserved .union).bind
  intro _ _ _
  apply stable_ident.loose.bind
  intro ident equal idents
  have arms : sides.Stable (size - 1) (depth + 2) (depth + 2) 0
      (do
        let cases ← many bound (caseOf bound one)
        let otherwise ← option (otherwiseOf one)
        return cases ++ otherwise.toList)
      (do
        let cases ← many another (caseOf another two)
        let otherwise ← option (otherwiseOf two)
        return cases ++ otherwise.toList) := by
    have guarded : sides.Stable size (depth + 2) (depth + 2) 1 (caseOf bound one)
        (caseOf another two) := stable_case inner fits also
    apply ((guarded.within (Nat.sub_le size 1)).many (by omega) (by omega)).bind
    intro cases alike guards
    apply ((stable_otherwise inner).within (Nat.sub_le size 1)).option.bind
    intro otherwise same last
    exact stable_pure fun placed => by rw [guards placed, last placed]
  apply (stable_braced (arms.within (by omega))).loose.bind
  intro arms same all
  exact stable_pure fun placed => by rw [places placed, idents placed, all placed]

theorem stable_statement :
    sides.Stable size (depth + 1) (depth + 1) 1 (statementOf bound one)
      (statementOf another two) := by
  apply Stable.or_else
  · have statement : sides.Stable size (depth + 1) (depth + 1) 1
        (alwaysStatement <|> optionalOf bound one <|> unionOf bound one)
        (alwaysStatement <|> optionalOf another two <|> unionOf another two) :=
      stable_always.or_else
        ((stable_optional inner fits also).or_else (stable_union inner fits also))
    apply statement.bind
    intro statement same statements
    exact stable_pure fun placed => by rw [statements placed]
  · apply (stable_mark .semicolon rfl).bind
    intro _ _ _
    exact stable_pure fun _ => rfl

end Blocks

/-- Each block takes a brace, so that no nesting comes to its bound either. -/
theorem stable_block (fits : size ≤ bound - 1) (also : size ≤ another - 1) :
    sides.Stable size (depth + 1) (depth + 1) 0 (block bound) (block another) := by
  induction size generalizing depth bound another with
  | zero => exact stable_zero
  | succ size later =>
      obtain ⟨bound, rfl⟩ : ∃ less, bound = less + 1 := ⟨bound - 1, by omega⟩
      obtain ⟨another, rfl⟩ : ∃ less, another = less + 1 := ⟨another - 1, by omega⟩
      have inner : ∀ depth, sides.Stable size (depth + 1) (depth + 1) 0 (block bound)
          (block another) := fun depth => later (by omega) (by omega)
      have each : sides.Stable (size + 1) (depth + 1) (depth + 1) 1
          (statementOf bound (block bound)) (statementOf another (block another)) :=
        stable_statement inner fits also
      apply (each.many fits also).bind
      intro statements same all
      exact stable_pure fun placed => by rw [all placed]

theorem stable_inheritance (fits : size ≤ bound) (also : size ≤ another) :
    sides.Stable size depth depth 1 (inheritance bound) (inheritance another) := by
  apply Stable.named
  apply stable_here
  intro place elsewhere places
  apply (stable_mark .colon rfl).bind
  intro _ _ _
  apply stable_ident.loose.bind
  intro parent equal parents
  apply (stable_guard (by omega) (by omega)).option.bind
  intro condition same conditions
  exact stable_pure fun placed => by rw [places placed, parents placed, conditions placed]

/-- A packet without the brace that closes it. -/
def packetFront (bound : Nat) : Parser Tree.Packet := do
  let ident ← ident
  let inheritance ← option (inheritance bound)
  mark ['\x7b']
  let body ← block bound
  return ⟨ident, inheritance, body⟩

theorem run_packet (bound : Nat) (cursor : Cursor) :
    (packet bound).run cursor = (do
      let packet ← packetFront bound
      mark ['\x7d']
      return packet).run cursor := by
  simp [packet, packetFront, braced, Option.bind_assoc]

theorem stable_front (fits : size ≤ bound) (also : size ≤ another) :
    sides.Stable size 0 1 1 (packetFront bound) (packetFront another) := by
  apply stable_ident.bind
  intro ident equal idents
  apply (stable_inheritance (by omega) (by omega)).option.bind
  intro inheritance alike clauses
  apply stable_open_brace.loose.bind
  intro _ _ _
  apply (stable_block (by omega) (by omega)).bind
  intro body same bodies
  exact stable_pure fun placed => by rw [idents placed, clauses placed, bodies placed]

/-- The brace that closes a packet is the last of its text, and the gap after it is the first of
what follows. -/
theorem last_brace {place : Location} {front more : List Char} {after : Cursor} {taken : Unit}
    (enclosed : Enclosed 1 front)
    (read : (mark ['\x7d']).run ⟨place, front ++ more⟩ = some (taken, after)) :
    front = ['\x7d'] ∧ after = afterGap ⟨place.next '\x7d', more⟩ := by
  obtain ⟨first, rest, rfl⟩ := List.exists_cons_of_ne_nil enclosed.nonempty
  obtain ⟨_, ⟨location, behind⟩, begun, gap⟩ := bind_eq_some_iff.mp read
  cases gap
  have passes := literal_iff.mp begun
  obtain ⟨same, remains⟩ := List.cons.inj passes.rest
  cases same
  cases enclosed.after_last
  cases remains
  cases passes.location
  exact ⟨rfl, rfl⟩

/-- What is read as a packet from one text is read as a packet from the other one, and the texts
are left with the gaps that they begin with after the brace of the packet. -/
theorem packet_beside (sides : Sides) {front : List Char} {place elsewhere : Location}
    {packet : Tree.Packet} {after : Cursor} (enclosed : Enclosed 0 front)
    (fits : front.length ≤ bound) (also : front.length ≤ another)
    (places : sides.placed → place = elsewhere)
    (read : (Parser.packet bound).run ⟨place, front ++ sides.left⟩ = some (packet, after)) :
    ∃ other close shut,
      (Parser.packet another).run ⟨elsewhere, front ++ sides.right⟩ =
          some (other, afterGap ⟨shut, sides.right⟩) ∧
        after = afterGap ⟨close, sides.left⟩ ∧ (sides.placed → packet = other) ∧
        (sides.placed → close = shut) := by
  rw [run_packet] at read
  obtain ⟨_, last, begun, closed⟩ := bind_eq_some_iff.mp read
  have beside := (stable_front fits also).agree enclosed (Nat.le_refl _) places
  rw [begun] at beside
  generalize found : (packetFront another).run ⟨elsewhere, front ++ sides.right⟩ = answer at beside
  cases beside with
  | @accepted _ other close shut rest items ends inside shorter =>
      obtain ⟨_, behind, brace, answer⟩ := bind_eq_some_iff.mp closed
      cases answer
      obtain ⟨rfl, rfl⟩ := last_brace inside brace
      refine ⟨other, close.next '\x7d', shut.next '\x7d', ?_, rfl, items, ?_⟩
      · rw [run_packet, run_bind_some found]
        rfl
      · intro placed
        rw [ends placed]

end Sides

end PacketSchema.Grammar
