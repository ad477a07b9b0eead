import PacketSchema.Proofs.Dump.Outline
import PacketSchema.Proofs.Grammar.Regular
import PacketSchema.Proofs.Grammar.Runs

/-!
# Texts of conditions

The text of a condition tells which condition it is, also where more text follows. Numbers and
identifiers are the longest runs of their characters, an exclamation mark begins a negation, and a
parenthesis begins a relation or a conjunction, whose symbol stands between blanks.
-/

namespace PacketSchema

open Grammar (IsWord isWordCharacter isWordStart)

/-- The characters of numbers, of identifiers and of references with their ampersand. -/
def isLeafCharacter (character : Char) : Bool :=
  isWordCharacter character || character == '-' || character == '?' || character == '&'

theorem leaf_of_word_character {character : Char} (word : isWordCharacter character = true) :
    isLeafCharacter character = true := by
  rw [isLeafCharacter, word, Bool.true_or, Bool.true_or, Bool.true_or]

theorem int_characters (number : Int) {character : Char}
    (member : character ∈ (toString number).toList) :
    character.isDigit = true ∨ character = '-' := by
  have digits : ∀ value : Nat, character ∈ value.repr.toList → character.isDigit = true := by
    intro value inside
    rw [Nat.toList_repr] at inside
    exact Nat.isDigit_of_mem_toDigits (by decide) (by decide) inside
  rw [Int.toString_eq_repr, Int.repr_eq_if] at member
  split at member
  · exact .inl (digits _ member)
  · rw [String.toList_append, List.mem_append] at member
    rcases member with sign | inside
    · exact .inr (List.mem_singleton.mp sign)
    · exact .inl (digits _ inside)

theorem nat_repr_injective {left right : Nat} (same : left.repr = right.repr) : left = right := by
  have digits : Nat.toDigits 10 left = Nat.toDigits 10 right := by
    rw [← Nat.toList_repr, ← Nat.toList_repr, same]
  rw [← @Nat.ofDigitChars_ten_toDigits left, digits, Nat.ofDigitChars_ten_toDigits]

theorem int_text_injective {left right : Int} (same : toString left = toString right) :
    left = right := by
  have unsigned : ∀ (value : Nat) (rest : String), value.repr ≠ "-" ++ rest := by
    intro value rest equal
    have sign : '-' ∈ value.repr.toList := by
      rw [equal, String.toList_append]
      exact List.mem_append_left _ List.mem_cons_self
    rw [Nat.toList_repr] at sign
    have digit := Nat.isDigit_of_mem_toDigits (by decide) (by decide) sign
    cases digit
  rw [Int.toString_eq_repr, Int.toString_eq_repr, Int.repr_eq_if, Int.repr_eq_if] at same
  by_cases leftSign : 0 ≤ left
  · by_cases rightSign : 0 ≤ right
    · rw [if_pos leftSign, if_pos rightSign] at same
      have naturals := nat_repr_injective same
      omega
    · rw [if_pos leftSign, if_neg rightSign] at same
      exact absurd same (unsigned _ _)
  · by_cases rightSign : 0 ≤ right
    · rw [if_neg leftSign, if_pos rightSign] at same
      exact absurd same.symm (unsigned _ _)
    · rw [if_neg leftSign, if_neg rightSign] at same
      have naturals := nat_repr_injective (String.append_right_inj _ |>.mp same)
      omega

theorem number_text_leaf (number : Option Int) :
    ∀ character ∈ (numberText number).toList, isLeafCharacter character = true := by
  intro character member
  cases number with
  | none =>
      cases List.mem_singleton.mp member
      decide
  | some value =>
      rcases int_characters value member with digit | rfl
      · exact leaf_of_word_character (word_character_of_digit digit)
      · decide

theorem number_text_injective {left right : Option Int}
    (same : numberText left = numberText right) : left = right := by
  have unmarked : ∀ value : Int, numberText (some value) ≠ numberText none := by
    intro value equal
    have mark : '?' ∈ (toString value).toList := by
      change '?' ∈ (numberText (some value)).toList
      rw [equal]
      exact List.mem_cons_self
    rcases int_characters value mark with digit | sign
    · cases digit
    · cases sign
  cases left with
  | none =>
      cases right with
      | none => rfl
      | some value => exact absurd same.symm (unmarked value)
  | some value =>
      cases right with
      | none => exact absurd same (unmarked value)
      | some other => exact congrArg some (int_text_injective same)

theorem number_text_ne_nil (number : Option Int) : (numberText number).toList ≠ [] := by
  have digits : ∀ value : Nat, value.repr.toList ≠ [] := by
    intro value
    rw [Nat.toList_repr]
    exact Nat.toDigits_ne_nil
  cases number with
  | none => exact List.cons_ne_nil _ _
  | some value =>
      rw [numberText, Option.elim, Int.toString_eq_repr, Int.repr_eq_if]
      split
      · exact digits _
      · rw [String.toList_append]
        exact List.cons_ne_nil _ _

/-- No number begins like an identifier. -/
theorem number_text_ne_word (number : Option Int) {ident : String} (word : IsWord ident) :
    numberText number ≠ ident := by
  intro same
  rcases word.start with ⟨first, others, written, starts⟩
  have member : first ∈ (numberText number).toList := by
    rw [same, written]
    exact List.mem_cons_self
  cases number with
  | none =>
      cases List.mem_singleton.mp member
      cases starts
  | some value =>
      rcases int_characters value member with digit | rfl
      · rw [not_start_of_digit digit] at starts
        cases starts
      · cases starts

namespace Formula

def Legible : Formula → Prop
  | .integer _ => True
  | .field ident => IsWord ident
  | .negation operand => operand.Legible
  | .relation _ left right => left.Legible ∧ right.Legible
  | .conjunction _ left right => left.Legible ∧ right.Legible

inductive IsLeaf : Formula → Prop where
  | integer (number : Option Int) : IsLeaf (.integer number)
  | field (ident : String) : IsLeaf (.field ident)

variable {left right first second : Formula} {rest other : List Char}

theorem leaf_characters (leaf : left.IsLeaf) (legible : left.Legible) :
    left.text.toList ≠ [] ∧ ∀ character ∈ left.text.toList, isLeafCharacter character = true := by
  cases leaf with
  | integer number => exact ⟨number_text_ne_nil number, number_text_leaf number⟩
  | field ident =>
      have word : IsWord ident := legible
      rcases word.start with ⟨head, others, written, _⟩
      constructor
      · rw [text, written]
        exact List.cons_ne_nil _ _
      · intro character member
        exact leaf_of_word_character (word.within character member)

theorem leaf_text_injective (leftLeaf : left.IsLeaf) (rightLeaf : right.IsLeaf)
    (leftLegible : left.Legible) (rightLegible : right.Legible) (same : left.text = right.text) :
    left = right := by
  cases leftLeaf with
  | integer number =>
      cases rightLeaf with
      | integer other => exact congrArg integer (number_text_injective same)
      | field ident => exact absurd same (number_text_ne_word number rightLegible)
  | field ident =>
      cases rightLeaf with
      | integer number => exact absurd same.symm (number_text_ne_word number leftLegible)
      | field other => exact congrArg field same

/-- A leaf begins with one of its characters. -/
theorem leaf_clash (leaf : left.IsLeaf) (legible : left.Legible) {mark : Char}
    (outside : isLeafCharacter mark = false) : left.text.toList ++ rest ≠ mark :: other := by
  intro same
  rcases leaf_characters leaf legible with ⟨nonempty, characters⟩
  cases written : left.text.toList with
  | nil => exact nonempty written
  | cons head tail =>
      rw [written, List.cons_append, List.cons.injEq] at same
      have inside := characters head (by rw [written]; exact List.mem_cons_self)
      rw [same.1, outside] at inside
      cases inside

theorem negation_text (operand : Formula) (rest : List Char) :
    (negation operand).text.toList ++ rest = '!' :: (operand.text.toList ++ rest) := by
  rw [text, String.toList_append]
  rfl

abbrev Operator : Type := Comparison ⊕ Connective

def Operator.symbol : Operator → String
  | .inl comparison => comparison.symbol
  | .inr connective => connective.symbol

def operation (operator : Operator) (left right : Formula) : Formula :=
  match operator with
  | .inl comparison => .relation comparison left right
  | .inr connective => .conjunction connective left right

theorem operator_solid (operator : Operator) :
    ∀ character ∈ operator.symbol.toList, (character != ' ') = true := by
  rcases operator with comparison | connective
  · cases comparison <;> exact List.all_eq_true.mp (by decide)
  · cases connective <;> exact List.all_eq_true.mp (by decide)

theorem operator_symbol_injective {operator other : Operator}
    (same : operator.symbol = other.symbol) : operator = other := by
  revert same
  rcases operator with comparison | connective
  · rcases other with second | second <;> cases comparison <;> cases second <;> decide
  · rcases other with second | second <;> cases connective <;> cases second <;> decide

theorem operation_text (operator : Operator) (left right : Formula) (rest : List Char) :
    (operation operator left right).text.toList ++ rest =
      '(' :: (left.text.toList ++
        ' ' :: (operator.symbol.toList ++ ' ' :: (right.text.toList ++ ')' :: rest))) := by
  cases operator <;> simp [operation, text, Operator.symbol]

theorem operation_legible (operator : Operator) :
    (operation operator left right).Legible ↔ left.Legible ∧ right.Legible := by
  cases operator <;> rfl

/-- The text of a condition, with anything after it that does not go on with a leaf, tells which
condition it is and where it ends. -/
def Tells (left : Formula) : Prop :=
  ∀ (right : Formula) (rest other : List Char), right.Legible → Breaks isLeafCharacter rest →
    Breaks isLeafCharacter other → left.text.toList ++ rest = right.text.toList ++ other →
    left = right ∧ rest = other

theorem leaf_tells (leaf : left.IsLeaf) (legible : left.Legible) : left.Tells := by
  intro right rest other rightLegible restBreaks otherBreaks same
  have among : right.IsLeaf → left = right ∧ rest = other := by
    intro rightLeaf
    have split := run_append_inj (leaf_characters leaf legible).2
      (leaf_characters rightLeaf rightLegible).2 restBreaks otherBreaks same
    have texts : left.text = right.text := String.toList_inj.mp split.1
    exact ⟨leaf_text_injective leaf rightLeaf legible rightLegible texts, split.2⟩
  cases right with
  | integer number => exact among (.integer number)
  | field ident => exact among (.field ident)
  | negation operand =>
      rw [negation_text] at same
      exact absurd same (leaf_clash leaf legible (by decide))
  | relation comparison first second =>
      have text := operation_text (.inl comparison) first second other
      exact absurd (same.trans text) (leaf_clash leaf legible (by decide))
  | conjunction connective first second =>
      have text := operation_text (.inr connective) first second other
      exact absurd (same.trans text) (leaf_clash leaf legible (by decide))

theorem negation_tells (inner : left.Tells) : (negation left).Tells := by
  intro right rest other legible restBreaks otherBreaks same
  rw [negation_text] at same
  cases right with
  | integer number => exact absurd same.symm (leaf_clash (.integer number) legible (by decide))
  | field ident => exact absurd same.symm (leaf_clash (.field ident) legible (by decide))
  | negation operand =>
      rw [negation_text, List.cons.injEq] at same
      rcases inner operand rest other legible restBreaks otherBreaks same.2 with ⟨rfl, rests⟩
      exact ⟨rfl, rests⟩
  | relation comparison first second =>
      have marks := same.trans (operation_text (.inl comparison) first second other)
      rw [List.cons.injEq] at marks
      exact absurd marks.1 (by decide)
  | conjunction connective first second =>
      have marks := same.trans (operation_text (.inr connective) first second other)
      rw [List.cons.injEq] at marks
      exact absurd marks.1 (by decide)

/-- Two operations are told apart part by part. -/
theorem operation_append_inj {operator mark : Operator} (leftTells : left.Tells)
    (rightTells : right.Tells) (legible : (operation mark first second).Legible)
    (same : (operation operator left right).text.toList ++ rest =
      (operation mark first second).text.toList ++ other) :
    operation operator left right = operation mark first second ∧ rest = other := by
  rw [operation_legible] at legible
  rw [operation_text, operation_text, List.cons.injEq] at same
  rcases leftTells first _ _ legible.1 (breaks_cons (by decide)) (breaks_cons (by decide))
    same.2 with ⟨rfl, afterLeft⟩
  rw [List.cons.injEq] at afterLeft
  rcases run_append_inj (operator_solid operator) (operator_solid mark) (breaks_cons (by decide))
    (breaks_cons (by decide)) afterLeft.2 with ⟨symbols, afterSymbol⟩
  rw [List.cons.injEq] at afterSymbol
  rcases rightTells second _ _ legible.2 (breaks_cons (by decide)) (breaks_cons (by decide))
    afterSymbol.2 with ⟨rfl, afterRight⟩
  rw [List.cons.injEq] at afterRight
  rw [operator_symbol_injective (String.toList_inj.mp symbols)]
  exact ⟨rfl, afterRight.2⟩

theorem operation_tells (operator : Operator) (leftTells : left.Tells)
    (rightTells : right.Tells) : (operation operator left right).Tells := by
  intro whole rest other legible restBreaks otherBreaks same
  have text := operation_text operator left right rest
  cases whole with
  | integer number =>
      exact absurd (same.symm.trans text) (leaf_clash (.integer number) legible (by decide))
  | field ident =>
      exact absurd (same.symm.trans text) (leaf_clash (.field ident) legible (by decide))
  | negation operand =>
      have marks := text.symm.trans (same.trans (negation_text operand other))
      rw [List.cons.injEq] at marks
      exact absurd marks.1 (by decide)
  | relation comparison first second =>
      have split : _ = operation (.inl comparison) first second ∧ rest = other :=
        operation_append_inj leftTells rightTells legible same
      exact split
  | conjunction connective first second =>
      have split : _ = operation (.inr connective) first second ∧ rest = other :=
        operation_append_inj leftTells rightTells legible same
      exact split

theorem tells (left : Formula) (legible : left.Legible) : left.Tells := by
  induction left with
  | integer number => exact leaf_tells (.integer number) legible
  | field ident => exact leaf_tells (.field ident) legible
  | negation operand inner => exact negation_tells (inner legible)
  | relation comparison first second firstTells secondTells =>
      exact operation_tells (.inl comparison) (firstTells legible.1) (secondTells legible.2)
  | conjunction connective first second firstTells secondTells =>
      exact operation_tells (.inr connective) (firstTells legible.1) (secondTells legible.2)

end Formula

end PacketSchema
