import PacketSchema.Proofs.Grammar.Regular
import PacketSchema.Proofs.Grammar.Runs

/-!
# Lexemes

The pieces that a schema text is made of, gaps left aside: keywords, identifiers, integers,
references and marks. No gap stands inside a reference, so its ampersand and its identifier are one
piece. A piece is legal when the grammar has a word or a number of that shape, and a legal piece
neither holds a blank nor a slash, by which a gap would begin.
-/

namespace PacketSchema.Grammar

inductive Mark where
  | openBrace
  | closeBrace
  | openGroup
  | closeGroup
  | colon
  | semicolon
  | bar
  | both
  | either
  | negation
  | ignored
  | comparison (comparison : Comparison)
deriving DecidableEq, Repr

def Mark.text : Mark → List Char
  | .openBrace => ['\x7b']
  | .closeBrace => ['\x7d']
  | .openGroup => ['(']
  | .closeGroup => [')']
  | .colon => [':']
  | .semicolon => [';']
  | .bar => ['|']
  | .both => ['&', '&']
  | .either => ['|', '|']
  | .negation => ['!']
  | .ignored => ['_']
  | .comparison written => written.symbol.toList

inductive Lexeme where
  | keyword (keyword : Keyword)
  | mark (mark : Mark)
  | ident (name : String)
  | integer (numeral : String)
  | reference (name : String)
deriving DecidableEq, Repr

theorem Keyword.mem_all (keyword : Keyword) : keyword ∈ Keyword.all := by
  cases keyword <;> decide

structure IsIdentifier (name : String) : Prop where
  word : IsWord name
  free : ∀ keyword : Keyword, keyword.spelling ≠ name

/-- A run of decimal digits, or one of hexadecimal digits after `0x` or `0X`. -/
inductive IsNumeral (numeral : String) : Prop where
  | decimal (nonempty : numeral.toList ≠ [])
      (digits : ∀ character ∈ numeral.toList, character.isDigit = true)
  | hexadecimal (sign : Char) (digits : List Char) (signed : sign = 'x' ∨ sign = 'X')
      (nonempty : digits ≠ []) (digital : ∀ character ∈ digits, isHexDigit character = true)
      (written : numeral.toList = '0' :: sign :: digits)

instance (name : String) : Decidable (IsWord name) :=
  decidable_of_iff (name.toList.head?.any isWordStart = true ∧
    name.toList.all isWordCharacter = true) <| by
    rw [List.all_eq_true, Option.any_eq_true]
    constructor
    · rintro ⟨⟨first, front, start⟩, within⟩
      obtain ⟨others, written⟩ := List.head?_eq_some_iff.mp front
      exact ⟨⟨first, others, written, start⟩, within⟩
    · rintro ⟨⟨first, others, written, start⟩, within⟩
      refine ⟨⟨first, ?_, start⟩, within⟩
      rw [written]
      rfl

instance (name : String) : Decidable (IsIdentifier name) :=
  decidable_of_iff (IsWord name ∧ ∀ keyword ∈ Keyword.all, keyword.spelling ≠ name) <| by
    constructor
    · rintro ⟨word, free⟩
      exact ⟨word, fun keyword => free keyword keyword.mem_all⟩
    · rintro ⟨word, free⟩
      exact ⟨word, fun keyword _ => free keyword⟩

instance (numeral : String) : Decidable (IsNumeral numeral) :=
  decidable_of_iff ((numeral.toList ≠ [] ∧ numeral.toList.all Char.isDigit = true) ∨
    ((numeral.toList.take 2 = ['0', 'x'] ∨ numeral.toList.take 2 = ['0', 'X']) ∧
      numeral.toList.drop 2 ≠ [] ∧ (numeral.toList.drop 2).all isHexDigit = true)) <| by
    rw [List.all_eq_true, List.all_eq_true]
    constructor
    · rintro (⟨nonempty, digits⟩ | ⟨mark, nonempty, digital⟩)
      · exact .decimal nonempty digits
      · have parted := List.take_append_drop 2 numeral.toList
        rcases mark with small | large
        · exact .hexadecimal 'x' _ (.inl rfl) nonempty digital (by rw [← parted, small]; rfl)
        · exact .hexadecimal 'X' _ (.inr rfl) nonempty digital (by rw [← parted, large]; rfl)
    · rintro (⟨nonempty, digits⟩ | ⟨sign, digits, signed, nonempty, digital, written⟩)
      · exact .inl ⟨nonempty, digits⟩
      · rw [written]
        right
        rcases signed with rfl | rfl
        · exact ⟨.inl rfl, nonempty, digital⟩
        · exact ⟨.inr rfl, nonempty, digital⟩

namespace Lexeme

def text : Lexeme → List Char
  | .keyword word => word.letters
  | .mark sign => sign.text
  | .ident name => name.toList
  | .integer numeral => numeral.toList
  | .reference name => '&' :: name.toList

/-- Keywords and marks are as they are; words and numbers have a shape. -/
def Legal : Lexeme → Prop
  | .keyword _ => True
  | .mark _ => True
  | .ident name => IsIdentifier name
  | .integer numeral => IsNumeral numeral
  | .reference name => IsIdentifier name

instance : (lexeme : Lexeme) → Decidable lexeme.Legal
  | .keyword _ => .isTrue trivial
  | .mark _ => .isTrue trivial
  | .ident name => inferInstanceAs (Decidable (IsIdentifier name))
  | .integer numeral => inferInstanceAs (Decidable (IsNumeral numeral))
  | .reference name => inferInstanceAs (Decidable (IsIdentifier name))

/-- Whether the last character would go on with a word that comes next. -/
def closesWord : Lexeme → Bool
  | .mark sign => sign == .ignored
  | _ => true

/-- Whether the first character would go on with a word that came before. -/
def opensWord : Lexeme → Bool
  | .mark sign => sign == .ignored
  | .reference _ => false
  | _ => true

end Lexeme

def opensGap (character : Char) : Bool := isBlank character || character == '/'

theorem solid_of_word_character {character : Char} (within : isWordCharacter character = true) :
    opensGap character = false := by
  rw [Bool.eq_false_iff]
  intro opens
  have layout : (((character = ' ' ∨ character = '\t') ∨ character = '\r') ∨ character = '\n') ∨
      character = '/' := by
    simpa only [opensGap, isBlank, Bool.or_eq_true, beq_iff_eq] using opens
  rcases layout with (((rfl | rfl) | rfl) | rfl) | rfl <;> exact absurd within (by decide)

theorem Keyword.letters_within (keyword : Keyword) :
    ∀ character ∈ keyword.letters, isWordCharacter character = true := by
  rw [← List.all_eq_true]
  cases keyword <;> decide

theorem IsNumeral.within {numeral : String} (shaped : IsNumeral numeral) :
    ∀ character ∈ numeral.toList, isWordCharacter character = true := by
  intro character member
  cases shaped with
  | decimal _ digits => exact word_character_of_digit (digits character member)
  | hexadecimal sign digits signed _ digital written =>
      rw [written, List.mem_cons, List.mem_cons] at member
      rcases member with rfl | rfl | later
      · decide
      · rcases signed with rfl | rfl <;> decide
      · exact word_character_of_hex_digit (digital character later)

theorem IsNumeral.nonempty {numeral : String} (shaped : IsNumeral numeral) :
    numeral.toList ≠ [] := by
  cases shaped with
  | decimal nonempty _ => exact nonempty
  | hexadecimal sign digits _ _ _ written =>
      rw [written]
      exact List.cons_ne_nil '0' (sign :: digits)

theorem IsWord.nonempty {name : String} (word : IsWord name) : name.toList ≠ [] := by
  obtain ⟨first, others, written, -⟩ := word.start
  rw [written]
  exact List.cons_ne_nil first others

theorem Mark.text_solid (mark : Mark) : ∀ character ∈ mark.text, opensGap character = false := by
  have none : mark.text.any opensGap = false := by
    cases mark with
    | comparison written => cases written <;> decide
    | _ => decide
  intro character member
  exact Bool.eq_false_iff.mpr (List.any_eq_false.mp none character member)

/-- Keywords begin with a letter, and no mark does. -/
theorem Mark.head_ne_letters (mark : Mark) (keyword : Keyword) :
    mark.text.head? ≠ keyword.letters.head? := by
  cases mark with
  | comparison written => cases written <;> cases keyword <;> decide
  | _ => cases keyword <;> decide

namespace Lexeme

variable {lexeme : Lexeme}

theorem Legal.solid (legal : lexeme.Legal) :
    ∀ character ∈ lexeme.text, opensGap character = false := by
  intro character member
  cases lexeme with
  | keyword word => exact solid_of_word_character (word.letters_within character member)
  | mark sign => exact sign.text_solid character member
  | ident name => exact solid_of_word_character (legal.word.within character member)
  | integer numeral => exact solid_of_word_character (IsNumeral.within legal character member)
  | reference name =>
      rcases List.mem_cons.mp member with rfl | later
      · decide
      · exact solid_of_word_character (legal.word.within character later)

theorem Legal.nonempty (legal : lexeme.Legal) : lexeme.text ≠ [] := by
  cases lexeme with
  | keyword word => cases word <;> decide
  | mark sign =>
      cases sign with
      | comparison written => cases written <;> decide
      | _ => decide
  | ident name => exact legal.word.nonempty
  | integer numeral => exact IsNumeral.nonempty legal
  | reference name => exact List.cons_ne_nil '&' name.toList

/-- What does not open a word breaks the word before it. -/
theorem breaks_of_not_opens_word (closed : lexeme.opensWord = false) (more : List Char) :
    Breaks isWordCharacter (lexeme.text ++ more) := by
  cases lexeme with
  | mark sign =>
      cases sign with
      | ignored => cases closed
      | comparison written => cases written <;> exact breaks_cons (by decide)
      | _ => exact breaks_cons (by decide)
  | reference name => exact breaks_cons (by decide)
  | _ => cases closed

end Lexeme

end PacketSchema.Grammar
