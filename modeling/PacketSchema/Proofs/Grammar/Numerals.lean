import PacketSchema.Proofs.Formula
import PacketSchema.Proofs.Grammar.Lexeme

/-!
# Numbers of numerals

Every numeral of the grammar stands for a number: its characters are digits of its base, there is
one at least, and no white space or sign is to be dropped. The decimal text of a number is a
numeral and stands for that number. How large a numeral may be is no matter of its shape.
-/

namespace PacketSchema

namespace Numeral

variable {text : List Char}

theorem unsigned_of_no_sign (no_sign : '+' ∉ text) : unsigned text = text := by
  unfold unsigned
  split
  · exact absurd List.mem_cons_self no_sign
  · rfl

/-- A text of digits stands for what its digits make up. -/
theorem magnitude_of_digits {base : Nat} {digitValue? : Char → Option Nat} {digits : List Nat}
    (nonempty : text ≠ []) (no_sign : '+' ∉ text) (known : digits? digitValue? text = some digits) :
    magnitude? base digitValue? text = some (positional base digits) := by
  rw [magnitude?, unsigned_of_no_sign no_sign]
  cases text with
  | nil => exact absurd rfl nonempty
  | cons first rest =>
      dsimp only
      rw [known, Option.map_some]

theorem decimal_digits (digits : ∀ character ∈ text, character.isDigit = true) :
    digits? decimalDigitValue? text =
      some (text.map fun character => character.toNat - '0'.toNat) := by
  induction text with
  | nil => rfl
  | cons first rest later =>
      rw [List.forall_mem_cons] at digits
      have known : decimalDigitValue? first = some (first.toNat - '0'.toNat) := if_pos digits.1
      have others := later digits.2
      rw [digits?] at others ⊢
      rw [List.mapM_cons, known, others]
      rfl

theorem no_hex_mark (digits : ∀ character ∈ text, character.isDigit = true) :
    afterHexMark? text = none := by
  unfold afterHexMark?
  split
  · exact absurd (digits 'x' (by simp)) (by decide)
  · exact absurd (digits 'X' (by simp)) (by decide)
  · rfl

/-- A text of digits stands for the number that its digits make up in base ten. -/
theorem decimal_natural (nonempty : text ≠ [])
    (digits : ∀ character ∈ text, character.isDigit = true) :
    natural? text = some (Nat.ofDigitChars 10 text 0) := by
  have no_sign : '+' ∉ text := fun member => absurd (digits '+' member) (by decide)
  rw [natural?, no_hex_mark digits]
  dsimp only
  rw [magnitude_of_digits nonempty no_sign (decimal_digits digits), positional, List.foldl_map,
    Nat.ofDigitChars_eq_foldl]

/-- The place of a digit in the row of all digits. -/
def worth (digit : Char) : Nat := "0123456789abcdef".toList.idxOf digit.toLower

/-- All digits are among the first 128 characters, so they can be gone through. -/
theorem hex_digit_worth {character : Char} (digital : Grammar.isHexDigit character = true) :
    hexDigitValue? character = some (worth character) := by
  have all : ∀ code < 128, Grammar.isHexDigit (Char.ofNat code) = true →
      hexDigitValue? (Char.ofNat code) = some (worth (Char.ofNat code)) := by
    decide +kernel
  have small : character.toNat < 128 := by
    rw [Grammar.isHexDigit, Char.isDigit] at digital
    simp only [Bool.or_eq_true, Bool.and_eq_true, decide_eq_true_eq] at digital
    rcases digital with (⟨-, upper⟩ | ⟨-, upper⟩) | ⟨-, upper⟩
    · exact Nat.lt_of_le_of_lt upper (by decide)
    · exact Nat.lt_of_le_of_lt upper (by decide)
    · exact Nat.lt_of_le_of_lt upper (by decide)
  have known := all character.toNat small
  rw [Char.ofNat_toNat] at known
  exact known digital

theorem digits_worth {digitValue? : Char → Option Nat}
    (known : ∀ character ∈ text, digitValue? character = some (worth character)) :
    digits? digitValue? text = some (text.map worth) := by
  induction text with
  | nil => rfl
  | cons first rest later =>
      rw [List.forall_mem_cons] at known
      have others := later known.2
      rw [digits?] at others ⊢
      rw [List.mapM_cons, known.1, others]
      rfl

end Numeral

open Grammar (IsNumeral)

/-- Words have no white space, whichever characters are called so. -/
theorem white_space_of_word_character {character : Char}
    (within : Grammar.isWordCharacter character = true) : isWhiteSpace character = false := by
  have bounds : 48 ≤ character.toNat ∧ character.toNat ≤ 122 := by
    rw [Grammar.isWordCharacter, Char.isAlphanum, Bool.or_eq_true, Bool.or_eq_true] at within
    rcases within with (letter | digit) | underscore
    · change (character.isUpper || character.isLower) = true at letter
      rw [Bool.or_eq_true] at letter
      rcases letter with upper | lower
      · change decide ('A'.val ≤ character.val ∧ character.val ≤ 'Z'.val) = true at upper
        rw [decide_eq_true_eq] at upper
        exact ⟨Nat.le_trans (by decide) upper.1, Nat.le_trans upper.2 (by decide)⟩
      · change (decide ('a'.val ≤ character.val) &&
          decide (character.val ≤ 'z'.val)) = true at lower
        rw [Bool.and_eq_true, decide_eq_true_eq, decide_eq_true_eq] at lower
        exact ⟨Nat.le_trans (by decide) lower.1, Nat.le_trans lower.2 (by decide)⟩
    · rw [Char.isDigit, Bool.and_eq_true, decide_eq_true_eq, decide_eq_true_eq] at digit
      exact ⟨digit.1, Nat.le_trans digit.2 (by decide)⟩
    · rw [beq_iff_eq] at underscore
      subst underscore
      decide
  simp only [isWhiteSpace, Bool.or_eq_false_iff, Bool.and_eq_false_iff, decide_eq_false_iff_not,
    beq_eq_false_iff_ne]
  omega

theorem Grammar.IsNumeral.trimmed {numeral : String} (shaped : IsNumeral numeral) :
    trimWhiteSpace numeral.toList = numeral.toList :=
  trimWhiteSpace_of_solid fun character member =>
    white_space_of_word_character (shaped.within character member)

theorem Grammar.IsNumeral.number {numeral : String} (shaped : IsNumeral numeral) :
    ∃ number, Numeral.natural? numeral.toList = some number := by
  cases shaped with
  | decimal nonempty digits => exact ⟨_, Numeral.decimal_natural nonempty digits⟩
  | hexadecimal sign digits signed nonempty digital written =>
      have no_sign : '+' ∉ digits := fun member => absurd (digital '+' member) (by decide)
      have known := Numeral.digits_worth fun character member =>
        Numeral.hex_digit_worth (digital character member)
      have marked : Numeral.afterHexMark? numeral.toList = some digits := by
        rw [written]
        rcases signed with rfl | rfl <;> rfl
      refine ⟨Numeral.positional 16 (digits.map Numeral.worth), ?_⟩
      rw [Numeral.natural?, marked]
      exact Numeral.magnitude_of_digits nonempty no_sign known

theorem digits_of_text {number : Nat} {character : Char}
    (member : character ∈ (toString number).toList) : character.isDigit = true := by
  rw [Nat.toString_eq_ofList_toDigits, String.toList_ofList] at member
  exact Nat.isDigit_of_mem_toDigits (by decide) (by decide) member

theorem numeral_of_text (number : Nat) : IsNumeral (toString number) := by
  refine .decimal ?_ fun _ => digits_of_text
  rw [Nat.toString_eq_ofList_toDigits, String.toList_ofList]
  exact Nat.toDigits_ne_nil

theorem text_of_natural {number : Int} (natural : 0 ≤ number) :
    toString number = toString number.toNat := by
  rw [Int.toString_eq_repr, Int.repr_eq_if, if_pos natural]
  rfl

/-- The decimal text of a number stands for the number. -/
theorem number_of_text (location : Location) (number : Nat) :
    Tree.number? ⟨location, toString number⟩ = some number := by
  have shaped := numeral_of_text number
  rw [Tree.number?, shaped.trimmed,
    Numeral.decimal_natural shaped.nonempty fun _ => digits_of_text,
    Nat.toString_eq_ofList_toDigits, String.toList_ofList, Nat.ofDigitChars_ten_toDigits]

end PacketSchema
