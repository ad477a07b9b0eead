import Mathlib.Data.Nat.Digits.Lemmas
import PacketSchema.Proofs.Grammar.Bare
import PacketSchema.Proofs.Grammar.Numerals

/-!
# What an integer counts

A digit counts by its place in the row of all digits, and digits in a row count with the powers of
the base. What the grammar reads as an integer stands for the number counted that way, whatever its
length: leading zeros count nothing, both cases of a digit count the same, and only a mark in front
makes the base sixteen.
-/

namespace PacketSchema

namespace Numeral

/-- What digits count, the last one with the zeroth power of the base. -/
def counted (base : Nat) (digits : List Char) : Nat :=
  Nat.ofDigits base (digits.reverse.map worth)

/-- What an integer counts, in base sixteen behind a mark and in base ten without one. -/
def meaning (text : String) : Nat :=
  match text.toList with
  | '0' :: 'x' :: digits => counted 16 digits
  | '0' :: 'X' :: digits => counted 16 digits
  | digits => counted 10 digits

theorem positional_eq_of_digits (base : Nat) (digits : List Nat) :
    positional base digits = Nat.ofDigits base digits.reverse := by
  rw [positional, Nat.ofDigits_eq_foldr, List.foldr_reverse]
  congr 1
  funext value digit
  rw [Nat.cast_id, Nat.add_comm]

section Digits

variable {text : List Char}

theorem decimal_digit_worth {character : Char} (digit : character.isDigit = true) :
    decimalDigitValue? character = some (worth character) := by
  have digital : Grammar.isHexDigit character = true := by
    rw [Grammar.isHexDigit, digit, Bool.true_or, Bool.true_or]
  rw [← hex_digit_worth digital, decimalDigitValue?, hexDigitValue?, if_pos digit, if_pos digit]

theorem magnitude_counted (base : Nat) {digitValue? : Char → Option Nat} (nonempty : text ≠ [])
    (no_sign : '+' ∉ text)
    (known : ∀ character ∈ text, digitValue? character = some (worth character)) :
    magnitude? base digitValue? text = some (counted base text) := by
  rw [magnitude_of_digits nonempty no_sign (digits_worth known), positional_eq_of_digits, counted,
    List.map_reverse]

end Digits

end Numeral

namespace Grammar

open Numeral (meaning counted)

/-- A text that the rule for integers reads to its end. -/
def IsInteger (text : String) : Prop :=
  ∃ read after, Parser.bareInteger.run (Cursor.ofText text.toList) = some (read, after) ∧
    after.rest = []

theorem IsInteger.shaped {text : String} (whole : IsInteger text) : IsNumeral text := by
  obtain ⟨read, after, accepted, ended⟩ := whole
  obtain ⟨shaped, passes, -⟩ := Parser.bare_integer_shaped accepted
  have same : text.toList = read.toList ++ after.rest := passes.rest
  rw [ended, List.append_nil] at same
  rwa [String.toList_inj.mp same]

theorem IsNumeral.whole {text : String} (shaped : IsNumeral text) : IsInteger text := by
  have passes : (Cursor.ofText text.toList).Passes text.toList
      ((Cursor.ofText text.toList).past text.toList []) :=
    Cursor.Passes.past (List.append_nil _).symm
  have ends : Breaks isWordCharacter ((Cursor.ofText text.toList).past text.toList []).rest := by
    intro character next
    cases next
  exact ⟨text, _, Parser.bare_integer_of_shaped shaped passes ends, rfl⟩

/-- A text of decimal digits has no mark. -/
theorem meaning_of_decimal {text : String}
    (digits : ∀ character ∈ text.toList, character.isDigit = true) :
    meaning text = counted 10 text.toList := by
  rw [meaning]
  split
  next written =>
    rw [written] at digits
    exact absurd (digits 'x' (by simp)) (by decide)
  next written =>
    rw [written] at digits
    exact absurd (digits 'X' (by simp)) (by decide)
  next => rfl

theorem IsNumeral.means {text : String} (shaped : IsNumeral text) :
    Numeral.natural? text.toList = some (meaning text) := by
  cases shaped with
  | decimal nonempty digits =>
      have no_sign : '+' ∉ text.toList := fun member => absurd (digits '+' member) (by decide)
      have known := Numeral.magnitude_counted 10 nonempty no_sign
        fun character member => Numeral.decimal_digit_worth (digits character member)
      rw [Numeral.natural?, Numeral.no_hex_mark digits, meaning_of_decimal digits]
      exact known
  | hexadecimal sign digits signed nonempty digital written =>
      have no_sign : '+' ∉ digits := fun member => absurd (digital '+' member) (by decide)
      have known := Numeral.magnitude_counted 16 nonempty no_sign
        fun character member => Numeral.hex_digit_worth (digital character member)
      rw [Numeral.natural?, meaning, written]
      rcases signed with rfl | rfl
      · exact known
      · exact known

/-- An integer has a value where it counts less than 2^64, and then it has what it counts. -/
theorem IsNumeral.value {text : String} (shaped : IsNumeral text) :
    Numeral.value? text =
      if meaning text < UInt64.size then some (UInt64.ofNat (meaning text)) else none := by
  rw [Numeral.value?, shaped.trimmed, shaped.means]

end Grammar

end PacketSchema
