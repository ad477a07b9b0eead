import Mathlib.Data.List.TakeWhile
import PacketSchema.Grammar.Word

/-!
# Runs of characters

A run of characters of a class ends where the text after it breaks the class, which makes the
longest run at the front of a text the only one that is followed by such a break.
-/

namespace PacketSchema

open Grammar (isWordCharacter isWordStart isHexDigit)

def Breaks (accepts : Char → Bool) (text : List Char) : Prop :=
  ∀ character ∈ text.head?, accepts character = false

theorem breaks_nil (accepts : Char → Bool) : Breaks accepts [] := by
  intro character member
  cases member

theorem breaks_cons {accepts : Char → Bool} {character : Char} {text : List Char}
    (outside : accepts character = false) : Breaks accepts (character :: text) := by
  intro first member
  cases member
  exact outside

section Runs

variable {accepts : Char → Bool} {left right rest other : List Char}

theorem take_while_run (run : ∀ character ∈ left, accepts character = true)
    (breaks : Breaks accepts rest) : (left ++ rest).takeWhile accepts = left := by
  rw [List.takeWhile_append_of_pos run]
  cases rest with
  | nil => rw [List.takeWhile_nil, List.append_nil]
  | cons first others =>
      have outside : ¬accepts first = true := by
        rw [breaks first rfl]
        exact Bool.false_ne_true
      rw [List.takeWhile_cons_of_neg outside, List.append_nil]

/-- Where a run of characters ends, its text is split in one way. -/
theorem run_append_inj (leftRun : ∀ character ∈ left, accepts character = true)
    (rightRun : ∀ character ∈ right, accepts character = true) (restBreaks : Breaks accepts rest)
    (otherBreaks : Breaks accepts other) (same : left ++ rest = right ++ other) :
    left = right ∧ rest = other := by
  have runs : left = right := by
    rw [← take_while_run leftRun restBreaks, same, take_while_run rightRun otherBreaks]
  subst runs
  exact ⟨rfl, List.append_cancel_left same⟩

end Runs

theorem word_character_of_digit {character : Char} (digit : character.isDigit = true) :
    isWordCharacter character = true := by
  rw [isWordCharacter, Char.isAlphanum, digit, Bool.or_true, Bool.true_or]

theorem word_character_of_letter {character : Char} (letter : character.isAlpha = true) :
    isWordCharacter character = true := by
  rw [isWordCharacter, Char.isAlphanum, letter, Bool.true_or, Bool.true_or]

theorem word_character_of_hex_digit {character : Char} (digit : isHexDigit character = true) :
    isWordCharacter character = true := by
  rw [isHexDigit, Bool.or_eq_true, Bool.or_eq_true, Bool.and_eq_true, Bool.and_eq_true] at digit
  rcases digit with (decimal | ⟨above, below⟩) | ⟨above, below⟩
  · exact word_character_of_digit decimal
  all_goals
    apply word_character_of_letter
    rw [decide_eq_true_eq, Char.le_def, UInt32.le_iff_toNat_le] at above below
    change (character.isUpper || character.isLower) = true
    rw [Bool.or_eq_true]
  · right
    change (decide ('a'.val ≤ character.val) && decide (character.val ≤ 'z'.val)) = true
    rw [Bool.and_eq_true, decide_eq_true_eq, decide_eq_true_eq]
    exact ⟨above, below.trans (by decide)⟩
  · left
    change decide ('A'.val ≤ character.val ∧ character.val ≤ 'Z'.val) = true
    rw [decide_eq_true_eq]
    exact ⟨above, below.trans (by decide)⟩

/-- Letters have larger codes than digits, and so has the underscore. -/
theorem not_start_of_digit {character : Char} (digit : character.isDigit = true) :
    isWordStart character = false := by
  have below : character.toNat ≤ 57 := (Char.isDigit_iff_toNat.mp digit).2
  rw [Bool.eq_false_iff]
  intro starts
  rw [isWordStart, Bool.or_eq_true] at starts
  rcases starts with letter | underscore
  · have cased : (character.isUpper || character.isLower) = true := letter
    rcases Bool.or_eq_true_iff.mp cased with upper | lower
    · have bounds : 'A'.val ≤ character.val ∧ character.val ≤ 'Z'.val := of_decide_eq_true upper
      have above : 65 ≤ character.toNat := bounds.1
      omega
    · have bounds : (decide ('a'.val ≤ character.val) && decide (character.val ≤ 'z'.val)) = true :=
        lower
      have above : 97 ≤ character.toNat := of_decide_eq_true (Bool.and_eq_true_iff.mp bounds).1
      omega
  · rw [eq_of_beq underscore] at below
    exact absurd below (by decide)

/-- Of the characters of words only the digits do not begin an identifier. -/
theorem start_of_word_character {character : Char} (within : isWordCharacter character = true)
    (other : character.isDigit = false) : isWordStart character = true := by
  rw [isWordCharacter, Char.isAlphanum, other, Bool.or_false] at within
  exact within

theorem Breaks.weaken {accepts wider : Char → Bool} {text : List Char}
    (breaks : Breaks wider text)
    (within : ∀ character, accepts character = true → wider character = true) :
    Breaks accepts text := by
  intro character member
  rw [Bool.eq_false_iff]
  intro accepted
  have outside := breaks character member
  rw [within character accepted] at outside
  cases outside

end PacketSchema
