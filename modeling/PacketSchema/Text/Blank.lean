/-!
White space of the Unicode character database: the characters with the property `White_Space`.
Numbers written in a schema never carry any, because its grammar knows four blanks only; a
number that is handed over as a text of its own may.
-/

namespace PacketSchema

/-- The property `White_Space`: twenty-five code points in ten ranges. -/
def isWhiteSpace (character : Char) : Bool :=
  let code := character.toNat
  (0x9 ≤ code && code ≤ 0xD) || code == 0x20 || code == 0x85 || code == 0xA0 || code == 0x1680 ||
    (0x2000 ≤ code && code ≤ 0x200A) || code == 0x2028 || code == 0x2029 || code == 0x202F ||
    code == 0x205F || code == 0x3000

def trimWhiteSpace (text : List Char) : List Char :=
  ((text.dropWhile isWhiteSpace).reverse.dropWhile isWhiteSpace).reverse

/-- Every character that core calls white space has the property. -/
theorem isWhiteSpace_of_isWhitespace {character : Char} (blank : character.isWhitespace = true) :
    isWhiteSpace character = true := by
  simp only [Char.isWhitespace, Bool.or_eq_true, decide_eq_true_eq] at blank
  rcases blank with ((rfl | rfl) | rfl) | rfl <;> decide

/-- A text whose ends are not blank is left as it is. -/
theorem trimWhiteSpace_of_solid {text : List Char}
    (solid : ∀ character ∈ text, isWhiteSpace character = false) : trimWhiteSpace text = text := by
  have keep : ∀ word : List Char, (∀ character ∈ word, isWhiteSpace character = false) →
      word.dropWhile isWhiteSpace = word := by
    intro word solidWord
    cases word with
    | nil => rfl
    | cons head tail => simp [solidWord head (by simp)]
  rw [trimWhiteSpace, keep text solid, keep text.reverse (by simpa using solid),
    List.reverse_reverse]

end PacketSchema
