import PacketSchema.Text.Blank

/-!
Integers as texts. A numeral is decimal, or hexadecimal after `0x` or `0X`, and stands for a
number below 2^64. White space around it is allowed, and one plus sign in front of its digits;
the grammar of schemas admits neither, so both show only when a text is read on its own.
-/

namespace PacketSchema

/-- How many of the signed numbers of 64 bits are not negative. -/
def signedSize : Nat := UInt64.size / 2

namespace Numeral

def hexDigitValue? (character : Char) : Option Nat :=
  if character.isDigit then some (character.toNat - '0'.toNat)
  else if 'a' ≤ character ∧ character ≤ 'f' then some (character.toNat - 'a'.toNat + 10)
  else if 'A' ≤ character ∧ character ≤ 'F' then some (character.toNat - 'A'.toNat + 10)
  else none

def decimalDigitValue? (character : Char) : Option Nat :=
  if character.isDigit then some (character.toNat - '0'.toNat) else none

def digits? (digitValue? : Char → Option Nat) (text : List Char) : Option (List Nat) :=
  text.mapM digitValue?

/-- The number with the given digits, most significant first. -/
def positional (base : Nat) (digits : List Nat) : Nat :=
  digits.foldl (fun value digit => base * value + digit) 0

def unsigned : List Char → List Char
  | '+' :: text => text
  | text => text

def magnitude? (base : Nat) (digitValue? : Char → Option Nat) (text : List Char) : Option Nat :=
  match unsigned text with
  | [] => none
  | first :: rest => (digits? digitValue? (first :: rest)).map (positional base)

def afterHexMark? : List Char → Option (List Char)
  | '0' :: 'x' :: text => some text
  | '0' :: 'X' :: text => some text
  | _ => none

/-- The number that a numeral stands for, of any size. -/
def natural? (text : List Char) : Option Nat :=
  match afterHexMark? text with
  | some digits => magnitude? 16 hexDigitValue? digits
  | none => magnitude? 10 decimalDigitValue? text

/-- The number that a text stands for: white space around the numeral does not count, and a
number of 2^64 or more has no value. -/
def value? (text : String) : Option UInt64 :=
  match natural? (trimWhiteSpace text.toList) with
  | none => none
  | some number => if number < UInt64.size then some (UInt64.ofNat number) else none

end Numeral

end PacketSchema
