import Phrasebook.Text.Blank

/-!
# Decimal digits

The decimal digits of Unicode 14 come in runs of ten, from zero to nine. A number is read from
digits of any of them.
-/

namespace Phrasebook

/-- The code points of the digits zero, in ascending order. -/
def zeroDigits : List Nat :=
  [0x30, 0x660, 0x6F0, 0x7C0, 0x966, 0x9E6, 0xA66, 0xAE6, 0xB66, 0xBE6, 0xC66, 0xCE6, 0xD66, 0xDE6,
    0xE50, 0xED0, 0xF20, 0x1040, 0x1090, 0x17E0, 0x1810, 0x1946, 0x19D0, 0x1A80, 0x1A90, 0x1B50,
    0x1BB0, 0x1C40, 0x1C50, 0xA620, 0xA8D0, 0xA900, 0xA9D0, 0xA9F0, 0xAA50, 0xABF0, 0xFF10, 0x104A0,
    0x10D30, 0x11066, 0x110F0, 0x11136, 0x111D0, 0x112F0, 0x11450, 0x114D0, 0x11650, 0x116C0,
    0x11730, 0x118E0, 0x11950, 0x11C50, 0x11D50, 0x11DA0, 0x16A60, 0x16AC0, 0x16B50, 0x1D7CE,
    0x1D7D8, 0x1D7E2, 0x1D7EC, 0x1D7F6, 0x1E140, 0x1E2F0, 0x1E950, 0x1FBF0]

/-- The value of a decimal digit. -/
def digitValue? (c : Char) : Option Nat :=
  (zeroDigits.find? fun z => z ≤ c.toNat && c.toNat < z + 10).map (c.toNat - ·)

/-- Whether a character is a decimal digit. -/
def isDecimalDigit (c : Char) : Bool :=
  (digitValue? c).isSome

namespace Text

/-- Whether a text is made of digits only and has at least one. -/
def isDigits (t : Text) : Bool :=
  !t.isEmpty && t.all isDecimalDigit

/-- The most digits that a number may have. -/
def digitLimit : Nat := 4300

/-- Reads a natural number; single underscores may stand between its digits. -/
def nat? (t : Text) : Option Nat :=
  let groups := t.splitOn '_'
  if groups.all isDigits && groups.flatten.length ≤ digitLimit then
    some (groups.flatten.foldl (fun n c => 10 * n + (digitValue? c).getD 0) 0)
  else none

/-- Reads an integer, with or without a sign, in white space that may stand around a number. -/
def int? (t : Text) : Option Int :=
  match trim isNumberBlank t with
  | '-' :: r => (nat? r).map fun n => -(n : Int)
  | '+' :: r => (nat? r).map Int.ofNat
  | r => (nat? r).map Int.ofNat

/-- Whether a text is a negative number as it is written in an argument: a minus sign and digits,
perhaps with a point before the last of them, and perhaps a line feed at the end. -/
def isNegativeNumber (t : Text) : Bool :=
  match chopNewline t with
  | '-' :: r =>
    isDigits r ||
      match r.dropWhile isDecimalDigit with
      | '.' :: fraction => isDigits fraction
      | _ => false
  | _ => false

end Text

end Phrasebook
