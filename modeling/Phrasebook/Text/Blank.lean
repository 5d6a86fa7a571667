import Phrasebook.Text.Basic

/-!
# White space

Three classes of white space occur: the wide one, with all the space separators of Unicode and the
separators among the control characters, the one that may stand around a number, which leaves out
four of the latter, and the narrow one of six ASCII characters that script syntax knows.
-/

namespace Phrasebook

/-- The wide class of white space: the Unicode white space characters and the four information
separators U+001C to U+001F. -/
def isBlank (c : Char) : Bool :=
  let n := c.toNat
  (0x09 ≤ n && n ≤ 0x0D) || (0x1C ≤ n && n ≤ 0x20) || n == 0x85 || n == 0xA0 || n == 0x1680 ||
    (0x2000 ≤ n && n ≤ 0x200A) || n == 0x2028 || n == 0x2029 || n == 0x202F || n == 0x205F ||
    n == 0x3000

/-- Whether a character is one of the four information separators U+001C to U+001F. -/
def isSeparator (c : Char) : Bool :=
  0x1C ≤ c.toNat && c.toNat ≤ 0x1F

/-- The class of white space around numbers: the Unicode white space characters only. -/
def isNumberBlank (c : Char) : Bool :=
  isBlank c && !isSeparator c

/-- The narrow class of white space: space, tab, line feed, carriage return, form feed and
vertical tab. -/
def isAsciiBlank (c : Char) : Bool :=
  let n := c.toNat
  (0x09 ≤ n && n ≤ 0x0D) || n == 0x20

namespace Text

/-- The text without white space at its ends. -/
def strip (t : Text) : Text :=
  trim isBlank t

/-- Whether a text holds nothing but white space. -/
def isBlankText (t : Text) : Bool :=
  t.all isBlank

/-- The text with every run of white space made one space and none left at the ends. -/
def collapse (t : Text) : Text :=
  [' '].intercalate (wordsBy isBlank t)

end Text

end Phrasebook
