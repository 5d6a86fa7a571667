import Phrasebook.Text.Basic

/-!
# Line ends

Files come with line feeds, carriage returns or both at the ends of their lines. Reading a file
makes a line feed of each; a comparison line by line knows more separators and keeps them.
-/

namespace Phrasebook.Text

/-- Makes every carriage return, with a line feed behind it or not, a line feed. -/
def foldNewlines : Text → Text
  | [] => []
  | '\r' :: '\n' :: rest => '\n' :: foldNewlines rest
  | '\r' :: rest => '\n' :: foldNewlines rest
  | c :: rest => c :: foldNewlines rest

/-- The characters that end a line. -/
def isLineEnd (c : Char) : Bool :=
  let n := c.toNat
  (0x0A ≤ n && n ≤ 0x0D) || (0x1C ≤ n && n ≤ 0x1E) || n == 0x85 || n == 0x2028 || n == 0x2029

/-- Puts a character in front of the first line. -/
def consLine (c : Char) : List Text → List Text
  | [] => [[c]]
  | l :: ls => (c :: l) :: ls

/-- The lines of a text, each with its line end; a carriage return and a line feed are one end. -/
def linesWithEnds : Text → List Text
  | [] => []
  | '\r' :: '\n' :: rest => ['\r', '\n'] :: linesWithEnds rest
  | c :: rest => if isLineEnd c then [c] :: linesWithEnds rest else consLine c (linesWithEnds rest)

end Phrasebook.Text
