import Phrasebook.Text.Hex
import Phrasebook.Text.Printable

/-!
# Quoted texts in messages

Messages show a text in quotes, with escapes for the characters that could not be read. Single
quotes are used unless the text holds one and no double quote.
-/

namespace Phrasebook.Text

/-- The quote around a text in a message. -/
def displayQuote (t : Text) : Char :=
  if t.contains '\'' && !t.contains '"' then '"' else '\''

/-- How a character shows between quotes `q`. -/
def displayChar (q c : Char) : Text :=
  if c = q || c = '\\' then ['\\', c]
  else if c = '\n' then ['\\', 'n']
  else if c = '\r' then ['\\', 'r']
  else if c = '\t' then ['\\', 't']
  else if isPrintable c then [c]
  else if c.toNat < 0x100 then '\\' :: 'x' :: hex 2 c.toNat
  else if c.toNat < 0x10000 then '\\' :: 'u' :: hex 4 c.toNat
  else '\\' :: 'U' :: hex 8 c.toNat

/-- A text as a message shows it. -/
def displayed (t : Text) : Text :=
  let q := displayQuote t
  q :: t.flatMap (displayChar q) ++ [q]

end Phrasebook.Text
