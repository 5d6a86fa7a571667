import Phrasebook.Text.Basic

/-!
# Hexadecimal digits
-/

namespace Phrasebook.Text

/-- The digit that writes a number below sixteen. -/
def hexChar (n : Nat) : Char :=
  "0123456789abcdef".toList.getD n '0'

/-- The last `width` hexadecimal digits of a number, the most significant first. -/
def hex : Nat → Nat → Text
  | 0, _ => []
  | width + 1, n => hex width (n / 16) ++ [hexChar (n % 16)]

end Phrasebook.Text
