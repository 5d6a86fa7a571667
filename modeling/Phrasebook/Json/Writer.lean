import Phrasebook.Json.Basic
import Phrasebook.Text.Hex

/-!
# Writing JSON

Two layouts: all on one line, and one member or item a line with two spaces of indentation a level. Characters beyond ASCII are written as themselves.
-/

namespace Phrasebook.Json

/-- How a character is written inside a string. -/
def escapeChar (c : Char) : Text :=
  if c = '"' then ['\\', '"']
  else if c = '\\' then ['\\', '\\']
  else if c = '\n' then ['\\', 'n']
  else if c = '\r' then ['\\', 'r']
  else if c = '\t' then ['\\', 't']
  else if c = '\x08' then ['\\', 'b']
  else if c = '\x0c' then ['\\', 'f']
  else if c.toNat < 0x20 then
    '\\' :: 'u' :: Text.hex 4 c.toNat
  else [c]

/-- A string with its quotes. -/
def quoted (t : Text) : Text :=
  '"' :: t.flatMap escapeChar ++ ['"']

/-- What stands between the parts of a value on one line. -/
structure Separators where
  /-- Between two items or members. -/
  comma : Text
  /-- Between the name and the value of a member. -/
  colon : Text

/-- A space behind each comma and colon. -/
def Separators.spaced : Separators := ⟨", ".toList, ": ".toList⟩

/-- No space at all. -/
def Separators.dense : Separators := ⟨",".toList, ":".toList⟩

mutual

/-- A value on one line. -/
def line (s : Separators) : Json → Text
  | null => "null".toList
  | bool true => "true".toList
  | bool false => "false".toList
  | int i => Text.ofInt i
  | decimal t => t
  | str t => quoted t
  | arr [] => "[]".toList
  | arr (v :: vs) => '[' :: line s v ++ lineItems s vs ++ [']']
  | obj [] => ['\x7b', '\x7d']
  | obj ((k, v) :: ms) =>
    '\x7b' :: quoted k ++ s.colon ++ line s v ++ lineMembers s ms ++ ['\x7d']

/-- Further items, each behind a comma. -/
def lineItems (s : Separators) : List Json → Text
  | [] => []
  | v :: vs => s.comma ++ line s v ++ lineItems s vs

/-- Further members, each behind a comma. -/
def lineMembers (s : Separators) : List (Text × Json) → Text
  | [] => []
  | (k, v) :: ms => s.comma ++ quoted k ++ s.colon ++ line s v ++ lineMembers s ms

end

/-- A line feed and the indentation of a nesting level. -/
def newline (level : Nat) : Text :=
  '\n' :: List.replicate (2 * level) ' '

mutual

/-- A value laid out over lines, where `level` lists enclose it. -/
def pretty (level : Nat) : Json → Text
  | arr [] => "[]".toList
  | arr (v :: vs) =>
    '[' :: newline (level + 1) ++ pretty (level + 1) v ++ prettyItems (level + 1) vs ++
      newline level ++ [']']
  | obj [] => ['\x7b', '\x7d']
  | obj ((k, v) :: ms) =>
    '\x7b' :: newline (level + 1) ++ quoted k ++ ": ".toList ++ pretty (level + 1) v ++
      prettyMembers (level + 1) ms ++ newline level ++ ['\x7d']
  | v => line .spaced v

/-- Further items, each on a line of its own. -/
def prettyItems (level : Nat) : List Json → Text
  | [] => []
  | v :: vs => ',' :: newline level ++ pretty level v ++ prettyItems level vs

/-- Further members, each on a line of its own. -/
def prettyMembers (level : Nat) : List (Text × Json) → Text
  | [] => []
  | (k, v) :: ms =>
    ',' :: newline level ++ quoted k ++ ": ".toList ++ pretty level v ++ prettyMembers level ms

end

end Phrasebook.Json
