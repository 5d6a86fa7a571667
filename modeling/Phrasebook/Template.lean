import Phrasebook.Literal
import Phrasebook.Registry

/-!
# Template literals

A template such as `共${count}条` becomes a key with lettered placeholders and the expressions that
fill them. Markers are balanced in braces and take the letters in order; a marker whose expression
came before shows the earlier letter in the key. There are 26 letters.
-/

namespace Phrasebook

/-- A marker of a template: a dollar sign and an expression in braces. -/
structure Marker where
  /-- Offset of the dollar sign. -/
  start : Nat
  /-- Offset just past the closing brace. -/
  stop : Nat
  /-- The text between the braces. -/
  expression : Text
  deriving Repr, DecidableEq

namespace Template

/-- The text up to the brace that closes the one before it, where `depth` further braces are open. -/
def balanced? : Nat → Text → Option Text
  | _, [] => none
  | depth, c :: cs =>
    if c = '\x7b' then (balanced? (depth + 1) cs).map (c :: ·)
    else if c = '\x7d' then
      match depth with
      | 0 => some []
      | depth + 1 => (balanced? depth cs).map (c :: ·)
    else (balanced? depth cs).map (c :: ·)

/-- The two characters that open a marker. -/
def opener : Text := ['$', '\x7b']

/-- The markers from offset `pos` on, first passing over `skip` characters of the last one. A marker
that nothing closes ends the search. -/
def markersFrom : Nat → Nat → Text → List Marker
  | _, _, [] => []
  | skip + 1, pos, _ :: cs => markersFrom skip (pos + 1) cs
  | 0, pos, c :: cs =>
    if opener.isPrefixOf (c :: cs) then
      match balanced? 0 (cs.drop 1) with
      | some e => ⟨pos, pos + e.length + 3, e⟩ :: markersFrom (e.length + 2) (pos + 1) cs
      | none => []
    else markersFrom 0 (pos + 1) cs

/-- The markers of a template, from left to right. -/
def markers (t : Text) : List Marker :=
  markersFrom 0 0 t

/-- The placeholder letters. -/
def letters : List Char :=
  "abcdefghijklmnopqrstuvwxyz".toList

/-- A template with more markers than there are letters. -/
structure Overflow where
  /-- The template. -/
  template : Text
  /-- How many markers it has. -/
  count : Nat
  deriving Repr, DecidableEq

/-- The message of an overflow. -/
def Overflow.message (o : Overflow) : Text :=
  "Template has ".toList ++ Text.ofNat o.count ++ " interpolations, more than the ".toList ++
    Text.ofNat letters.length ++ " placeholder letters".toList

/-- The key of a template with the expression of each placeholder. -/
structure Canonical where
  /-- The template with a lettered placeholder for each marker. -/
  key : Text
  /-- The expression of each letter. -/
  placeholders : List (Char × Text)
  deriving Repr, DecidableEq

/-- The letter of the first placeholder with the given expression, or else `letter`. -/
def letterOf (seen : List (Char × Text)) (letter : Char) (expression : Text) : Char :=
  match seen.find? (·.2 == expression) with
  | some p => p.1
  | none => letter

/-- Writes a template from offset `pos` on with placeholders for its lettered markers; `seen` holds
the placeholders before. -/
def fillIn (t : Text) : Nat → List (Char × Text) → List (Char × Marker) → Text
  | pos, _, [] => t.drop pos
  | pos, seen, (letter, m) :: ms =>
    Text.slice t pos m.start ++ ['\x7b', letterOf seen letter m.expression, '\x7d'] ++
      fillIn t m.stop (seen ++ [(letter, m.expression)]) ms

/-- The key and the placeholders of a template. -/
def canonical (t : Text) : Except Overflow Canonical :=
  let ms := markers t
  if letters.length < ms.length then .error ⟨t, ms.length⟩
  else
    let lettered := letters.zip ms
    .ok ⟨fillIn t 0 [] lettered, lettered.map fun p => (p.1, p.2.expression)⟩

namespace Canonical

/-- The argument list of the placeholders. -/
def arguments (c : Canonical) : Text :=
  ", ".toList.intercalate (c.placeholders.map fun p => p.1 :: ": ".toList ++ p.2)

/-- The lookup call of a template. -/
def call (c : Canonical) (method : Text) (avoid : Option Quote) : Text :=
  if c.placeholders.isEmpty then Literal.lookupCall method c.key avoid
  else
    method ++ '(' :: Literal.quote c.key avoid ++ ", ".toList ++
      '\x7b' :: c.arguments ++ ['\x7d', ')']

end Canonical

end Template

end Phrasebook
