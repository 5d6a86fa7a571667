import Phrasebook.Text.Basic

/-!
# Wildcards

A wildcard pattern matches whole texts: a star any run of characters, a question mark any one
character, brackets one character of a set. A bracket that nothing closes stands for itself.
-/

namespace Phrasebook.Wildcard

/-- A piece of a pattern. -/
inductive Piece where
  /-- Any run of characters. -/
  | run
  /-- Any one character. -/
  | one
  /-- The given character. -/
  | char (c : Char)
  /-- One character inside, or if `negated` outside, the given inclusive ranges. -/
  | set (negated : Bool) (ranges : List (Char × Char))
  deriving Repr, DecidableEq

/-- The ranges of a set: `a-z` is one, any other character stands for itself. -/
def ranges : Text → List (Char × Char)
  | lo :: '-' :: hi :: rest => (lo, hi) :: ranges rest
  | c :: rest => (c, c) :: ranges rest
  | [] => []

/-- The text of a set without the ranges at its front that hold no character. -/
def dropEmptyRanges : Text → Text
  | lo :: '-' :: hi :: rest => if hi < lo then dropEmptyRanges rest else lo :: '-' :: hi :: rest
  | t => t

/-- The set with the given text between its brackets. An exclamation mark in front negates it, also
behind ranges that hold no character. -/
def setOf (t : Text) : Piece :=
  match t with
  | '!' :: body => .set true (ranges body)
  | body =>
    match dropEmptyRanges body with
    | '!' :: rest => .set true (ranges rest)
    | rest => .set false (ranges rest)

/-- The set at the front of a text, from behind its opening bracket, and the length of its text with
the closing bracket. A closing bracket that comes first belongs to the set. -/
def set? (t : Text) : Option (Piece × Nat) :=
  let mark := if t.head? == some '!' then 1 else 0
  let first := if (t.drop mark).head? == some ']' then mark + 1 else mark
  (Text.find? [']'] (t.drop first)).map fun n => (setOf (t.take (first + n)), first + n + 1)

/-- The pieces of a pattern, first passing over `skip` characters of the last set. -/
def piecesFrom : Nat → Text → List Piece
  | _, [] => []
  | skip + 1, _ :: cs => piecesFrom skip cs
  | 0, c :: cs =>
    if c = '*' then .run :: piecesFrom 0 cs
    else if c = '?' then .one :: piecesFrom 0 cs
    else if c = '[' then
      match set? cs with
      | some (piece, n) => piece :: piecesFrom n cs
      | none => .char c :: piecesFrom 0 cs
    else .char c :: piecesFrom 0 cs

/-- The pieces of a pattern. -/
def pieces (pattern : Text) : List Piece :=
  piecesFrom 0 pattern

/-- Whether a piece takes a given character. -/
def Piece.accepts : Piece → Char → Bool
  | run, _ => true
  | one, _ => true
  | char c, d => c == d
  | set negated ranges, c => ranges.any (fun r => r.1 ≤ c && c ≤ r.2) != negated

/-- The ends of a text: itself, and what is left when characters are taken off its front. -/
def ends : Text → List Text
  | [] => [[]]
  | c :: cs => (c :: cs) :: ends cs

/-- Whether pieces take a whole text. -/
def fits : List Piece → Text → Bool
  | [], t => t.isEmpty
  | .run :: ps, t => (ends t).any (fits ps)
  | p :: ps, t =>
    match t with
    | [] => false
    | c :: cs => p.accepts c && fits ps cs

/-- Whether a pattern matches a whole text. -/
def isMatch (pattern t : Text) : Bool :=
  fits (pieces pattern) t

/-- Whether a pattern holds a wildcard. -/
def isWild (pattern : Text) : Bool :=
  pattern.any fun c => c == '*' || c == '?' || c == '['

end Phrasebook.Wildcard
