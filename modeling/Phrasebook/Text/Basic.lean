/-!
# Texts

A text is the list of its code points, so every offset and every length of the library counts code
points. This module holds the operations on texts that all other modules share: cutting by offsets,
searching for a piece, splitting at line feeds, and trimming.
-/

namespace Phrasebook

/-- A text: the list of its code points. -/
abbrev Text := List Char

namespace Text

/-- The characters of `t` with offsets from `i` up to but not including `j`; offsets past the end
are cut back to the end. -/
def slice (t : Text) (i j : Nat) : Text :=
  (t.drop i).take (j - i)

/-- The offset of the first occurrence of `p` in a text. -/
def find? (p : Text) : Text → Option Nat
  | [] => if p.isEmpty then some 0 else none
  | c :: cs => if p.isPrefixOf (c :: cs) then some 0 else (find? p cs).map (· + 1)

/-- The offset of the last occurrence of `p` in a text. -/
def findLast? (p : Text) : Text → Option Nat
  | [] => if p.isEmpty then some 0 else none
  | c :: cs =>
    match findLast? p cs with
    | some i => some (i + 1)
    | none => if p.isPrefixOf (c :: cs) then some 0 else none

/-- Whether `p` occurs somewhere in `t`. -/
def occurs (p t : Text) : Bool :=
  (find? p t).isSome

/-- All offsets, counted from `pos`, at which `p` occurs; occurrences may overlap. -/
def occurrencesFrom (p : Text) (pos : Nat) : Text → List Nat
  | [] => if p.isEmpty then [pos] else []
  | c :: cs =>
    if p.isPrefixOf (c :: cs) then pos :: occurrencesFrom p (pos + 1) cs
    else occurrencesFrom p (pos + 1) cs

/-- All offsets at which `p` occurs in `t`, in ascending order. -/
def occurrences (p t : Text) : List Nat :=
  occurrencesFrom p 0 t

/-- The lines of a text: the pieces between its line feeds, at least one. -/
def lines (t : Text) : List Text :=
  t.splitOn '\n'

/-- Joins pieces with a line feed between neighbours. -/
def unlines (ls : List Text) : Text :=
  ['\n'].intercalate ls

/-- Drops the characters in class `p` from the end of a text. -/
def trimEnd (p : Char → Bool) (t : Text) : Text :=
  (t.reverse.dropWhile p).reverse

/-- Drops the characters in class `p` from both ends of a text. -/
def trim (p : Char → Bool) (t : Text) : Text :=
  trimEnd p (t.dropWhile p)

/-- The words of a text: its maximal runs of characters outside the class `sep`. -/
def wordsBy (sep : Char → Bool) : Text → List Text
  | [] => []
  | c :: cs =>
    if sep c then wordsBy sep cs
    else
      match cs, wordsBy sep cs with
      | d :: _, w :: ws => if sep d then [c] :: w :: ws else (c :: w) :: ws
      | _, ws => [c] :: ws

/-- Replaces every character by the text that `f` gives for it. -/
def expand (f : Char → Text) (t : Text) : Text :=
  t.flatMap f

/-- The text without one line feed at its very end. -/
def chopNewline (t : Text) : Text :=
  if t.getLast? = some '\n' then t.dropLast else t

/-- Compares two texts by code points, a proper beginning first. -/
def le (a b : Text) : Bool :=
  match a, b with
  | [], _ => true
  | _ :: _, [] => false
  | x :: xs, y :: ys => x < y || (x == y && le xs ys)

/-- Renders a natural number in decimal digits. -/
def ofNat (n : Nat) : Text :=
  Nat.toDigits 10 n

/-- Renders an integer in decimal digits, with a minus sign when negative. -/
def ofInt : Int → Text
  | .ofNat n => ofNat n
  | .negSucc n => '-' :: ofNat (n + 1)

end Text

end Phrasebook
