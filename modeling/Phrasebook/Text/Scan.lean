import Phrasebook.Text.Basic

/-!
# Scanning a text for a shape

A *shape* looks at one place of a text, given the character before it and the text from there on,
and says whether the place fits and how many characters it takes. `hits` lists the places that fit
from left to right, without overlap; `fitsSomewhere` only asks whether there is one.
-/

namespace Phrasebook

/-- A shape reads a value at a place of a text and says how many characters it takes. The first
argument is the character before the place, absent at the start of the text. -/
abbrev Shape (α : Type) := Option Char → Text → Option (Nat × α)

/-- A place of a text that fits a shape. -/
structure Hit (α : Type) where
  /-- Offset of the first character. -/
  start : Nat
  /-- Offset just past the last character. -/
  stop : Nat
  /-- What the shape read there. -/
  value : α
  deriving Repr, DecidableEq

namespace Text

/-- Scans from a place `pos` whose preceding character is `prev`, first passing over `skip`
characters that belong to an earlier hit. -/
def hitsFrom {α : Type} (shape : Shape α) : Nat → Nat → Option Char → Text → List (Hit α)
  | _, _, _, [] => []
  | skip + 1, pos, _, c :: cs => hitsFrom shape skip (pos + 1) (some c) cs
  | 0, pos, prev, c :: cs =>
    match shape prev (c :: cs) with
    | some (n, a) => ⟨pos, pos + n, a⟩ :: hitsFrom shape (n - 1) (pos + 1) (some c) cs
    | none => hitsFrom shape 0 (pos + 1) (some c) cs

/-- All places of a text that fit a shape, from left to right; a hit takes its characters, and the
scan goes on behind them. -/
def hits {α : Type} (shape : Shape α) (t : Text) : List (Hit α) :=
  hitsFrom shape 0 0 none t

/-- Whether a place at or behind the given one passes a test; the end of the text is a place too. -/
def fitsFrom (test : Option Char → Text → Bool) : Option Char → Text → Bool
  | prev, [] => test prev []
  | prev, c :: cs => test prev (c :: cs) || fitsFrom test (some c) cs

/-- Whether some place of a text passes a test. -/
def fitsSomewhere (test : Option Char → Text → Bool) (t : Text) : Bool :=
  fitsFrom test none t

/-- What the first place that fits reads. -/
def firstFit {α : Type} (read : Text → Option α) : Text → Option α
  | [] => read []
  | c :: cs => (read (c :: cs)).orElse fun _ => firstFit read cs

/-- The rest of `t` behind a beginning `p`, if `t` begins with `p`. -/
def after? (p t : Text) : Option Text :=
  if p.isPrefixOf t then some (t.drop p.length) else none

/-- Splits a text that begins with a character in class `opens` at the next character in class `closes`:
the run in between and the text behind the closing character. -/
def enclosed? (opens closes : Char → Bool) : Text → Option (Text × Text)
  | [] => none
  | c :: cs =>
    if opens c then
      match cs.dropWhile (!closes ·) with
      | [] => none
      | _ :: rest => some (cs.takeWhile (!closes ·), rest)
    else none

end Text

end Phrasebook
