import Phrasebook.Text.Scan

/-!
# Comments

Component and script sources hold block comments, markup comments and line comments, and lines that
are comments in the manner of a shell. This module finds them, removes them (`strip`) and blanks
them (`mask`), keeping every line feed, so that line numbers survive the first and offsets the
second. An opener that nothing closes is no comment.
-/

namespace Phrasebook

/-- A range of offsets, the end excluded. -/
structure Span where
  /-- Offset of the first character. -/
  start : Nat
  /-- Offset just past the last character. -/
  stop : Nat
  deriving Repr, DecidableEq

namespace Span

/-- Whether an offset lies in the range. -/
def covers (s : Span) (i : Nat) : Bool :=
  s.start ≤ i && i < s.stop

/-- Orders ranges by their start and then by their end. -/
def le (a b : Span) : Bool :=
  a.start < b.start || (a.start == b.start && a.stop ≤ b.stop)

end Span

namespace Comment

/-- The length of the delimited comment at a place: a block comment, a markup comment, or a line
comment, which is none right behind a colon or a backslash. -/
def lengthAt (prev : Option Char) : Text → Option Nat
  | '/' :: '*' :: rest => (Text.find? "*/".toList rest).map (· + 4)
  | '<' :: '!' :: '-' :: '-' :: rest => (Text.find? "-->".toList rest).map (· + 7)
  | '/' :: '/' :: rest =>
    if prev = some ':' || prev = some '\\' then none
    else some (2 + (rest.takeWhile (· != '\n')).length)
  | _ => none

/-- The delimited comments of a text, from left to right. -/
def delimited (t : Text) : List Span :=
  (Text.hits (fun prev rest => (lengthAt prev rest).map (·, ())) t).map fun h => ⟨h.start, h.stop⟩

/-- Whether a line is a comment in the manner of a shell: `#`, alone or followed by a blank, `!` or
another `#`. -/
def isHashLine (line : Text) : Bool :=
  match line.dropWhile (fun c => c == ' ' || c == '\t') with
  | ['#'] => true
  | '#' :: c :: _ => c == ' ' || c == '\t' || c == '!' || c == '#'
  | _ => false

/-- The ranges of the hash lines among `ls`, the first of which starts at `pos`. -/
def hashLinesFrom (pos : Nat) : List Text → List Span
  | [] => []
  | l :: ls =>
    let rest := hashLinesFrom (pos + l.length + 1) ls
    if isHashLine l then ⟨pos, pos + l.length⟩ :: rest else rest

/-- The ranges of all comments of a text, ordered by start: the delimited ones, and the hash lines
that do not start inside one of those. -/
def spans (t : Text) : List Span :=
  let inner := delimited t
  let hashed := (hashLinesFrom 0 (Text.lines t)).filter fun s => !inner.any (·.covers s.start)
  (inner ++ hashed).mergeSort Span.le

/-- Writes a text from offset `pos` on with each range replaced by what `fill` makes of it. -/
def refill (fill : Text → Text) (t : Text) : Nat → List Span → Text
  | pos, [] => t.drop pos
  | pos, s :: ss =>
    Text.slice t pos s.start ++ fill (Text.slice t s.start s.stop) ++ refill fill t s.stop ss

/-- The text without its comments; the line feeds inside them stay. -/
def strip (t : Text) : Text :=
  refill (·.filter (· == '\n')) t 0 (spans t)

/-- The text with spaces in place of its comments; the line feeds inside them stay. -/
def mask (t : Text) : Text :=
  refill (·.map fun c => if c = '\n' then '\n' else ' ') t 0 (spans t)

/-- Whether an offset lies in one of the given ranges. -/
def inside (ss : List Span) (i : Nat) : Bool :=
  ss.any (·.covers i)

end Comment

end Phrasebook
