import Phrasebook.Text.Basic

/-!
# Matching blocks of two lists of lines

The longest run of lines that both lists share is found first, and then the same on both sides of
it. Of equally long runs the one that comes first wins. In a long second list, lines that come very
often do not start a run, though a run may grow over them.
-/

namespace Phrasebook.LineDiff

/-- A run of `size` equal lines, at `i` in the first list and at `j` in the second. -/
structure Run where
  /-- Where the run starts in the first list. -/
  i : Nat
  /-- Where the run starts in the second list. -/
  j : Nat
  /-- How many lines it has. -/
  size : Nat
  deriving Repr, DecidableEq

/-- Whether a line comes too often in a long list to start a run: more than once in a hundred lines,
of at least two hundred. -/
def isPopular (b : List Text) (line : Text) : Bool :=
  200 ≤ b.length && b.length / 100 + 1 < b.count line

/-- The places of a line in a list at which a run may pass, counted from `pos`. -/
def placesFrom (line : Text) (pos : Nat) : List Text → List Nat
  | [] => []
  | l :: ls => if l = line then pos :: placesFrom line (pos + 1) ls else placesFrom line (pos + 1) ls

/-- The places of a line in the second list; none for a popular line. -/
def places (b : List Text) (line : Text) : List Nat :=
  if isPopular b line then [] else placesFrom line 0 b

/-- One step along the places of a line of the first list, number `i`: `before` holds for each place
of the line above the length of the run that ends there. -/
def extendRuns (i : Nat) (before : List (Nat × Nat)) :
    List Nat → List (Nat × Nat) → Run → List (Nat × Nat) × Run
  | [], now, best => (now, best)
  | j :: js, now, best =>
    let k := (if j = 0 then 0 else (before.lookup (j - 1)).getD 0) + 1
    let best := if best.size < k then ⟨i + 1 - k, j + 1 - k, k⟩ else best
    extendRuns i before js ((j, k) :: now) best

/-- The longest run that starts from rare lines only, in the given ranges. -/
def longestFrom (b : List Text) (blo bhi : Nat) :
    List Text → Nat → List (Nat × Nat) → Run → Run
  | [], _, _, best => best
  | line :: rest, i, before, best =>
    let js := (places b line).filter fun j => blo ≤ j && j < bhi
    let (now, best) := extendRuns i before js [] best
    longestFrom b blo bhi rest (i + 1) now best

/-- Whether both lists hold the same line at the given places. -/
def sameLine (a b : List Text) (i j : Nat) : Bool :=
  match a[i]?, b[j]? with
  | some x, some y => x == y
  | _, _ => false

/-- Grows a run to the front by up to `n` lines. -/
def growFront (a b : List Text) (alo blo : Nat) : Nat → Run → Run
  | 0, r => r
  | n + 1, r =>
    if alo < r.i && blo < r.j && sameLine a b (r.i - 1) (r.j - 1) then
      growFront a b alo blo n ⟨r.i - 1, r.j - 1, r.size + 1⟩
    else r

/-- Grows a run to the back by up to `n` lines. -/
def growBack (a b : List Text) (ahi bhi : Nat) : Nat → Run → Run
  | 0, r => r
  | n + 1, r =>
    if r.i + r.size < ahi && r.j + r.size < bhi && sameLine a b (r.i + r.size) (r.j + r.size) then
      growBack a b ahi bhi n ⟨r.i, r.j, r.size + 1⟩
    else r

/-- The longest run in the given ranges. -/
def longest (a b : List Text) (alo ahi blo bhi : Nat) : Run :=
  let seed := longestFrom b blo bhi ((a.drop alo).take (ahi - alo)) alo [] ⟨alo, blo, 0⟩
  growBack a b ahi bhi (ahi - alo) (growFront a b alo blo (ahi - alo) seed)

/-- The runs in the given ranges from left to right. Each run takes at least one line, so as much
fuel as the first list has lines, and one more, is enough. -/
def runsIn (a b : List Text) : Nat → Nat → Nat → Nat → Nat → List Run
  | 0, _, _, _, _ => []
  | fuel + 1, alo, ahi, blo, bhi =>
    let r := longest a b alo ahi blo bhi
    if r.size = 0 then []
    else
      (if alo < r.i && blo < r.j then runsIn a b fuel alo r.i blo r.j else []) ++ [r] ++
        (if r.i + r.size < ahi && r.j + r.size < bhi then
          runsIn a b fuel (r.i + r.size) ahi (r.j + r.size) bhi
        else [])

/-- Joins runs that touch; `last` is the run before. -/
def joinRuns : Run → List Run → List Run
  | last, [] => if last.size = 0 then [] else [last]
  | last, r :: rs =>
    if last.i + last.size = r.i && last.j + last.size = r.j then
      joinRuns ⟨last.i, last.j, last.size + r.size⟩ rs
    else if last.size = 0 then joinRuns r rs
    else last :: joinRuns r rs

/-- The runs of equal lines of two lists, from left to right, closed by an empty run at the ends. -/
def runs (a b : List Text) : List Run :=
  joinRuns ⟨0, 0, 0⟩ (runsIn a b (a.length + 1) 0 a.length 0 b.length) ++
    [⟨a.length, b.length, 0⟩]

end Phrasebook.LineDiff
