import Phrasebook.LineDiff.Matching
import Phrasebook.Text.LineEnd

/-!
# Unified diffs

The changes between two texts in the unified format: groups of changed lines with three lines of
context around them.
-/

namespace Phrasebook.LineDiff

/-- A stretch of two lists of lines: lines `i₁` to `i₂` of the first and `j₁` to `j₂` of the second,
the ends excluded, which are equal or not. -/
structure Stretch where
  /-- Whether both sides hold the same lines. -/
  equal : Bool
  /-- Start in the first list. -/
  i₁ : Nat
  /-- End in the first list. -/
  i₂ : Nat
  /-- Start in the second list. -/
  j₁ : Nat
  /-- End in the second list. -/
  j₂ : Nat
  deriving Repr, DecidableEq

/-- The stretches between and along runs, from line `i` of the first list and line `j` of the second
on. -/
def stretchesFrom : Nat → Nat → List Run → List Stretch
  | _, _, [] => []
  | i, j, r :: rs =>
    (if i < r.i || j < r.j then [⟨false, i, r.i, j, r.j⟩] else []) ++
      (if r.size = 0 then [] else [⟨true, r.i, r.i + r.size, r.j, r.j + r.size⟩]) ++
      stretchesFrom (r.i + r.size) (r.j + r.size) rs

/-- The stretches of two lists of lines. -/
def stretches (a b : List Text) : List Stretch :=
  stretchesFrom 0 0 (runs a b)

/-- The number of lines of context. -/
def context : Nat := 3

/-- The last lines of an equal stretch, as context for what follows. -/
def Stretch.tail (s : Stretch) : Stretch :=
  { s with i₁ := max s.i₁ (s.i₂ - context), j₁ := max s.j₁ (s.j₂ - context) }

/-- The first lines of an equal stretch, as context for what came before. -/
def Stretch.head (s : Stretch) : Stretch :=
  { s with i₂ := min s.i₂ (s.i₁ + context), j₂ := min s.j₂ (s.j₁ + context) }

/-- Shortens an equal stretch at the front of a list to context. -/
def trimFirst : List Stretch → List Stretch
  | [] => []
  | s :: ss => (if s.equal then s.tail else s) :: ss

/-- Shortens an equal stretch at the end of a list to context. -/
def trimLast (ss : List Stretch) : List Stretch :=
  match ss.getLast? with
  | some s => ss.dropLast ++ [if s.equal then s.head else s]
  | none => []

/-- Whether a group shows a change. -/
def showsChange : List Stretch → Bool
  | [] => false
  | [s] => !s.equal
  | _ => true

/-- Splits stretches into groups at equal stretches longer than two contexts; `group` is the group
begun. -/
def groupsFrom : List Stretch → List Stretch → List (List Stretch)
  | group, [] => if showsChange group then [group] else []
  | group, s :: ss =>
    if s.equal && 2 * context < s.i₂ - s.i₁ then
      (group ++ [s.head]) :: groupsFrom [s.tail] ss
    else groupsFrom (group ++ [s]) ss

/-- The groups of changes of two lists of lines. -/
def groups (a b : List Text) : List (List Stretch) :=
  groupsFrom [] (trimLast (trimFirst (stretches a b)))

/-- A range of lines as the head of a group gives it: the first line, and the number of lines unless
it is one. -/
def rangeText (start stop : Nat) : Text :=
  let length := stop - start
  if length = 1 then Text.ofNat (start + 1)
  else Text.ofNat (if length = 0 then start else start + 1) ++ ',' :: Text.ofNat length

/-- Lines `i` to `j` of a list with a mark in front of each. -/
def marked (mark : Char) (ls : List Text) (i j : Nat) : Text :=
  ((ls.drop i).take (j - i)).flatMap (mark :: ·)

/-- The lines of a stretch. -/
def Stretch.render (a b : List Text) (s : Stretch) : Text :=
  if s.equal then marked ' ' a s.i₁ s.i₂ else marked '-' a s.i₁ s.i₂ ++ marked '+' b s.j₁ s.j₂

/-- A group with its head. -/
def renderGroup (a b : List Text) (group : List Stretch) : Text :=
  match group.head?, group.getLast? with
  | some first, some last =>
    "@@ -".toList ++ rangeText first.i₁ last.i₂ ++ " +".toList ++ rangeText first.j₁ last.j₂ ++
      " @@\n".toList ++ group.flatMap (Stretch.render a b)
  | _, _ => []

/-- The changes from one text to another, under the name of a file; empty if there are none. -/
def unified (before after name : Text) : Text :=
  let a := Text.linesWithEnds before
  let b := Text.linesWithEnds after
  match groups a b with
  | [] => []
  | gs =>
    "--- a/".toList ++ name ++ "\n+++ b/".toList ++ name ++ "\n".toList ++
      gs.flatMap (renderGroup a b)

end Phrasebook.LineDiff
