import Phrasebook.Comment

/-!
# Buffers

A buffer is a text under edit with the log of the edits made to it. From the log, an offset of the
text as it was at first is carried over to the text as it is now.
-/

namespace Phrasebook

/-- One edit: the characters from `start` up to `stop` made way for `inserted` new ones. -/
structure Edit where
  /-- Where the edit was made, in the text of that moment. -/
  start : Nat
  /-- Where the text went on behind the edit. -/
  stop : Nat
  /-- How many characters it put there. -/
  inserted : Nat
  deriving Repr, DecidableEq

/-- Where an edit moves a range of `length` characters at `pos`; nothing if it touches the range. -/
def Edit.shift? (e : Edit) (length pos : Nat) : Option Nat :=
  if e.stop ≤ pos then some (pos + e.start + e.inserted - e.stop)
  else if e.start < pos + length then none
  else some pos

/-- A text under edit, with the edits made so far. -/
structure Buffer where
  /-- The text as it is now. -/
  text : Text
  /-- The edits, the first one first. -/
  edits : List Edit
  deriving Repr, DecidableEq

namespace Buffer

/-- The buffer of a text that has not been edited. -/
def ofText (t : Text) : Buffer :=
  ⟨t, []⟩

/-- The text with its comments blanked. -/
def masked (b : Buffer) : Text :=
  Comment.mask b.text

/-- Where a range of the first text is now; nothing if an edit touched it. -/
def locate? (b : Buffer) (offset length : Nat) : Option Nat :=
  b.edits.foldl (fun pos e => pos.bind (e.shift? length)) (some offset)

/-- Puts `replacement` in place of the characters from `start` up to `stop`. -/
def splice (b : Buffer) (start stop : Nat) (replacement : Text) : Buffer :=
  ⟨b.text.take start ++ replacement ++ b.text.drop stop,
    b.edits ++ [⟨start, stop, replacement.length⟩]⟩

/-- Whether the text holds `span` at an offset. -/
def holdsAt (b : Buffer) (span : Text) (pos : Nat) : Bool :=
  Text.slice b.text pos (pos + span.length) == span

/-- The first offset at or behind `start` where both the text and its blanked copy hold `span`. -/
def findFrom? (b : Buffer) (span : Text) (start : Nat) : Option Nat :=
  (Text.occurrences span b.masked).find? fun pos => start ≤ pos && b.holdsAt span pos

theorem le_of_findFrom? {b : Buffer} {span : Text} {start pos : Nat}
    (h : b.findFrom? span start = some pos) :
    start ≤ pos ∧ (span ≠ [] → pos + span.length ≤ b.text.length) := by
  have found := List.find?_some h
  simp only [holdsAt, Bool.and_eq_true, decide_eq_true_eq, beq_iff_eq] at found
  refine ⟨found.1, fun nonempty => ?_⟩
  have length := congrArg List.length found.2
  simp only [Text.slice, List.length_take, List.length_drop] at length
  have positive : 0 < span.length := List.length_pos_iff.2 nonempty
  omega

/-- Replaces each occurrence of `span` at or behind `start` outside comments, and counts them. The
search goes on behind each replacement, so it ends even if the replacement holds `span`. -/
def replaceFrom (b : Buffer) (span replacement : Text) (start : Nat) : Buffer × Nat :=
  if span = [] then (b, 0)
  else
    match h : b.findFrom? span start with
    | none => (b, 0)
    | some pos =>
      let next := (b.splice pos (pos + span.length) replacement).replaceFrom span replacement
        (pos + replacement.length)
      (next.1, next.2 + 1)
termination_by b.text.length - start
decreasing_by
  rename_i nonempty
  have bounds := le_of_findFrom? h
  have inside := bounds.2 nonempty
  have positive : 0 < span.length := List.length_pos_iff.2 nonempty
  simp only [splice, List.length_append, List.length_take, List.length_drop]
  omega

/-- Replaces every occurrence of `span` outside comments, and counts them. -/
def replaceEverywhere (b : Buffer) (span replacement : Text) : Buffer × Nat :=
  b.replaceFrom span replacement 0

end Buffer

end Phrasebook
