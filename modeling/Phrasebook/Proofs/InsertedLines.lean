import Phrasebook.Proofs.Inert
import Phrasebook.Proofs.ScriptPieces
import Phrasebook.Proofs.Wiring

/-!
# Lines put into a text

Whole lines without marks of comments are put into a text. A comment of the text then either stays
before them, or moves behind them, or runs over the place and grows by them; no comment comes or goes
(`delimited_insert`, `spans_insert`).
-/

namespace Phrasebook

/-- Whether a text can follow another one without a piece of a line across the joint: it is empty or
starts with a line feed. -/
def Text.StartsAnew (t : Text) : Prop :=
  ∀ c ∈ t.head?, c = '\n'

namespace Text

variable {p a b w : Text}

lemma StartsAnew.append (first : StartsAnew a) (second : StartsAnew b) : StartsAnew (a ++ b) := by
  cases a with
  | nil => exact second
  | cons c cs => exact first

lemma StartsAnew.eq_nil_or_cons (anew : StartsAnew b) : b = [] ∨ ∃ rest, b = '\n' :: rest := by
  cases b with
  | nil => exact .inl rfl
  | cons c rest =>
    obtain rfl := anew c rfl
    exact .inr ⟨rest, rfl⟩

/-- A piece without line feeds does not stand across the joint. -/
lemma isPrefixOf_append (unbroken : '\n' ∉ p) (anew : StartsAnew b) :
    p.isPrefixOf (a ++ b) = p.isPrefixOf a := by
  obtain rfl | ⟨rest, rfl⟩ := anew.eq_nil_or_cons
  · rw [List.append_nil]
  · exact isPrefixOf_append_cons unbroken a rest

lemma find?_append_anew (unbroken : '\n' ∉ p) (nonempty : p ≠ []) (anew : StartsAnew b) (a : Text) :
    find? p (a ++ b) = (find? p a).or ((find? p b).map (· + a.length)) := by
  induction a with
  | nil =>
    rw [find?, if_neg (by simpa using nonempty)]
    simp
  | cons c a ih =>
    have here := isPrefixOf_append (a := c :: a) unbroken anew
    rw [List.cons_append] at here ⊢
    rw [find?, find?, here, ih]
    split
    · rfl
    · cases find? p a with
      | some i => rfl
      | none =>
        simp only [Option.none_or, Option.map_map, Option.map_none, List.length_cons]
        rfl

lemma takeWhile_append_anew (anew : StartsAnew b) (a : Text) :
    (a ++ b).takeWhile (· != '\n') = a.takeWhile (· != '\n') := by
  obtain rfl | ⟨rest, rfl⟩ := anew.eq_nil_or_cons
  · rw [List.append_nil]
  · induction a with
    | nil => rfl
    | cons c a ih => rw [List.cons_append, List.takeWhile_cons, List.takeWhile_cons, ih]

end Text

open Text (StartsAnew)

namespace Comment

/-- A text in which no comment opens or closes. -/
structure Unmarked (w : Text) : Prop where
  /-- Nothing opens a comment. -/
  opens : Text.fitsFrom opensAt none w = false
  /-- Nothing closes one. -/
  closes : ∀ k ∈ brackets, Text.find? k.2 w = none

/-- Where the character with an offset is after `size` characters have been put at `place`. -/
def moved (place size n : Nat) : Nat :=
  if n < place then n else n + size

/-- Where the end of a range is after `size` characters have been put at `place`. -/
def stretch (place size n : Nat) : Nat :=
  if n ≤ place then n else n + size

/-- Where a range is after `size` characters have been put at `place`. -/
def stretchSpan (place size : Nat) (s : Span) : Span :=
  ⟨moved place size s.start, stretch place size s.stop⟩

/-- A range so many characters later. -/
def laterSpan (size : Nat) (s : Span) : Span :=
  ⟨s.start + size, s.stop + size⟩

variable {a b w : Text} {prev : Option Char} {skip pos place size : Nat}

lemma brackets_unbroken {k : Text × Text} (known : k ∈ brackets) : '\n' ∉ k.1 ∧ '\n' ∉ k.2 := by
  simp only [brackets, List.mem_cons, List.not_mem_nil, or_false] at known
  rcases known with rfl | rfl <;> decide

lemma opensAt_append (anew : StartsAnew b) (prev : Option Char) (a : Text) :
    opensAt prev (a ++ b) = opensAt prev a := by
  simp only [opensAt, Text.isPrefixOf_append (p := "/*".toList) (by decide) anew,
    Text.isPrefixOf_append (p := "<!--".toList) (by decide) anew,
    Text.isPrefixOf_append (p := "//".toList) (by decide) anew]

lemma lengthAt_of_not_opensAt (idle : opensAt prev a = false) : lengthAt prev a = none := by
  cases read : lengthAt prev a with
  | none => rfl
  | some n => exact absurd (opensAt_of_lengthAt read) (by simp [idle])

/-- Behind a line feed, or at the front of a text, comments open alike. -/
lemma fitsFrom_opensAt (first : StartsAnew w) (prev : Option Char) :
    Text.fitsFrom opensAt prev w = Text.fitsFrom opensAt none w := by
  obtain rfl | ⟨rest, rfl⟩ := first.eq_nil_or_cons
  · rfl
  · rw [Text.fitsFrom, Text.fitsFrom]
    rfl

lemma opensAt_cases (opens : opensAt prev a = true) :
    (∃ k ∈ brackets, ∃ rest, a = k.1 ++ rest) ∨
      ∃ rest, a = '/' :: '/' :: rest ∧ guards prev = false := by
  rw [opensAt, Bool.or_eq_true, Bool.or_eq_true, Bool.and_eq_true, Bool.and_eq_true] at opens
  rcases opens with (block | markup) | ⟨⟨line, colon⟩, slash⟩
  · obtain ⟨rest, rfl⟩ := List.isPrefixOf_iff_prefix.1 block
    exact .inl ⟨_, List.mem_cons_self, rest, rfl⟩
  · obtain ⟨rest, rfl⟩ := List.isPrefixOf_iff_prefix.1 markup
    exact .inl ⟨_, List.mem_cons_of_mem _ List.mem_cons_self, rest, rfl⟩
  · obtain ⟨rest, rfl⟩ := List.isPrefixOf_iff_prefix.1 line
    refine .inr ⟨rest, rfl, ?_⟩
    simpa [guards] using ⟨bne_iff_ne.1 colon, bne_iff_ne.1 slash⟩

/-- A comment that opens before the place closes where it did, or as much later as there are new
characters. -/
lemma lengthAt_insert (plain : Unmarked w) (first : StartsAnew w) (anew : StartsAnew b)
    (prev : Option Char) (a : Text) :
    lengthAt prev (a ++ (w ++ b)) = (lengthAt prev (a ++ b)).map (stretch a.length w.length) := by
  have both := first.append anew
  cases opens : opensAt prev a with
  | false =>
    rw [lengthAt_of_not_opensAt ((opensAt_append both prev a).trans opens),
      lengthAt_of_not_opensAt ((opensAt_append anew prev a).trans opens), Option.map_none]
  | true =>
    rcases opensAt_cases opens with ⟨k, known, rest, rfl⟩ | ⟨rest, rfl, free⟩
    · have unbroken := (brackets_unbroken known).2
      have nonempty := (brackets_ne_nil known).2
      rw [List.append_assoc, List.append_assoc, lengthAt_bracket known, lengthAt_bracket known,
        Text.find?_append_anew unbroken nonempty both, Text.find?_append_anew unbroken nonempty anew,
        Text.find?_append_anew unbroken nonempty anew, plain.closes k known, Option.none_or]
      cases found : Text.find? k.2 rest with
      | some i =>
        have bound := Text.find?_add_le found
        simp only [Option.some_or, Option.map_some, stretch, List.length_append]
        rw [if_pos (by omega)]
      | none =>
        cases Text.find? k.2 b with
        | none => rfl
        | some i =>
          have closer := List.length_pos_iff.2 nonempty
          simp only [Option.none_or, Option.map_some, stretch, List.length_append]
          rw [if_neg (by omega)]
          congr 1
          omega
    · have bound := (List.takeWhile_prefix (l := rest) (· != '\n')).length_le
      simp only [List.cons_append, lengthAt_slashes, free, Bool.false_eq_true, if_false,
        Option.map_some, stretch, List.length_cons, Text.takeWhile_append_anew both,
        Text.takeWhile_append_anew anew]
      rw [if_pos (by omega)]

/-! ## Delimited comments -/

/-- The delimited comments from a place on, which is behind the character `prev`, where `skip`
characters of a comment are still ahead. -/
def delimitedFrom (skip pos : Nat) (prev : Option Char) (t : Text) : List Span :=
  (Text.hitsFrom (fun prev rest => (lengthAt prev rest).map (·, ())) skip pos prev t).map
    fun h => ⟨h.start, h.stop⟩

lemma delimitedFrom_skip (skip pos : Nat) (prev : Option Char) (c : Char) (t : Text) :
    delimitedFrom (skip + 1) pos prev (c :: t) = delimitedFrom skip (pos + 1) (some c) t :=
  rfl

lemma delimitedFrom_none {c : Char} {t : Text} (idle : lengthAt prev (c :: t) = none) (pos : Nat) :
    delimitedFrom 0 pos prev (c :: t) = delimitedFrom 0 (pos + 1) (some c) t := by
  simp only [delimitedFrom, Text.hitsFrom, idle, Option.map_none]

lemma delimitedFrom_some {c : Char} {t : Text} {n : Nat} (read : lengthAt prev (c :: t) = some n)
    (pos : Nat) :
    delimitedFrom 0 pos prev (c :: t) =
      ⟨pos, pos + n⟩ :: delimitedFrom (n - 1) (pos + 1) (some c) t := by
  simp only [delimitedFrom, Text.hitsFrom, read, Option.map_some, List.map_cons]

lemma delimitedFrom_bounds {t : Text} {s : Span} (mem : s ∈ delimitedFrom skip pos prev t) :
    pos + skip ≤ s.start ∧ s.start < s.stop ∧ s.stop ≤ pos + t.length := by
  obtain ⟨h, found, rfl⟩ := List.mem_map.1 mem
  exact Text.hitsFrom_bounds delimited_fits found

/-- A scan that starts later finds everything later. -/
lemma delimitedFrom_later (size skip pos : Nat) (prev : Option Char) (t : Text) :
    delimitedFrom skip (pos + size) prev t = (delimitedFrom skip pos prev t).map (laterSpan size) := by
  induction t generalizing skip pos prev with
  | nil => rfl
  | cons c t ih =>
    cases skip with
    | succ skip =>
      rw [delimitedFrom_skip, delimitedFrom_skip, Nat.add_right_comm, ih]
    | zero =>
      cases read : lengthAt prev (c :: t) with
      | none => rw [delimitedFrom_none read, delimitedFrom_none read, Nat.add_right_comm, ih]
      | some n =>
        rw [delimitedFrom_some read, delimitedFrom_some read, Nat.add_right_comm pos size 1, ih,
          List.map_cons, laterSpan, Nat.add_right_comm]

/-- In front of a line feed it does not matter what stands before. -/
lemma delimitedFrom_anew (anew : StartsAnew b) (pos : Nat) (prev : Option Char) :
    delimitedFrom 0 pos prev b = delimitedFrom 0 pos none b := by
  obtain rfl | ⟨rest, rfl⟩ := anew.eq_nil_or_cons
  · rfl
  · rfl

/-- A scan passes over a text without marks. -/
lemma delimitedFrom_unmarked (opens : Text.fitsFrom opensAt prev w = false) (anew : StartsAnew b)
    (pos : Nat) :
    delimitedFrom 0 pos prev (w ++ b) = delimitedFrom 0 (pos + w.length) none b := by
  induction w generalizing pos prev with
  | nil => exact delimitedFrom_anew anew pos prev
  | cons c w ih =>
    rw [Text.fitsFrom, Bool.or_eq_false_iff] at opens
    have idle := lengthAt_of_not_opensAt ((opensAt_append anew prev (c :: w)).trans opens.1)
    rw [List.cons_append] at idle ⊢
    rw [delimitedFrom_none idle, ih opens.2, List.length_cons, Nat.add_assoc, Nat.add_comm 1]

/-- What is left of a comment is passed over. -/
lemma delimitedFrom_passed (skip pos : Nat) (prev : Option Char) (w b : Text) :
    delimitedFrom (skip + w.length) pos prev (w ++ b) =
      delimitedFrom skip (pos + w.length) (w.getLast?.or prev) b := by
  induction w generalizing pos prev with
  | nil => rfl
  | cons c w ih =>
    rw [List.length_cons, ← Nat.add_assoc, List.cons_append, delimitedFrom_skip, ih,
      Text.getLast?_cons_or, Nat.add_right_comm, Nat.add_assoc]

lemma stretchSpan_of_le {s : Span} (behind : place ≤ s.start) (bounds : s.start < s.stop) :
    stretchSpan place size s = laterSpan size s := by
  rw [stretchSpan, moved, if_neg (by omega), stretch, if_neg (by omega), laterSpan]

lemma stretch_succ (place size n : Nat) :
    stretch (place + 1) size (n + 1) = stretch place size n + 1 := by
  unfold stretch
  split
  · rw [if_pos (by omega)]
  · rw [if_neg (by omega)]
    omega

/-- The comments of a text are stretched by what is put into it. -/
lemma delimitedFrom_insert (plain : Unmarked w) (first : StartsAnew w) (anew : StartsAnew b)
    (skip pos : Nat) (prev : Option Char) (a : Text) :
    delimitedFrom (stretch a.length w.length skip) pos prev (a ++ (w ++ b)) =
      (delimitedFrom skip pos prev (a ++ b)).map (stretchSpan (pos + a.length) w.length) := by
  induction a generalizing skip pos prev with
  | nil =>
    have later : (delimitedFrom skip pos prev b).map (stretchSpan pos w.length) =
        delimitedFrom skip (pos + w.length) prev b := by
      rw [delimitedFrom_later]
      apply List.map_congr_left
      intro s mem
      have bounds := delimitedFrom_bounds mem
      exact stretchSpan_of_le (by omega) bounds.2.1
    rw [List.nil_append, List.nil_append, List.length_nil, Nat.add_zero, later]
    cases skip with
    | zero =>
      have opens := (fitsFrom_opensAt first prev).trans plain.opens
      exact (delimitedFrom_unmarked opens anew pos).trans (delimitedFrom_anew anew _ prev).symm
    | succ skip =>
      rw [stretch, if_neg (by omega), delimitedFrom_passed]
      cases b <;> rfl
  | cons c a ih =>
    have place : pos + (c :: a).length = pos + 1 + a.length := by
      rw [List.length_cons]
      omega
    rw [place, List.length_cons, List.cons_append, List.cons_append]
    cases skip with
    | succ skip => rw [stretch_succ, delimitedFrom_skip, delimitedFrom_skip, ih]
    | zero =>
      have length := lengthAt_insert plain first anew prev (c :: a)
      have still : stretch (a.length + 1) w.length 0 = 0 := if_pos (Nat.zero_le _)
      rw [List.cons_append, List.cons_append, List.length_cons] at length
      rw [still]
      cases read : lengthAt prev (c :: (a ++ b)) with
      | none =>
        rw [read, Option.map_none] at length
        rw [delimitedFrom_none length, delimitedFrom_none read, ← ih]
        rfl
      | some n =>
        obtain ⟨m, rfl⟩ := Nat.exists_eq_add_one.2 (lengthAt_bounds read).1
        rw [read, Option.map_some, stretch_succ] at length
        rw [delimitedFrom_some length, delimitedFrom_some read, List.map_cons, Nat.add_sub_cancel,
          Nat.add_sub_cancel, ih]
        congr 1
        -- the comment itself
        rw [stretchSpan, moved, if_pos (by simp only; omega)]
        congr 1
        simp only [stretch]
        split
        · rw [if_pos (by omega)]
        · rw [if_neg (by omega)]
          omega

lemma delimited_insert (plain : Unmarked w) (first : StartsAnew w) (anew : StartsAnew b) (a : Text) :
    delimited (a ++ (w ++ b)) = (delimited (a ++ b)).map (stretchSpan a.length w.length) := by
  have whole := delimitedFrom_insert plain first anew 0 0 none a
  rwa [stretch, if_pos (Nat.zero_le _), Nat.zero_add] at whole

/-! ## Hash lines -/

/-- Lines, each with a line feed in front. -/
def block (ls : List Text) : Text :=
  ls.flatMap ('\n' :: ·)

lemma block_append (xs ys : List Text) : block (xs ++ ys) = block xs ++ block ys :=
  List.flatMap_append

lemma startsAnew_block (ls : List Text) : StartsAnew (block ls) := by
  cases ls with
  | nil => intro c mem; cases mem
  | cons l ls => intro c mem; cases mem; rfl

lemma length_block (ls : List Text) : (block ls).length = extent ls := by
  induction ls with
  | nil => rfl
  | cons l ls ih =>
    show ('\n' :: l ++ block ls).length = _
    rw [List.length_append, ih, List.length_cons, extent]

lemma unlines_nil_cons (ls : List Text) : Text.unlines ([] :: ls) = block ls :=
  Text.unlines_append_behind ls (List.cons_ne_nil [] [])

lemma lines_block {ls : List Text} (unbroken : ∀ l ∈ ls, '\n' ∉ l) :
    Text.lines (block ls) = [] :: ls := by
  rw [← unlines_nil_cons]
  exact List.splitOn_intercalate '\n' (by simpa using unbroken) (List.cons_ne_nil _ _)

lemma extent_append (xs ys : List Text) : extent (xs ++ ys) = extent xs + extent ys := by
  rw [← length_block, block_append, List.length_append, length_block, length_block]

lemma hashLinesFrom_append (pos : Nat) (xs ys : List Text) :
    hashLinesFrom pos (xs ++ ys) =
      hashLinesFrom pos xs ++ hashLinesFrom (pos + extent xs) ys := by
  induction xs generalizing pos with
  | nil => rfl
  | cons l xs ih =>
    have place : pos + l.length + 1 + extent xs = pos + extent (l :: xs) := by
      rw [extent]
      omega
    simp only [List.cons_append, hashLinesFrom, ih, place]
    split
    · rfl
    · rfl

lemma hashLinesFrom_later (size pos : Nat) (ls : List Text) :
    hashLinesFrom (pos + size) ls = (hashLinesFrom pos ls).map (laterSpan size) := by
  induction ls generalizing pos with
  | nil => rfl
  | cons l ls ih =>
    have place : pos + size + l.length + 1 = pos + l.length + 1 + size := by omega
    simp only [hashLinesFrom, place, ih]
    split
    · rw [List.map_cons, laterSpan, Nat.add_right_comm]
    · rfl

/-- Hash lines are stretched by lines that are put among them. -/
lemma hashLinesFrom_insert {new : List Text} (free : ∀ l ∈ new, isHashLine l = false)
    (xs ys : List Text) :
    hashLinesFrom 1 (xs ++ (new ++ ys)) =
      (hashLinesFrom 1 (xs ++ ys)).map (stretchSpan (extent xs) (extent new)) := by
  rw [hashLinesFrom_append, hashLinesFrom_append, hashLinesFrom_append, List.map_append,
    hashLinesFrom_eq_nil free, List.nil_append, hashLinesFrom_later]
  congr 1
  · refine (List.map_id _).symm.trans (List.map_congr_left fun s mem => ?_)
    have bounds := hashLinesFrom_bounds mem
    rw [stretchSpan, moved, if_pos (by omega), stretch, if_pos (by omega), id]
  · apply List.map_congr_left
    intro s mem
    have bounds := hashLinesFrom_bounds mem
    exact (stretchSpan_of_le (by omega) bounds.2.1).symm

/-! ## All comments -/

lemma moved_lt_moved {m n : Nat} : moved place size m < moved place size n ↔ m < n := by
  unfold moved
  split <;> split <;> omega

lemma moved_lt_stretch {m n : Nat} : moved place size m < stretch place size n ↔ m < n := by
  unfold moved stretch
  split <;> split <;> omega

lemma stretch_le_stretch {m n : Nat} : stretch place size m ≤ stretch place size n ↔ m ≤ n := by
  unfold stretch
  split <;> split <;> omega

lemma moved_le_moved {m n : Nat} : moved place size m ≤ moved place size n ↔ m ≤ n := by
  rw [← Nat.not_lt, moved_lt_moved, Nat.not_lt]

lemma covers_stretchSpan (place size : Nat) (d h : Span) :
    (stretchSpan place size d).covers (stretchSpan place size h).start = d.covers h.start := by
  simp only [Span.covers, stretchSpan, moved_le_moved, moved_lt_stretch]

lemma le_stretchSpan (place size : Nat) (s r : Span) :
    Span.le (stretchSpan place size s) (stretchSpan place size r) = Span.le s r := by
  have same : (moved place size s.start == moved place size r.start) = (s.start == r.start) := by
    rw [Bool.eq_iff_iff, beq_iff_eq, beq_iff_eq, Nat.eq_iff_le_and_ge, moved_le_moved,
      moved_le_moved, ← Nat.eq_iff_le_and_ge]
  simp only [Span.le, stretchSpan, moved_lt_moved, stretch_le_stretch, same]

/-- The free hash lines are those of the lines with a line feed in front that start outside the
delimited comments. -/
lemma freeHashLines_block {ls : List Text} (unbroken : ∀ l ∈ ls, '\n' ∉ l) :
    freeHashLines (block ls) =
      (hashLinesFrom 1 ls).filter fun s => !(delimited (block ls)).any (·.covers s.start) := by
  rw [freeHashLines, lines_block unbroken]
  rfl

/-- The comments of a text are stretched by lines without comments that are put into it. -/
lemma spans_insert {xs ys new : List Text} (above : ∀ l ∈ xs, '\n' ∉ l) (below : ∀ l ∈ ys, '\n' ∉ l)
    (unbroken : ∀ l ∈ new, '\n' ∉ l) (plain : Unmarked (block new))
    (free : ∀ l ∈ new, isHashLine l = false) :
    spans (block (xs ++ (new ++ ys))) =
      (spans (block (xs ++ ys))).map (stretchSpan (extent xs) (extent new)) := by
  have old : ∀ l ∈ xs ++ ys, '\n' ∉ l := by
    simpa [or_imp, forall_and] using ⟨above, below⟩
  have whole : ∀ l ∈ xs ++ (new ++ ys), '\n' ∉ l := by
    simpa [or_imp, forall_and] using ⟨above, unbroken, below⟩
  have inner : delimited (block (xs ++ (new ++ ys))) =
      (delimited (block (xs ++ ys))).map (stretchSpan (extent xs) (extent new)) := by
    rw [block_append, block_append, block_append, ← length_block, ← length_block]
    exact delimited_insert plain (startsAnew_block new) (startsAnew_block ys) (block xs)
  have hashed : freeHashLines (block (xs ++ (new ++ ys))) =
      (freeHashLines (block (xs ++ ys))).map (stretchSpan (extent xs) (extent new)) := by
    rw [freeHashLines_block whole, freeHashLines_block old, inner, hashLinesFrom_insert free,
      List.filter_map]
    congr 2
    funext h
    simp only [Function.comp_def, List.any_map, covers_stretchSpan]
  show (delimited _ ++ freeHashLines _).mergeSort Span.le = _
  rw [inner, hashed, ← List.map_append]
  exact (List.map_mergeSort fun s _ r _ => (le_stretchSpan _ _ s r).symm).symm

end Comment

end Phrasebook
