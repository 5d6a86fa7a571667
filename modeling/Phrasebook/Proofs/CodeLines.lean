import Phrasebook.Proofs.BareSpans
import Phrasebook.Proofs.InsertedLines

/-!
# The code on the lines of a script

Taking the comments out of a text keeps its line feeds, so each line of the text has a line of code.
Lines that are put into a text are lines of its code as they are, if no comment runs over the place,
and empty lines otherwise; the code of the other lines stays (`codeLines_insertLines`).
-/

namespace Phrasebook

open Text (StartsAnew)

namespace Text

variable {a b w t : Text} {i j k : Nat}

/-- Behind the place where a text is put, everything is as much later. -/
lemma drop_later (behind : a.length ≤ i) (w b : Text) :
    (a ++ (w ++ b)).drop (i + w.length) = (a ++ b).drop i := by
  rw [List.drop_append, List.drop_append, List.drop_append, List.drop_of_length_le (by omega),
    List.drop_of_length_le (by omega), List.drop_of_length_le behind]
  have place : i + w.length - a.length - w.length = i - a.length := by omega
  rw [place, List.nil_append]

lemma slice_later (behind : a.length ≤ i) (w b : Text) (j : Nat) :
    slice (a ++ (w ++ b)) (i + w.length) (j + w.length) = slice (a ++ b) i j := by
  rw [slice, slice, drop_later behind, Nat.add_sub_add_right]

/-- What reaches over the place takes in the text that is put there. -/
lemma slice_over (before : i ≤ a.length) (behind : a.length ≤ j) (w b : Text) :
    slice (a ++ (w ++ b)) i (j + w.length) = a.drop i ++ w ++ slice (a ++ b) a.length j := by
  have middle : slice (a ++ (w ++ b)) a.length (a.length + w.length) = w := by
    rw [slice, List.drop_left, Nat.add_sub_cancel_left, List.take_left]
  rw [← slice_append_slice before (by omega), slice_to_end,
    ← slice_append_slice (Nat.le_add_right a.length w.length) (by omega), middle,
    slice_later (Nat.le_refl _), List.append_assoc]

end Text

namespace Comment

/-- The line feeds of a text. -/
def feeds (t : Text) : Text :=
  t.filter (· == '\n')

/-- Whether a range reaches over a place. -/
def crosses (place : Nat) (s : Span) : Bool :=
  s.start < place && place < s.stop

lemma crosses_iff {place : Nat} {s : Span} :
    crosses place s = true ↔ s.start < place ∧ place < s.stop := by
  rw [crosses, Bool.and_eq_true, decide_eq_true_iff, decide_eq_true_iff]

/-- How a range `r` comes behind a range `s`: not before it, behind a place which `s` reaches over, and
without a line feed in what they share. -/
structure Follows (t : Text) (place : Nat) (s r : Span) : Prop where
  order : s.start ≤ r.start
  behind : place < s.stop → place ≤ r.start
  shared : ∀ i, r.start ≤ i → i < s.stop → t[i]? ≠ some '\n'

variable {a b w : Text} {pos : Nat} {s : Span} {ss : List Span}

lemma refill_later (fill : Text → Text) (behind : a.length ≤ pos)
    (bounds : ∀ s ∈ ss, a.length ≤ s.start ∧ s.start < s.stop) (w b : Text) :
    refill fill (a ++ (w ++ b)) (pos + w.length) (ss.map (stretchSpan a.length w.length)) =
      refill fill (a ++ b) pos ss := by
  induction ss generalizing pos with
  | nil => exact Text.drop_later behind w b
  | cons s ss ih =>
    obtain ⟨start, stop⟩ := bounds s List.mem_cons_self
    have rest := fun r mem => bounds r (List.mem_cons_of_mem s mem)
    rw [List.map_cons, stretchSpan_of_le start stop, laterSpan, refill, refill,
      Text.slice_later behind, Text.slice_later start, ih (by omega) rest]

/-- The line feeds of a range, of what comes before and of what comes behind are those of the text;
what comes before may overlap with the range, if they share no line feed. -/
lemma count_pieces (bounds : s.start ≤ s.stop)
    (clean : ∀ i, s.start ≤ i → i < pos → a[i]? ≠ some '\n') :
    (Text.slice a pos s.start).count '\n' + (Text.slice a s.start s.stop).count '\n' +
      (a.drop s.stop).count '\n' = (a.drop pos).count '\n' := by
  have whole : (a.drop s.start).count '\n' =
      (Text.slice a s.start s.stop).count '\n' + (a.drop s.stop).count '\n' := by
    rw [← List.count_append, ← Text.drop_eq_slice_append a (by omega)]
  by_cases gap : pos ≤ s.start
  · rw [Text.drop_eq_slice_append a gap, List.count_append, whole, Nat.add_assoc]
  · have empty : Text.slice a pos s.start = [] := by
      rw [Text.slice, Nat.sub_eq_zero_of_le (by omega), List.take_zero]
    have shared : (Text.slice a s.start pos).count '\n' = 0 := by
      rw [List.count_eq_zero]
      intro mem
      obtain ⟨i, found⟩ := List.mem_iff_getElem?.1 mem
      rw [Text.getElem?_slice] at found
      split at found
      · exact clean (s.start + i) (by omega) (by omega) found
      · cases found
    rw [empty, List.count_nil, Nat.zero_add, ← whole,
      Text.drop_eq_slice_append a (Nat.le_of_not_le gap), List.count_append, shared, Nat.zero_add]

/-- Filling the ranges with their line feeds divides the text at the place behind `a`: what comes
before has the line feeds of `a`, what comes behind starts with a line feed if it is not empty, and if
`w` is put at the place, `m` comes in between. -/
def DividesAt (a w b : Text) (pos : Nat) (ss : List Span) (m : Text) : Prop :=
  ∃ x y, refill feeds (a ++ b) pos ss = x ++ y ∧
    refill feeds (a ++ (w ++ b)) pos (ss.map (stretchSpan a.length w.length)) = x ++ m ++ y ∧
    x.count '\n' = (a.drop pos).count '\n' ∧ StartsAnew y

lemma dividesAt_nil (within : pos ≤ a.length) (anew : StartsAnew b) (w : Text) :
    DividesAt a w b pos [] w := by
  refine ⟨a.drop pos, b, ?_, ?_, rfl, anew⟩
  · exact List.drop_append_of_le_length within
  · rw [List.append_assoc]
    exact List.drop_append_of_le_length within

/-- A range before the place stays where it is. -/
lemma DividesAt.cons {m : Text} (before : s.stop ≤ a.length) (bounds : s.start < s.stop)
    (clean : ∀ i, s.start ≤ i → i < pos → a[i]? ≠ some '\n') (rest : DividesAt a w b s.stop ss m) :
    DividesAt a w b pos (s :: ss) m := by
  have still : stretchSpan a.length w.length s = s := by
    rw [stretchSpan, moved, if_pos (by omega), stretch, if_pos before]
  obtain ⟨x, y, old, new, count, starts⟩ := rest
  refine ⟨Text.slice a pos s.start ++ feeds (Text.slice a s.start s.stop) ++ x, y, ?_, ?_, ?_, starts⟩
  · rw [refill, Text.slice_of_le (by omega), Text.slice_of_le before, old, List.append_assoc _ x]
  · rw [List.map_cons, still, refill, Text.slice_of_le (by omega), Text.slice_of_le before, new]
    simp only [List.append_assoc]
  · rw [List.count_append, List.count_append, count, ← count_pieces (Nat.le_of_lt bounds) clean,
      feeds, List.count_filter (by simp)]

/-- Behind the place, the text and its line feeds start with a line feed. -/
lemma startsAnew_behind {j : Nat} (anew : StartsAnew b) (filled : b ≠ []) (more : a.length < j)
    (rest : Text) :
    StartsAnew (Text.slice (a ++ b) a.length j ++ rest) ∧
      StartsAnew (feeds (Text.slice (a ++ b) a.length j) ++ rest) := by
  obtain empty | ⟨b, rfl⟩ := anew.eq_nil_or_cons
  · exact absurd empty filled
  · obtain ⟨k, size⟩ := Nat.exists_eq_add_one.2 (Nat.sub_pos_of_lt more)
    rw [Text.slice, List.drop_left, size, List.take_succ_cons]
    refine ⟨?_, ?_⟩
    · rintro c ⟨⟩
      rfl
    · rintro c ⟨⟩
      rfl

/-- A range over the place takes in what is put there and leaves its line feeds. -/
lemma dividesAt_over (anew : StartsAnew b) (filled : b ≠ []) (start : s.start < a.length)
    (stop : a.length < s.stop) (clean : ∀ i, s.start ≤ i → i < pos → a[i]? ≠ some '\n')
    (rest : ∀ r ∈ ss, a.length ≤ r.start ∧ r.start < r.stop) (w : Text) :
    DividesAt a w b pos (s :: ss) (feeds w) := by
  have grown : stretchSpan a.length w.length s = ⟨s.start, s.stop + w.length⟩ := by
    rw [stretchSpan, moved, if_pos start, stretch, if_neg (by omega)]
  have old : Text.slice (a ++ b) s.start s.stop =
      a.drop s.start ++ Text.slice (a ++ b) a.length s.stop := by
    rw [← Text.slice_append_slice (Nat.le_of_lt start) (Nat.le_of_lt stop), Text.slice_to_end]
  refine ⟨Text.slice a pos s.start ++ feeds (a.drop s.start),
    feeds (Text.slice (a ++ b) a.length s.stop) ++ refill feeds (a ++ b) s.stop ss, ?_, ?_, ?_,
    (startsAnew_behind anew filled stop _).2⟩
  · rw [refill, Text.slice_of_le (Nat.le_of_lt start), old]
    simp only [feeds, List.filter_append, List.append_assoc]
  · rw [List.map_cons, grown, refill, Text.slice_of_le (Nat.le_of_lt start),
      Text.slice_over (Nat.le_of_lt start) (Nat.le_of_lt stop),
      refill_later feeds (Nat.le_of_lt stop) rest]
    simp only [feeds, List.filter_append, List.append_assoc]
  · have pieces := @count_pieces a pos ⟨s.start, a.length⟩ (Nat.le_of_lt start) clean
    rw [List.count_append, feeds, List.count_filter (by simp), ← pieces, List.drop_length,
      List.count_nil, Nat.add_zero, ← Text.slice_to_end a [] s.start, List.append_nil]

/-- A range behind the place moves. -/
lemma dividesAt_behind (anew : StartsAnew b) (filled : b ≠ []) (within : pos ≤ a.length)
    (start : a.length ≤ s.start) (stop : s.start < s.stop)
    (rest : ∀ r ∈ ss, a.length ≤ r.start ∧ r.start < r.stop) (w : Text) :
    DividesAt a w b pos (s :: ss) w := by
  have old : Text.slice (a ++ b) pos s.start =
      a.drop pos ++ Text.slice (a ++ b) a.length s.start := by
    rw [← Text.slice_append_slice within start, Text.slice_to_end]
  refine ⟨a.drop pos, Text.slice (a ++ b) a.length s.start ++
    (feeds (Text.slice (a ++ b) s.start s.stop) ++ refill feeds (a ++ b) s.stop ss), ?_, ?_, rfl, ?_⟩
  · rw [refill, old]
    simp only [List.append_assoc]
  · rw [List.map_cons, stretchSpan_of_le start stop, laterSpan, refill,
      Text.slice_over within start, Text.slice_later start,
      refill_later feeds (by omega) rest]
    simp only [List.append_assoc]
  · by_cases here : s.start = a.length
    · have empty : Text.slice (a ++ b) a.length s.start = [] := by
        rw [Text.slice, here, Nat.sub_self, List.take_zero]
      rw [empty, List.nil_append, here]
      exact (startsAnew_behind anew filled (here ▸ stop) _).2
    · exact (startsAnew_behind anew filled (by omega) _).1

/-- What is put at a place comes there as it is, or as its line feeds if a range reaches over the
place. -/
lemma dividesAt (anew : StartsAnew b) (within : pos ≤ a.length)
    (bounds : ∀ s ∈ ss, s.start < s.stop ∧ s.stop ≤ (a ++ b).length)
    (order : ss.Pairwise (Follows (a ++ b) a.length))
    (clean : ∀ s ∈ ss, ∀ i, s.start ≤ i → i < pos → (a ++ b)[i]? ≠ some '\n') (w : Text) :
    DividesAt a w b pos ss (if ss.any (crosses a.length) then feeds w else w) := by
  induction ss generalizing pos with
  | nil => exact dividesAt_nil within anew w
  | cons s ss ih =>
    obtain ⟨start, stop⟩ := bounds s List.mem_cons_self
    obtain ⟨later, order⟩ := List.pairwise_cons.1 order
    have fits := fun r mem => bounds r (List.mem_cons_of_mem s mem)
    have front : ∀ i, s.start ≤ i → i < pos → a[i]? ≠ some '\n' := by
      intro i lower upper found
      exact clean s List.mem_cons_self i lower upper
        ((List.getElem?_append_left (by omega)).trans found)
    rw [List.any_cons, crosses]
    by_cases before : s.stop ≤ a.length
    · rw [decide_eq_false (Nat.not_lt.2 before), Bool.and_false, Bool.false_or]
      apply DividesAt.cons before start front
      exact ih before fits order fun r mem i lower upper => (later r mem).shared i lower upper
    · have rest : ∀ r ∈ ss, a.length ≤ r.start ∧ r.start < r.stop := fun r mem =>
        ⟨(later r mem).behind (Nat.lt_of_not_le before), (fits r mem).1⟩
      have none_later : ss.any (crosses a.length) = false := by
        rw [List.any_eq_false]
        intro r mem
        rw [crosses, decide_eq_false (Nat.not_lt.2 (rest r mem).1), Bool.false_and]
        exact Bool.false_ne_true
      have filled : b ≠ [] := by
        rintro rfl
        rw [List.append_nil] at stop
        exact before stop
      rw [decide_eq_true (Nat.lt_of_not_le before), Bool.and_true, none_later, Bool.or_false]
      by_cases across : s.start < a.length
      · rw [decide_eq_true across, if_pos rfl]
        exact dividesAt_over anew filled across (Nat.lt_of_not_le before) front rest w
      · rw [decide_eq_false across, if_neg Bool.false_ne_true]
        exact dividesAt_behind anew filled within (Nat.le_of_not_lt across) start rest w

/-! ## Texts without their comments -/

/-- No line feed lies in a hash line that is a comment. -/
lemma feed_outside_hashLine {t : Text} {h : Span} {i : Nat} (mem : h ∈ freeHashLines t)
    (lower : h.start ≤ i) (upper : i < h.stop) : t[i]? ≠ some '\n' := by
  intro feed
  have found := getElem?_shades t i
  rw [feed, Option.map_some] at found
  have covered : inside (freeHashLines t) i = true :=
    List.any_eq_true.2 ⟨h, mem, by simp [Span.covers, lower, upper]⟩
  exact ne_feed_of_hashed feed found covered rfl

lemma hashLine_not_crosses {h : Span} (anew : StartsAnew b) (mem : h ∈ freeHashLines (a ++ b)) :
    crosses a.length h = false := by
  rw [Bool.eq_false_iff, Ne, crosses_iff]
  rintro ⟨start, stop⟩
  have bounds := (freeHashLines_bounds mem).2.1
  obtain rfl | ⟨rest, rfl⟩ := anew.eq_nil_or_cons
  · rw [List.append_nil] at bounds
    omega
  · apply feed_outside_hashLine mem (Nat.le_of_lt start) stop
    rw [List.getElem?_append_right (Nat.le_refl _), Nat.sub_self]
    rfl

lemma any_crosses_spans (anew : StartsAnew b) :
    (spans (a ++ b)).any (crosses a.length) = (delimited (a ++ b)).any (crosses a.length) := by
  have hashed : (freeHashLines (a ++ b)).any (crosses a.length) = false := by
    rw [List.any_eq_false]
    intro h mem
    rw [hashLine_not_crosses anew mem]
    exact Bool.false_ne_true
  rw [(spans_perm _).any_eq, List.any_append, hashed, Bool.or_false]

/-- A range that ends before another one starts. -/
lemma follows_of_le {t : Text} {place : Nat} {s r : Span} (size : s.start < s.stop)
    (apart : s.stop ≤ r.start) : Follows t place s r :=
  ⟨by omega, by omega, by omega⟩

/-- The comments of a text come one behind the other in its order. -/
lemma spans_follows (anew : StartsAnew b) :
    (spans (a ++ b)).Pairwise (Follows (a ++ b) a.length) := by
  -- in which order two comments follow each other is told by their starts
  let Ordered (s r : Span) : Prop :=
    (s.start ≤ r.start → Follows (a ++ b) a.length s r) ∧
      (r.start ≤ s.start → Follows (a ++ b) a.length r s)
  have apart : ∀ {s r : Span}, s.start < s.stop → s.stop ≤ r.start → Ordered s r := by
    intro s r size before
    exact ⟨fun _ => follows_of_le size before, fun back => absurd back (by omega)⟩
  have inner : (delimited (a ++ b)).Pairwise Ordered :=
    (delimited_pairwise (a ++ b)).imp_of_mem fun mem _ before => apart (delimited_bounds mem).1 before
  have hashed : (freeHashLines (a ++ b)).Pairwise Ordered :=
    ((hashLinesFrom_pairwise 0 (Text.lines (a ++ b))).filter _).imp_of_mem fun mem _ before =>
      apart (freeHashLines_bounds mem).1 before
  have both : (delimited (a ++ b) ++ freeHashLines (a ++ b)).Pairwise Ordered := by
    refine List.pairwise_append.2 ⟨inner, hashed, fun d dmem h hmem => ⟨fun order => ?_, fun order => ?_⟩⟩
    · -- the hash line does not start in the delimited comment
      have outside := (freeHashLines_bounds hmem).2.2 d dmem
      exact follows_of_le (delimited_bounds dmem).1 (by omega)
    · refine ⟨order, fun across => ?_, fun i lower upper =>
        feed_outside_hashLine hmem (Nat.le_trans order lower) upper⟩
      have clear := hashLine_not_crosses anew hmem
      rw [Bool.eq_false_iff, Ne, crosses_iff] at clear
      omega
  have symmetric : ∀ {s r : Span}, Ordered s r → Ordered r s := fun h => ⟨h.2, h.1⟩
  have all := ((spans_perm (a ++ b)).pairwise_iff symmetric).2 both
  refine (all.and (spans_sorted (a ++ b))).imp fun {s r} two => two.1.1 ?_
  have order := two.2
  simp only [Span.le, Bool.or_eq_true, Bool.and_eq_true, decide_eq_true_eq, beq_iff_eq] at order
  omega

/-- What is left of a text into which lines are put. -/
lemma strip_insert {xs ys new : List Text} (above : ∀ l ∈ xs, '\n' ∉ l) (below : ∀ l ∈ ys, '\n' ∉ l)
    (unbroken : ∀ l ∈ new, '\n' ∉ l) (plain : Unmarked (block new))
    (free : ∀ l ∈ new, isHashLine l = false) :
    ∃ x y, strip (block (xs ++ ys)) = x ++ y ∧
      strip (block (xs ++ (new ++ ys))) =
        x ++ (if (delimited (block (xs ++ ys))).any (crosses (extent xs)) then feeds (block new)
          else block new) ++ y ∧
      x.count '\n' = (block xs).count '\n' ∧ StartsAnew y := by
  have anew := startsAnew_block ys
  have divides := dividesAt anew (Nat.zero_le (block xs).length) (fun s => spans_bounds)
    (spans_follows anew) (fun _ _ _ _ upper => absurd upper (Nat.not_lt_zero _)) (block new)
  rw [any_crosses_spans anew] at divides
  obtain ⟨x, y, old, whole, count, starts⟩ := divides
  have spans_eq := spans_insert above below unbroken plain free
  rw [block_append, block_append, block_append, ← length_block, ← length_block] at spans_eq
  rw [block_append, block_append, block_append, ← length_block]
  refine ⟨x, y, old, ?_, count, starts⟩
  rw [← whole, ← spans_eq]
  rfl

/-! ## A line feed in front -/

lemma lengthAt_feed (t : Text) : lengthAt (some '\n') t = lengthAt none t := by
  unfold lengthAt
  split <;> rfl

lemma delimited_cons_feed (t : Text) : delimited ('\n' :: t) = (delimited t).map (laterSpan 1) := by
  have behind : delimitedFrom 0 0 (some '\n') t = delimitedFrom 0 0 none t := by
    cases t with
    | nil => rfl
    | cons c t =>
      cases read : lengthAt none (c :: t) with
      | none => rw [delimitedFrom_none read, delimitedFrom_none ((lengthAt_feed _).trans read)]
      | some n => rw [delimitedFrom_some read, delimitedFrom_some ((lengthAt_feed _).trans read)]
  show delimitedFrom 0 (0 + 1) (some '\n') t = _
  rw [delimitedFrom_later, behind]
  rfl

lemma spans_cons_feed (t : Text) : spans ('\n' :: t) = (spans t).map (stretchSpan 0 1) := by
  have later : ∀ s : Span, s.start < s.stop → stretchSpan 0 1 s = laterSpan 1 s := fun s size =>
    stretchSpan_of_le (Nat.zero_le _) size
  have inner : delimited ('\n' :: t) = (delimited t).map (stretchSpan 0 1) := by
    rw [delimited_cons_feed]
    exact List.map_congr_left fun s mem => (later s (delimited_bounds mem).1).symm
  have hashed : freeHashLines ('\n' :: t) = (freeHashLines t).map (stretchSpan 0 1) := by
    have lines : hashLinesFrom 0 (Text.lines ('\n' :: t)) =
        (hashLinesFrom 0 (Text.lines t)).map (stretchSpan 0 1) := by
      rw [lines_cons, if_pos rfl]
      show hashLinesFrom (0 + 1) (Text.lines t) = _
      rw [hashLinesFrom_later]
      exact List.map_congr_left fun s mem => (later s (hashLinesFrom_bounds mem).2.1).symm
    rw [freeHashLines, freeHashLines, inner, lines, List.filter_map]
    congr 2
    funext h
    simp only [Function.comp_def, List.any_map, covers_stretchSpan]
  show (delimited _ ++ freeHashLines _).mergeSort Span.le = _
  rw [inner, hashed, ← List.map_append]
  exact (List.map_mergeSort fun s _ r _ => (le_stretchSpan _ _ s r).symm).symm

lemma strip_cons_feed (t : Text) : strip ('\n' :: t) = '\n' :: strip t := by
  have behind : refill feeds ('\n' :: t) 1 ((spans t).map (stretchSpan 0 1)) =
      refill feeds t 0 (spans t) :=
    @refill_later [] 0 (spans t) feeds (Nat.le_refl _)
      (fun s mem => ⟨Nat.zero_le _, (spans_bounds mem).1⟩) ['\n'] t
  have first : ∀ ss, (∀ s ∈ ss, 1 ≤ s.start) →
      refill feeds ('\n' :: t) 0 ss = '\n' :: refill feeds ('\n' :: t) 1 ss := by
    intro ss behind
    cases ss with
    | nil => rfl
    | cons s ss =>
      obtain ⟨k, start⟩ := Nat.exists_eq_add_one.2 (behind s List.mem_cons_self)
      rw [refill, refill, start]
      rfl
  show refill feeds ('\n' :: t) 0 (spans ('\n' :: t)) = '\n' :: refill feeds t 0 (spans t)
  rw [spans_cons_feed, first, behind]
  intro s mem
  obtain ⟨r, -, rfl⟩ := List.mem_map.1 mem
  exact Nat.le_add_left 1 r.start

/-! ## Lines of code -/

/-- The lines of a text without its comments. -/
def codeLines (t : Text) : List Text :=
  Text.lines (strip t)

lemma block_lines (t : Text) : block (Text.lines t) = '\n' :: t := by
  rw [← unlines_nil_cons]
  exact (Text.unlines_append [[]] (Script.lines_ne_nil t)).trans
    (congrArg ('\n' :: ·) (Script.unlines_lines t))

lemma block_codeLines (t : Text) : block (codeLines t) = strip (block (Text.lines t)) := by
  rw [codeLines, block_lines, block_lines, strip_cons_feed]

lemma unbroken_of_mem_lines {t l : Text} (mem : l ∈ Text.lines t) : '\n' ∉ l := by
  induction t generalizing l with
  | nil =>
    rw [List.mem_singleton.1 mem]
    exact List.not_mem_nil
  | cons c t ih =>
    rw [lines_cons] at mem
    split at mem
    · rcases List.mem_cons.1 mem with rfl | later
      · exact List.not_mem_nil
      · exact ih later
    · rename_i other
      obtain ⟨ls, split⟩ := exists_lines t
      rw [split] at ih mem
      rcases List.mem_cons.1 mem with rfl | later
      · rw [List.mem_cons, not_or]
        exact ⟨Ne.symm other, ih List.mem_cons_self⟩
      · exact ih (List.mem_cons_of_mem _ later)

lemma count_block {ls : List Text} (unbroken : ∀ l ∈ ls, '\n' ∉ l) :
    (block ls).count '\n' = ls.length := by
  induction ls with
  | nil => rfl
  | cons l ls ih =>
    obtain ⟨first, rest⟩ := List.forall_mem_cons.1 unbroken
    show ('\n' :: (l ++ block ls)).count '\n' = _
    rw [List.count_cons_self, List.count_append, List.count_eq_zero.2 first, ih rest, Nat.zero_add]
    rfl

/-- A text of lines that is divided in front of a line feed is divided between two lines. -/
lemma block_split {ls : List Text} {x y : Text} (unbroken : ∀ l ∈ ls, '\n' ∉ l)
    (parts : block ls = x ++ y) (starts : StartsAnew y) :
    x = block (ls.take (x.count '\n')) ∧ y = block (ls.drop (x.count '\n')) := by
  induction ls generalizing x with
  | nil =>
    obtain ⟨rfl, rfl⟩ := List.append_eq_nil_iff.1 parts.symm
    exact ⟨rfl, rfl⟩
  | cons l ls ih =>
    obtain ⟨first, rest⟩ := List.forall_mem_cons.1 unbroken
    cases x with
    | nil => exact ⟨rfl, parts.symm⟩
    | cons c x =>
      obtain ⟨rfl, behind⟩ : '\n' = c ∧ l ++ block ls = x ++ y := List.cons.inj parts
      rw [List.count_cons_self, List.take_succ_cons, List.drop_succ_cons]
      rcases List.append_eq_append_iff.1 behind with ⟨u, rfl, split⟩ | ⟨u, rfl, split⟩
      · -- the first line is whole
        rw [List.count_append, List.count_eq_zero.2 first, Nat.zero_add]
        obtain ⟨front, back⟩ := ih rest split
        refine ⟨?_, back⟩
        show '\n' :: (l ++ u) = '\n' :: (l ++ block _)
        rw [← front]
      · cases u with
        | nil =>
          rw [List.append_nil] at first ⊢
          rw [List.count_eq_zero.2 first]
          exact ⟨by simp [block], split⟩
        | cons d u =>
          obtain rfl := starts d (by rw [split]; rfl)
          exact absurd (by simp) first

lemma lines_unlines {ls : List Text} (nonempty : ls ≠ []) (unbroken : ∀ l ∈ ls, '\n' ∉ l) :
    Text.lines (Text.unlines ls) = ls :=
  List.splitOn_intercalate '\n' unbroken nonempty

lemma feeds_block {ls : List Text} (unbroken : ∀ l ∈ ls, '\n' ∉ l) :
    feeds (block ls) = block (ls.map fun _ => []) := by
  induction ls with
  | nil => rfl
  | cons l ls ih =>
    obtain ⟨first, rest⟩ := List.forall_mem_cons.1 unbroken
    have feedless : l.filter (· == '\n') = [] := by
      rw [List.filter_eq_nil_iff]
      intro c mem
      simpa using ne_of_mem_of_not_mem mem first
    show '\n' :: feeds (l ++ block ls) = '\n' :: ([] ++ block _)
    rw [← ih rest, feeds, List.filter_append, feedless]
    rfl

/-- Whether a delimited comment of a text runs over the line feed in front of line `n`: it opens before
the line feed and closes behind it. -/
def runsInto (t : Text) (n : Nat) : Bool :=
  let offset := extent ((Text.lines t).take n)
  (delimited t).any fun d => d.start + 1 < offset && offset ≤ d.stop

lemma runsInto_eq (t : Text) (n : Nat) :
    runsInto t n =
      (delimited (block (Text.lines t))).any (crosses (extent ((Text.lines t).take n))) := by
  rw [block_lines, delimited_cons_feed, List.any_map]
  unfold runsInto
  dsimp only
  congr 1
  funext d
  exact congrArg (_ && ·) (decide_eq_decide.2 Nat.lt_succ_iff.symm)

lemma block_injective {ls ms : List Text} (first : ∀ l ∈ ls, '\n' ∉ l) (second : ∀ l ∈ ms, '\n' ∉ l)
    (same : block ls = block ms) : ls = ms := by
  have lines := lines_block first
  rw [same, lines_block second] at lines
  exact (List.cons.inj lines).2.symm

lemma unbroken_insertLines {ls new : List Text} {n : Nat} (old : ∀ l ∈ ls, '\n' ∉ l)
    (added : ∀ l ∈ new, '\n' ∉ l) : ∀ l ∈ Script.insertLines ls n new, '\n' ∉ l := by
  intro l mem
  rcases List.mem_append.1 mem with front | below
  · rcases List.mem_append.1 front with above | inner
    · exact old l (List.mem_of_mem_take above)
    · exact added l inner
  · exact old l (List.mem_of_mem_drop below)

/-- Lines that can be put into a text without making or unmaking a comment. -/
structure Harmless (new : List Text) : Prop where
  /-- Each is one line. -/
  unbroken : ∀ l ∈ new, '\n' ∉ l
  /-- No comment opens or closes on them. -/
  unmarked : Unmarked (block new)
  /-- None is a hash line. -/
  free : ∀ l ∈ new, isHashLine l = false

/-- The lines of code of a text into which lines are put: the new lines are code, unless a comment runs
over the place; then they are empty. -/
lemma codeLines_insertLines {t : Text} {n : Nat} {new : List Text}
    (within : n ≤ (Text.lines t).length) (harmless : Harmless new) :
    codeLines (Text.unlines (Script.insertLines (Text.lines t) n new)) =
      Script.insertLines (codeLines t) n (if runsInto t n then new.map fun _ => [] else new) := by
  have old : ∀ l ∈ Text.lines t, '\n' ∉ l := fun l => unbroken_of_mem_lines
  have code : ∀ l ∈ codeLines t, '\n' ∉ l := fun l => unbroken_of_mem_lines
  have above : ∀ l ∈ (Text.lines t).take n, '\n' ∉ l := fun l mem => old l (List.mem_of_mem_take mem)
  have below : ∀ l ∈ (Text.lines t).drop n, '\n' ∉ l := fun l mem => old l (List.mem_of_mem_drop mem)
  obtain ⟨x, y, before, after, count, starts⟩ :=
    strip_insert above below harmless.unbroken harmless.unmarked harmless.free
  rw [count_block above, List.length_take, Nat.min_eq_left within] at count
  rw [List.take_append_drop, ← block_codeLines] at before
  rw [List.take_append_drop, ← runsInto_eq, feeds_block harmless.unbroken, ← apply_ite block] at after
  -- the code is divided between the same two lines as the text
  obtain ⟨front, back⟩ := block_split code before starts
  rw [count] at front back
  rw [front, back, ← block_append, ← block_append] at after
  have whole : ∀ l ∈ Script.insertLines (Text.lines t) n new, '\n' ∉ l :=
    unbroken_insertLines old harmless.unbroken
  apply block_injective fun l => unbroken_of_mem_lines
  · apply unbroken_insertLines code
    split
    · simp
    · exact harmless.unbroken
  · show block (codeLines _) = _
    rw [block_codeLines, lines_unlines (Script.insertLines_ne_nil (Script.lines_ne_nil t) n new) whole,
      Script.insertLines, List.append_assoc]
    exact after

/-! ## Comments over a place -/

lemma Unmarked.append (first : Unmarked a) (second : Unmarked b) (anew : StartsAnew b) :
    Unmarked (a ++ b) := by
  refine ⟨?_, fun k known => ?_⟩
  · obtain rfl | ⟨rest, rfl⟩ := anew.eq_nil_or_cons
    · rw [List.append_nil]
      exact first.opens
    · have behind := second.opens
      rw [opensSomewhere_cons (by decide) (by decide)] at behind
      rw [opensSomewhere_append (by decide), first.opens, behind, Bool.or_self]
  · rw [Text.find?_append_anew (brackets_unbroken known).2 (brackets_ne_nil known).2 anew,
      first.closes k known, second.closes k known]
    rfl

lemma unmarked_of_blank (blank : ∀ c ∈ w, isBlank c = true) : Unmarked w := by
  refine ⟨?_, fun k known => ?_⟩
  · generalize (none : Option Char) = prev
    induction w generalizing prev with
    | nil => rfl
    | cons c w ih =>
      obtain ⟨first, rest⟩ := List.forall_mem_cons.1 blank
      have slash : c ≠ '/' := by
        rintro rfl
        exact absurd first (by decide)
      have angle : c ≠ '<' := by
        rintro rfl
        exact absurd first (by decide)
      rw [opensSomewhere_cons slash angle]
      exact ih rest _
  · rw [Text.find?_eq_none_iff]
    intro found
    simp only [brackets, List.mem_cons, List.not_mem_nil, or_false] at known
    rcases known with rfl | rfl
    · exact absurd (blank '*' (found.subset (by simp))) (by decide)
    · exact absurd (blank '-' (found.subset (by simp))) (by decide)

lemma unmarked_block_of_blank {ls : List Text} (blank : ∀ l ∈ ls, Text.isBlankText l = true) :
    Unmarked (block ls) := by
  apply unmarked_of_blank
  intro c mem
  obtain ⟨l, inner, place⟩ := List.mem_flatMap.1 mem
  rcases List.mem_cons.1 place with rfl | char
  · decide
  · exact List.all_eq_true.1 (blank l inner) c char

lemma harmless_singleton {l : Text} (unbroken : '\n' ∉ l) (unmarked : Unmarked ('\n' :: l))
    (free : isHashLine l = false) : Harmless [l] where
  unbroken l' mem := by rwa [List.mem_singleton.1 mem]
  unmarked := by
    show Unmarked ('\n' :: l ++ [])
    rwa [List.append_nil]
  free l' mem := by rwa [List.mem_singleton.1 mem]

lemma harmless_of_empty {ls : List Text} (empty : ∀ l ∈ ls, l = []) : Harmless ls where
  unbroken l mem := by
    rw [empty l mem]
    exact List.not_mem_nil
  unmarked := unmarked_block_of_blank fun l mem => by
    rw [empty l mem]
    rfl
  free l mem := by
    rw [empty l mem]
    rfl

lemma Harmless.append {xs ys : List Text} (first : Harmless xs) (second : Harmless ys) :
    Harmless (xs ++ ys) where
  unbroken l mem := (List.mem_append.1 mem).elim (first.unbroken l) (second.unbroken l)
  unmarked := by
    rw [block_append]
    exact first.unmarked.append second.unmarked (startsAnew_block ys)
  free l mem := (List.mem_append.1 mem).elim (first.free l) (second.free l)

lemma crosses_stretchSpan (place size : Nat) (d : Span) :
    crosses place (stretchSpan place size d) = crosses place d ∧
      crosses (place + size) (stretchSpan place size d) = crosses place d := by
  refine ⟨Bool.eq_iff_iff.2 ?_, Bool.eq_iff_iff.2 ?_⟩
  · rw [crosses_iff, crosses_iff]
    dsimp only [stretchSpan, moved, stretch]
    split <;> split <;> omega
  · rw [crosses_iff, crosses_iff]
    dsimp only [stretchSpan, moved, stretch]
    split <;> split <;> omega

/-- Neither in front of lines that are put into a text nor behind them, other comments run over the
place than before. -/
lemma any_crosses_insert {new : List Text} (plain : Unmarked (block new)) (xs ys : List Text) :
    (delimited (block (xs ++ (new ++ ys)))).any (crosses (extent xs)) =
        (delimited (block (xs ++ ys))).any (crosses (extent xs)) ∧
      (delimited (block (xs ++ (new ++ ys)))).any (crosses (extent (xs ++ new))) =
        (delimited (block (xs ++ ys))).any (crosses (extent xs)) := by
  rw [extent_append, block_append, block_append, block_append, ← length_block, ← length_block,
    delimited_insert plain (startsAnew_block new) (startsAnew_block ys), List.any_map, List.any_map]
  exact ⟨congrArg _ (funext fun d => (crosses_stretchSpan _ _ d).1),
    congrArg _ (funext fun d => (crosses_stretchSpan _ _ d).2)⟩

lemma take_insertLines {ls new : List Text} {n : Nat} (within : n ≤ ls.length) (k : Nat) :
    (Script.insertLines ls n new).take (n + new.length + k) = ls.take n ++ (new ++ (ls.drop n).take k) := by
  have front : (ls.take n ++ new).length = n + new.length := by
    rw [List.length_append, List.length_take, Nat.min_eq_left within]
  rw [Script.insertLines, ← front, List.take_length_add_append, List.append_assoc]

/-- A comment runs over the place behind new lines, and blank lines that follow them, exactly if one
ran over the place before. -/
lemma runsInto_insertLines {t : Text} {n k : Nat} {new : List Text}
    (within : n ≤ (Text.lines t).length) (harmless : Harmless new)
    (blank : ∀ l ∈ ((Text.lines t).drop n).take k, Text.isBlankText l = true) :
    runsInto (Text.unlines (Script.insertLines (Text.lines t) n new)) (n + new.length + k) =
      runsInto t n := by
  have old : ∀ l ∈ Text.lines t, '\n' ∉ l := fun l => unbroken_of_mem_lines
  have lines := lines_unlines (Script.insertLines_ne_nil (Script.lines_ne_nil t) n new)
    (unbroken_insertLines old harmless.unbroken)
  rw [runsInto_eq, runsInto_eq, lines, take_insertLines within]
  -- the blank lines may as well have been put there with the new ones
  generalize rest : (Text.lines t).drop n = below at blank ⊢
  have above : Text.lines t = (Text.lines t).take n ++ (below.take k ++ below.drop k) := by
    rw [List.take_append_drop, ← rest, List.take_append_drop]
  have added : Script.insertLines (Text.lines t) n new =
      (Text.lines t).take n ++ ((new ++ below.take k) ++ below.drop k) := by
    rw [Script.insertLines, rest, List.append_assoc, List.append_assoc, List.take_append_drop]
  have spaces : Unmarked (block (below.take k)) := unmarked_block_of_blank blank
  have both : Unmarked (block (new ++ below.take k)) := by
    rw [block_append]
    exact harmless.unmarked.append spaces (startsAnew_block _)
  generalize (Text.lines t).take n = front at above added ⊢
  rw [added, (any_crosses_insert both front _).2, above, (any_crosses_insert spaces front _).1]

end Comment

end Phrasebook
