import Mathlib.Data.List.Forall2
import Phrasebook.Proofs.CodeLines

/-!
# What taking comments out takes away

The comments of a text come in the order of their starts, but a delimited comment may open within a
hash line. The copying position then moves back, from the end of the line to the end of the delimited
comment. Nothing comes twice of this: a hash line gives nothing when it is passed, so it may as well
have ended where the next comment opens (`refill_clipped`), and ranges that are cut off in this way do
not overlap. Each character of the text is therefore kept once or not at all, by its own offset
(`strip_eq_filter`), and line feeds always are.
-/

namespace Phrasebook

/-- A selection of the characters of a text that has all its line feeds goes line by line. -/
lemma Text.forall₂_lines_of_sublist {s t : Text} (sub : s.Sublist t)
    (feeds : s.count '\n' = t.count '\n') :
    List.Forall₂ List.Sublist (lines s) (lines t) := by
  induction sub with
  | slnil => exact .cons (List.Sublist.refl []) .nil
  | @cons s t c sub ih =>
    have fewer : s.count '\n' ≤ t.count '\n' := sub.count_le '\n'
    have other : c ≠ '\n' := by
      rintro rfl
      rw [List.count_cons_self] at feeds
      omega
    rw [List.count_cons_of_ne other] at feeds
    have rest := ih feeds
    obtain ⟨ms, split⟩ := Comment.exists_lines t
    rw [Comment.lines_cons, if_neg other]
    rw [split] at rest ⊢
    obtain ⟨l, ls, first, behind, whole⟩ := List.forall₂_cons_right_iff.1 rest
    rw [whole]
    exact .cons (first.cons c) behind
  | @cons_cons s t c sub ih =>
    by_cases feed : c = '\n'
    · subst feed
      rw [List.count_cons_self, List.count_cons_self] at feeds
      rw [Comment.lines_cons, Comment.lines_cons, if_pos rfl, if_pos rfl]
      exact .cons (List.Sublist.refl []) (ih (Nat.succ.inj feeds))
    · rw [List.count_cons_of_ne feed, List.count_cons_of_ne feed] at feeds
      have rest := ih feeds
      obtain ⟨ls, left⟩ := Comment.exists_lines s
      obtain ⟨ms, right⟩ := Comment.exists_lines t
      rw [Comment.lines_cons, Comment.lines_cons, if_neg feed, if_neg feed]
      rw [left, right] at rest ⊢
      obtain ⟨first, behind⟩ := List.forall₂_cons.1 rest
      exact .cons (first.cons_cons c) behind

namespace Comment

variable {t : Text} {pos place : Nat} {s r : Span} {ss : List Span}

/-! ## Ranges cut off where the next one starts -/

/-- Ranges in order, each cut off where the next one starts. -/
def clipped : List Span → List Span
  | [] => []
  | [s] => [s]
  | s :: r :: ss => ⟨s.start, min s.stop r.start⟩ :: clipped (r :: ss)

/-- A hash line in which a block comment opens, and the block comment. -/
example : clipped [⟨0, 13⟩, ⟨4, 11⟩] = [⟨0, 4⟩, ⟨4, 11⟩] := rfl

/-- What is copied in front of a range is nothing, from wherever behind its start. -/
lemma refill_min (fill : Text → Text) (t : Text) (pos : Nat) (s : Span) (ss : List Span) :
    refill fill t (min pos s.start) (s :: ss) = refill fill t pos (s :: ss) := by
  by_cases before : pos ≤ s.start
  · rw [Nat.min_eq_left before]
  · have nothing : ∀ i, s.start ≤ i → Text.slice t i s.start = [] := by
      intro i behind
      rw [Text.slice, Nat.sub_eq_zero_of_le behind, List.take_zero]
    have past : s.start ≤ pos := Nat.le_of_not_le before
    rw [Nat.min_eq_right past, refill, refill, nothing pos past, nothing _ (Nat.le_refl _)]

/-- Line feeds are not lost with the part of a range that the next one covers too. -/
lemma feeds_clipped (follows : Follows t place s r) :
    feeds (Text.slice t s.start (min s.stop r.start)) = feeds (Text.slice t s.start s.stop) := by
  by_cases apart : s.stop ≤ r.start
  · rw [Nat.min_eq_left apart]
  · have overlap : r.start ≤ s.stop := Nat.le_of_not_le apart
    have shared : feeds (Text.slice t r.start s.stop) = [] := by
      rw [feeds, List.filter_eq_nil_iff]
      intro c mem feed
      obtain ⟨i, found⟩ := List.mem_iff_getElem?.1 mem
      rw [Text.getElem?_slice, beq_iff_eq.1 feed] at found
      split at found
      · exact follows.shared (r.start + i) (by omega) (by omega) found
      · cases found
    rw [Nat.min_eq_right overlap, ← Text.slice_append_slice follows.order overlap, feeds, feeds,
      List.filter_append]
    rw [feeds] at shared
    rw [shared, List.append_nil]

/-- Filling ranges with their line feeds comes to the same if each is cut off where the next one
starts. -/
lemma refill_clipped (order : ss.Pairwise (Follows t place)) (pos : Nat) :
    refill feeds t pos (clipped ss) = refill feeds t pos ss := by
  induction ss generalizing pos with
  | nil => rfl
  | cons s ss ih =>
    obtain ⟨later, order⟩ := List.pairwise_cons.1 order
    cases ss with
    | nil => rfl
    | cons r ss =>
      rw [clipped, refill, ih order, refill_min, feeds_clipped (later r List.mem_cons_self)]
      rfl

/-- A range that is cut off keeps its start and does not grow. -/
lemma exists_of_mem_clipped (order : ss.Pairwise fun a b => a.start ≤ b.start)
    (bounds : ∀ s ∈ ss, s.start ≤ s.stop) (mem : s ∈ clipped ss) :
    s.start ≤ s.stop ∧ ∃ r ∈ ss, s.start = r.start ∧ s.stop ≤ r.stop := by
  induction ss with
  | nil => cases mem
  | cons r ss ih =>
    obtain ⟨later, order⟩ := List.pairwise_cons.1 order
    obtain ⟨size, rest⟩ := List.forall_mem_cons.1 bounds
    cases ss with
    | nil =>
      obtain rfl := List.mem_singleton.1 mem
      exact ⟨size, s, List.mem_cons_self, rfl, Nat.le_refl _⟩
    | cons q ss =>
      rcases List.mem_cons.1 mem with rfl | behind
      · exact ⟨le_min size (later q List.mem_cons_self), r, List.mem_cons_self, rfl, min_le_left _ _⟩
      · obtain ⟨inner, p, known, start, stop⟩ := ih order rest behind
        exact ⟨inner, p, List.mem_cons_of_mem r known, start, stop⟩

/-- Ranges that are cut off do not overlap. -/
lemma clipped_pairwise (order : ss.Pairwise fun a b => a.start ≤ b.start)
    (bounds : ∀ s ∈ ss, s.start ≤ s.stop) :
    (clipped ss).Pairwise fun a b => a.stop ≤ b.start := by
  induction ss with
  | nil => exact .nil
  | cons s ss ih =>
    obtain ⟨-, order⟩ := List.pairwise_cons.1 order
    obtain ⟨-, rest⟩ := List.forall_mem_cons.1 bounds
    cases ss with
    | nil => exact List.pairwise_singleton _ _
    | cons r ss =>
      refine List.pairwise_cons.2 ⟨fun q mem => ?_, ih order rest⟩
      obtain ⟨-, p, known, start, -⟩ := exists_of_mem_clipped order rest mem
      have first : r.start ≤ p.start := by
        rcases List.mem_cons.1 known with rfl | behind
        · exact Nat.le_refl _
        · exact (List.pairwise_cons.1 order).1 p behind
      rw [start]
      exact (min_le_right _ _).trans first

/-! ## Filling as a selection of characters -/

/-- Whether a character stays when ranges are filled with their line feeds, told by the character and
its offset. -/
def stays (ss : List Span) (x : Char × Nat) : Bool :=
  x.1 == '\n' || !inside ss x.2

lemma stays_of_lt {x : Char × Nat} (before : ∀ s ∈ ss, x.2 < s.start) : stays ss x = true := by
  rw [stays, inside_eq_false before, Bool.not_false, Bool.or_true]

lemma stays_of_covers {x : Char × Nat} (covers : s.covers x.2 = true) (ss : List Span) :
    stays (s :: ss) x = (x.1 == '\n') := by
  rw [stays, inside_cons, covers, Bool.true_or, Bool.not_true, Bool.or_false]

lemma stays_of_le {x : Char × Nat} (behind : s.stop ≤ x.2) (ss : List Span) :
    stays (s :: ss) x = stays ss x := by
  have passed : s.covers x.2 = false := by
    rw [Span.covers, decide_eq_false (Nat.not_lt.2 behind), Bool.and_false]
  rw [stays, stays, inside_cons, passed, Bool.false_or]

/-- Filling disjoint ranges with their line feeds keeps or drops each character by its own offset. -/
lemma refill_eq_filter (ordered : ss.Pairwise fun a b => a.stop ≤ b.start)
    (bounds : ∀ s ∈ ss, pos ≤ s.start ∧ s.start ≤ s.stop ∧ s.stop ≤ t.length) :
    refill feeds t pos ss = (((t.drop pos).zipIdx pos).filter (stays ss)).map Prod.fst := by
  induction ss generalizing pos with
  | nil =>
    rw [List.filter_eq_self.2 fun x _ => stays_of_lt (by simp), List.zipIdx_map_fst]
    rfl
  | cons s ss ih =>
    obtain ⟨first, ordered⟩ := List.pairwise_cons.1 ordered
    obtain ⟨before, size, within⟩ := bounds s List.mem_cons_self
    have later : ∀ r ∈ ss, s.stop ≤ r.start ∧ r.start ≤ r.stop ∧ r.stop ≤ t.length :=
      fun r mem => ⟨first r mem, (bounds r (List.mem_cons_of_mem s mem)).2⟩
    have gap : pos + (Text.slice t pos s.start).length = s.start := by
      rw [Text.length_slice (by omega)]
      omega
    have reach : s.start + (Text.slice t s.start s.stop).length = s.stop := by
      rw [Text.length_slice within]
      omega
    have front : ((Text.slice t pos s.start).zipIdx pos).filter (stays (s :: ss)) =
        (Text.slice t pos s.start).zipIdx pos := by
      rw [List.filter_eq_self]
      intro x mem
      have place := (List.mem_zipIdx mem).2.1
      refine stays_of_lt fun r known => ?_
      rcases List.mem_cons.1 known with rfl | known
      · omega
      · have := later r known
        omega
    have middle : ((Text.slice t s.start s.stop).zipIdx s.start).filter (stays (s :: ss)) =
        ((Text.slice t s.start s.stop).zipIdx s.start).filter ((· == '\n') ∘ Prod.fst) := by
      refine List.filter_congr fun x mem => stays_of_covers ?_ ss
      have place := List.mem_zipIdx mem
      rw [Span.covers, Bool.and_eq_true, decide_eq_true_eq, decide_eq_true_eq]
      omega
    have behind : ((t.drop s.stop).zipIdx s.stop).filter (stays (s :: ss)) =
        ((t.drop s.stop).zipIdx s.stop).filter (stays ss) :=
      List.filter_congr fun x mem => stays_of_le (List.mem_zipIdx mem).1 ss
    rw [Text.drop_eq_slice_append t before, Text.drop_eq_slice_append t size, List.zipIdx_append, gap,
      List.zipIdx_append, reach, List.filter_append, List.filter_append, front, middle, behind,
      List.map_append, List.map_append, ← ih ordered later, List.zipIdx_map_fst, ← List.filter_map,
      List.zipIdx_map_fst, refill, List.append_assoc]
    rfl

/-- Taking the comments out keeps the line feeds and the characters outside of all comments, where a
comment is taken to end where the next one opens. -/
lemma strip_eq_filter (t : Text) :
    strip t = (t.zipIdx.filter (stays (clipped (spans t)))).map Prod.fst := by
  have follows : (spans t).Pairwise (Follows t t.length) := by
    have whole := spans_follows (a := t) (b := []) (by rintro c ⟨⟩)
    rwa [List.append_nil] at whole
  have order : (spans t).Pairwise fun a b => a.start ≤ b.start := follows.imp Follows.order
  have sizes : ∀ s ∈ spans t, s.start ≤ s.stop := fun s mem => Nat.le_of_lt (spans_bounds mem).1
  show refill feeds t 0 (spans t) = _
  rw [← refill_clipped follows, refill_eq_filter (clipped_pairwise order sizes)]
  · rfl
  · intro s mem
    obtain ⟨size, r, known, -, stop⟩ := exists_of_mem_clipped order sizes mem
    exact ⟨Nat.zero_le _, size, stop.trans (spans_bounds known).2⟩

/-- Taking the comments out of a text only deletes characters inside of lines: the line feeds stay, so
each line becomes a selection of its own characters. What goes is what lies in a comment and is no line
feed, where a comment is taken to end where the next one opens, as it does in a hash line with other
comments in it. -/
theorem strip_deletes_inside_lines (t : Text) :
    (strip t).count '\n' = t.count '\n' ∧ (strip t).Sublist t ∧
      List.Forall₂ List.Sublist (Text.lines (strip t)) (Text.lines t) ∧
      strip t = (t.zipIdx.filter fun x =>
        x.1 == '\n' || !inside (clipped (spans t)) x.2).map Prod.fst := by
  have selected := strip_eq_filter t
  have sub : (strip t).Sublist t := by
    have picked := (List.filter_sublist (l := t.zipIdx)
      (p := stays (clipped (spans t)))).map Prod.fst
    rwa [← selected, List.zipIdx_map_fst] at picked
  have count : (strip t).count '\n' = t.count '\n' := by
    calc (strip t).count '\n'
        = t.zipIdx.countP fun x => x.1 == '\n' && stays (clipped (spans t)) x := by
          rw [selected, List.count, List.countP_map, List.countP_filter]
          rfl
      _ = t.zipIdx.countP ((· == '\n') ∘ Prod.fst) := by
          refine List.countP_congr fun x _ => ?_
          simp +contextual [stays]
      _ = t.count '\n' := by
          rw [← List.countP_map, List.zipIdx_map_fst, List.count]
  exact ⟨count, sub, Text.forall₂_lines_of_sublist sub count, selected⟩

end Comment

end Phrasebook
