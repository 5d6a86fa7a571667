import Phrasebook.Proofs.Scan

/-!
# When masking keeps offsets

The comments of a text come from two scans that do not know of each other: one for delimited
comments, one for hash lines. A hash line counts unless it starts inside a delimited comment, but a
delimited comment may still open within a hash line. The ranges then overlap, and the blanked text
repeats what they share.

* `spans_bounds`, `spans_sorted`: the ranges are in bounds and ordered, for every text.
* `spans_pairwise_iff`: they are disjoint exactly if no delimited comment opens within a hash line.
* `getElem?_refill`: over disjoint ranges, filling goes character by character.
* `le_length_refill`, `pairwise_of_length_refill`: filling never loses length, and keeps it over
  disjoint ranges only.

`keepsOffsets_iff` puts these together.
-/

namespace Phrasebook

namespace Span

lemma le_trans {a b c : Span} (h1 : le a b = true) (h2 : le b c = true) : le a c = true := by
  simp only [le, Bool.or_eq_true, Bool.and_eq_true, decide_eq_true_eq, beq_iff_eq] at *
  omega

lemma le_total (a b : Span) : (le a b || le b a) = true := by
  simp only [le, Bool.or_eq_true, Bool.and_eq_true, decide_eq_true_eq, beq_iff_eq]
  omega

end Span

namespace Comment

/-- A delimited comment takes at least its opener and ends in the text. -/
lemma lengthAt_bounds {prev : Option Char} {t : Text} {n : Nat} (h : lengthAt prev t = some n) :
    0 < n ∧ n ≤ t.length := by
  unfold lengthAt at h
  split at h
  · obtain ⟨i, found, rfl⟩ := Option.map_eq_some_iff.1 h
    have bound := Text.find?_add_le found
    simp only [String.length_toList, List.length_cons] at bound ⊢
    have closer : "*/".length = 2 := rfl
    omega
  · obtain ⟨i, found, rfl⟩ := Option.map_eq_some_iff.1 h
    have bound := Text.find?_add_le found
    simp only [String.length_toList, List.length_cons] at bound ⊢
    have closer : "-->".length = 3 := rfl
    omega
  · rename_i rest
    split at h
    · cases h
    · cases h
      have bound := (List.takeWhile_prefix (l := rest) (· != '\n')).length_le
      simp only [List.length_cons]
      omega
  · cases h

lemma delimited_fits :
    Shape.Fits fun prev rest => (lengthAt prev rest).map (·, ()) := by
  intro prev t n a read
  obtain ⟨m, found, e⟩ := Option.map_eq_some_iff.1 read
  cases e
  exact lengthAt_bounds found

lemma delimited_bounds {t : Text} {d : Span} (mem : d ∈ delimited t) :
    d.start < d.stop ∧ d.stop ≤ t.length := by
  obtain ⟨h, found, rfl⟩ := List.mem_map.1 mem
  exact Text.hits_bounds delimited_fits found

lemma delimited_pairwise (t : Text) : (delimited t).Pairwise fun a b => a.stop ≤ b.start :=
  List.pairwise_map.2 (Text.hits_pairwise delimited_fits t)

lemma length_pos_of_isHashLine {l : Text} (h : isHashLine l = true) : 0 < l.length := by
  cases l with
  | nil => simp [isHashLine] at h
  | cons c cs => simp

/-- How many characters lines take in a text, each with its line feed. -/
def extent : List Text → Nat
  | [] => 0
  | l :: ls => l.length + 1 + extent ls

/-- Joined lines have the extent of the lines less the line feed of the last one. -/
lemma length_unlines {ls : List Text} (nonempty : ls ≠ []) :
    (Text.unlines ls).length + 1 = extent ls := by
  induction ls with
  | nil => exact absurd rfl nonempty
  | cons l ls ih =>
    cases ls with
    | nil => simp [extent, Text.unlines]
    | cons m ms =>
      have rest := ih (List.cons_ne_nil m ms)
      simp only [extent, Text.unlines, List.intercalate_cons_cons, List.length_append,
        List.length_singleton] at rest ⊢
      omega

lemma extent_lines (t : Text) : extent (Text.lines t) = t.length + 1 := by
  have joined : Text.unlines (Text.lines t) = t := List.intercalate_splitOn '\n'
  have counted : (Text.unlines (Text.lines t)).length + 1 = extent (Text.lines t) :=
    length_unlines (List.splitOn_ne_nil '\n' t)
  rw [joined] at counted
  exact counted.symm

/-- A hash line lies among the lines that it is taken from. -/
lemma hashLinesFrom_bounds {pos : Nat} {ls : List Text} {s : Span}
    (mem : s ∈ hashLinesFrom pos ls) :
    pos ≤ s.start ∧ s.start < s.stop ∧ s.stop < pos + extent ls := by
  induction ls generalizing pos with
  | nil => simp [hashLinesFrom] at mem
  | cons l ls ih =>
    rw [extent]
    simp only [hashLinesFrom] at mem
    split at mem
    · rename_i hash
      have positive := length_pos_of_isHashLine hash
      rcases List.mem_cons.1 mem with rfl | mem
      · exact ⟨by simp, by simp; omega, by simp; omega⟩
      · have bounds := ih mem
        omega
    · have bounds := ih mem
      omega

/-- Hash lines come in order and do not overlap. -/
lemma hashLinesFrom_pairwise (pos : Nat) (ls : List Text) :
    (hashLinesFrom pos ls).Pairwise fun a b => a.stop ≤ b.start := by
  induction ls generalizing pos with
  | nil => simp [hashLinesFrom]
  | cons l ls ih =>
    simp only [hashLinesFrom]
    split
    · refine List.pairwise_cons.2 ⟨fun s mem => ?_, ih _⟩
      have behind := (hashLinesFrom_bounds mem).1
      show pos + l.length ≤ s.start
      omega
    · exact ih _

/-- The hash lines of a text that start outside its delimited comments. -/
def freeHashLines (t : Text) : List Span :=
  (hashLinesFrom 0 (Text.lines t)).filter fun s => !(delimited t).any (·.covers s.start)

/-- Whether no delimited comment of a text opens within a hash line. A hash line that starts inside
a delimited comment is part of it and does not count. -/
def Separate (t : Text) : Prop :=
  ∀ h ∈ freeHashLines t, ∀ d ∈ delimited t, ¬(h.start < d.start ∧ d.start < h.stop)

instance (t : Text) : Decidable (Separate t) :=
  inferInstanceAs (Decidable (∀ h ∈ freeHashLines t, ∀ d ∈ delimited t, ¬_))

/-- The comments of a text are its delimited comments and its free hash lines. -/
lemma spans_perm (t : Text) : (spans t).Perm (delimited t ++ freeHashLines t) :=
  List.mergeSort_perm _ _

/-- A free hash line lies in the text and does not start inside a delimited comment. -/
lemma freeHashLines_bounds {t : Text} {h : Span} (mem : h ∈ freeHashLines t) :
    h.start < h.stop ∧ h.stop ≤ t.length ∧
      ∀ d ∈ delimited t, ¬(d.start ≤ h.start ∧ h.start < d.stop) := by
  obtain ⟨line, free⟩ := List.mem_filter.1 mem
  have bounds := hashLinesFrom_bounds line
  rw [extent_lines] at bounds
  refine ⟨bounds.2.1, by omega, fun d inner covered => ?_⟩
  simp only [Bool.not_eq_true', List.any_eq_false, Span.covers, Bool.and_eq_true,
    decide_eq_true_eq] at free
  exact free d inner covered

lemma spans_bounds {t : Text} {s : Span} (mem : s ∈ spans t) :
    s.start < s.stop ∧ s.stop ≤ t.length := by
  rcases List.mem_append.1 ((spans_perm t).mem_iff.1 mem) with inner | hashed
  · exact delimited_bounds inner
  · have bounds := freeHashLines_bounds hashed
    exact ⟨bounds.1, bounds.2.1⟩

lemma spans_sorted (t : Text) : (spans t).Pairwise fun a b => Span.le a b = true :=
  @List.pairwise_mergeSort Span Span.le (fun _ _ _ => Span.le_trans) Span.le_total _

/-- The two scans find ranges that are pairwise apart exactly if the text is separate. -/
lemma pairwise_apart_iff (t : Text) :
    (delimited t ++ freeHashLines t).Pairwise Span.Apart ↔ Separate t := by
  have inner : (delimited t).Pairwise Span.Apart := (delimited_pairwise t).imp Or.inl
  have hashed : (freeHashLines t).Pairwise Span.Apart :=
    ((hashLinesFrom_pairwise 0 (Text.lines t)).imp Or.inl).filter _
  rw [List.pairwise_append]
  constructor
  · rintro ⟨_, _, cross⟩ h hmem d dmem ⟨opens, within⟩
    have bounds := delimited_bounds dmem
    rcases cross d dmem h hmem with before | behind
    · omega
    · omega
  · intro sep
    refine ⟨inner, hashed, fun d dmem h hmem => ?_⟩
    -- the hash line does not start in the comment, so only an opener within it is left
    have outside := (freeHashLines_bounds hmem).2.2 d dmem
    have opener := sep h hmem d dmem
    unfold Span.Apart
    omega

/-- The comments of a text are disjoint exactly if it is separate. -/
lemma spans_pairwise_iff (t : Text) :
    ((spans t).Pairwise fun a b => a.stop ≤ b.start) ↔ Separate t := by
  rw [← pairwise_apart_iff, ← (spans_perm t).pairwise_iff Span.Apart.symm]
  constructor
  · intro ordered
    exact ordered.imp Or.inl
  · intro apart
    refine (apart.and (spans_sorted t)).imp_of_mem fun {a b} amem bmem both => ?_
    obtain ⟨away, order⟩ := both
    have abounds := spans_bounds amem
    have bbounds := spans_bounds bmem
    simp only [Span.le, Bool.or_eq_true, Bool.and_eq_true, decide_eq_true_eq, beq_iff_eq] at order
    rcases away with before | behind
    · exact before
    · omega

lemma inside_eq_false {ss : List Span} {i : Nat} (h : ∀ s ∈ ss, i < s.start) :
    inside ss i = false := by
  simp only [inside, List.any_eq_false, Span.covers, Bool.and_eq_true, decide_eq_true_eq]
  intro s mem covered
  have := h s mem
  omega

/-- Filling disjoint ranges changes the characters inside them one by one and no others. -/
lemma getElem?_refill {f : Char → Char} {t : Text} {pos : Nat} {ss : List Span}
    (ordered : ss.Pairwise fun a b => a.stop ≤ b.start)
    (bounds : ∀ s ∈ ss, pos ≤ s.start ∧ s.start < s.stop ∧ s.stop ≤ t.length) (i : Nat) :
    (refill (·.map f) t pos ss)[i]? =
      t[pos + i]?.map fun c => if inside ss (pos + i) then f c else c := by
  induction ss generalizing pos i with
  | nil => simp [refill, inside]
  | cons s ss ih =>
    obtain ⟨behind, rest⟩ := List.pairwise_cons.1 ordered
    obtain ⟨lead, size, fits⟩ := bounds s List.mem_cons_self
    have later : ∀ r ∈ ss, s.stop ≤ r.start ∧ r.start < r.stop ∧ r.stop ≤ t.length :=
      fun r mem => ⟨behind r mem, (bounds r (List.mem_cons_of_mem _ mem)).2⟩
    have before : (Text.slice t pos s.start).length = s.start - pos := Text.length_slice (by omega)
    have within : ((Text.slice t s.start s.stop).map f).length = s.stop - s.start := by
      rw [List.length_map, Text.length_slice fits]
    rw [refill, List.append_assoc]
    by_cases gap : i < s.start - pos
    · rw [List.getElem?_append_left (by omega), Text.getElem?_slice, if_pos gap,
        inside_eq_false]
      · simp
      · intro r mem
        rcases List.mem_cons.1 mem with rfl | mem
        · omega
        · have := later r mem
          omega
    · rw [List.getElem?_append_right (by omega), before]
      by_cases hit : i - (s.start - pos) < s.stop - s.start
      · have covered : inside (s :: ss) (pos + i) = true := by
          simp only [inside, List.any_cons, Span.covers, Bool.or_eq_true, Bool.and_eq_true,
            decide_eq_true_eq]
          omega
        have place : s.start + (i - (s.start - pos)) = pos + i := by omega
        rw [List.getElem?_append_left (by omega), List.getElem?_map, Text.getElem?_slice,
          if_pos hit, covered, place]
        simp
      · have place : s.stop + (i - (s.start - pos) - (s.stop - s.start)) = pos + i := by omega
        have passed : inside (s :: ss) (pos + i) = inside ss (pos + i) := by
          have : s.covers (pos + i) = false := by
            simp only [Span.covers, Bool.and_eq_false_iff, decide_eq_false_iff_not]
            omega
          simp [inside, this]
        rw [List.getElem?_append_right (by omega), within, ih rest later, place, passed]

/-- Filling ranges in bounds never loses length. -/
lemma le_length_refill (f : Char → Char) {t : Text} (pos : Nat) {ss : List Span}
    (bounds : ∀ s ∈ ss, s.start < s.stop ∧ s.stop ≤ t.length) :
    t.length ≤ pos + (refill (·.map f) t pos ss).length := by
  induction ss generalizing pos with
  | nil =>
    simp only [refill, List.length_drop]
    omega
  | cons s ss ih =>
    obtain ⟨size, fits⟩ := bounds s List.mem_cons_self
    have rest := ih s.stop fun r mem => bounds r (List.mem_cons_of_mem _ mem)
    simp only [refill, List.length_append, List.length_map, Text.length_slice fits,
      Text.length_slice (Nat.le_trans (Nat.le_of_lt size) fits)]
    omega

/-- Filling ranges in bounds keeps the length only if each starts behind the one before. -/
lemma pairwise_of_length_refill {f : Char → Char} {t : Text} {pos : Nat} {ss : List Span}
    (bounds : ∀ s ∈ ss, s.start < s.stop ∧ s.stop ≤ t.length)
    (kept : pos + (refill (·.map f) t pos ss).length = t.length) :
    (∀ s ∈ ss, pos ≤ s.start) ∧ ss.Pairwise fun a b => a.stop ≤ b.start := by
  induction ss generalizing pos with
  | nil => simp
  | cons s ss ih =>
    obtain ⟨size, fits⟩ := bounds s List.mem_cons_self
    have tail : ∀ r ∈ ss, r.start < r.stop ∧ r.stop ≤ t.length :=
      fun r mem => bounds r (List.mem_cons_of_mem _ mem)
    -- what the ranges behind `s` give is long enough already, so nothing before it is repeated
    have rest := le_length_refill f s.stop tail
    simp only [refill, List.length_append, List.length_map, Text.length_slice fits,
      Text.length_slice (Nat.le_trans (Nat.le_of_lt size) fits)] at kept
    have exact_rest : s.stop + (refill (·.map f) t s.stop ss).length = t.length := by omega
    obtain ⟨behind, ordered⟩ := ih tail exact_rest
    refine ⟨fun r mem => ?_, List.pairwise_cons.2 ⟨behind, ordered⟩⟩
    rcases List.mem_cons.1 mem with rfl | mem
    · omega
    · have := behind r mem
      omega

/-- Masking keeps offsets: the comments are in bounds, ordered and disjoint, and the masked text has
a space where a comment has a character other than a line feed, and the text's own character
everywhere else. -/
structure KeepsOffsets (t : Text) : Prop where
  /-- The comments lie in the text. -/
  bounded : ∀ s ∈ spans t, s.start < s.stop ∧ s.stop ≤ t.length
  /-- The comments are ordered. -/
  sorted : (spans t).Pairwise fun a b => Span.le a b = true
  /-- No two comments share an offset. -/
  disjoint : (spans t).Pairwise fun a b => a.stop ≤ b.start
  /-- The masked text is as long as the text. -/
  length : (mask t).length = t.length
  /-- What the masked text has at each offset. -/
  chars : ∀ i c, t[i]? = some c →
    (mask t)[i]? = some (if inside (spans t) i && c != '\n' then ' ' else c)

lemma le_length_mask (t : Text) : t.length ≤ (mask t).length := by
  have bound := le_length_refill (fun c => if c = '\n' then '\n' else ' ') 0
    fun s => spans_bounds (t := t) (s := s)
  rwa [Nat.zero_add] at bound

/-- A text whose masked text has its length is separate. -/
lemma separate_of_length_mask {t : Text} (kept : (mask t).length = t.length) : Separate t := by
  have total : 0 + (mask t).length = t.length := by rw [Nat.zero_add, kept]
  exact (spans_pairwise_iff t).1 (pairwise_of_length_refill (fun s => spans_bounds) total).2

lemma getElem?_mask {t : Text} (sep : Separate t) (i : Nat) :
    (mask t)[i]? = t[i]?.map fun c => if inside (spans t) i && c != '\n' then ' ' else c := by
  have ordered := (spans_pairwise_iff t).2 sep
  rw [mask, getElem?_refill ordered fun s mem => ⟨Nat.zero_le _, spans_bounds mem⟩, Nat.zero_add]
  congr 1
  funext c
  by_cases feed : c = '\n'
  · simp [feed]
  · simp [feed]

lemma length_mask {t : Text} (sep : Separate t) : (mask t).length = t.length := by
  apply Nat.le_antisymm _ (le_length_mask t)
  rw [← List.getElem?_eq_none_iff, getElem?_mask sep, List.getElem?_eq_none (Nat.le_refl _)]
  rfl

/-- Masking keeps offsets exactly if no delimited comment opens within a hash line; otherwise the
masked text is longer than the text. -/
theorem keepsOffsets_iff (t : Text) :
    (KeepsOffsets t ↔ Separate t) ∧ (¬ Separate t → t.length < (mask t).length) := by
  refine ⟨⟨fun keeps => separate_of_length_mask keeps.length, fun sep => ?_⟩, fun tangled => ?_⟩
  · refine ⟨fun s => spans_bounds, spans_sorted t, (spans_pairwise_iff t).2 sep,
      length_mask sep, fun i c found => ?_⟩
    rw [getElem?_mask sep, found]
    rfl
  · have bound := le_length_mask t
    have longer : (mask t).length ≠ t.length := fun kept => tangled (separate_of_length_mask kept)
    omega

/-- A line comment within a hash line. -/
example : ¬ Separate "# see // x".toList := by
  decide

end Comment

end Phrasebook
