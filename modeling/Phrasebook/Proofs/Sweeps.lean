import Mathlib.Order.Bounds.Basic
import Phrasebook.Proofs.Scan
import Phrasebook.Buffer

/-!
# Replacing a piece everywhere

A piece is replaced in rounds. Each round looks for the first place, behind the last replacement, where
both the text and its blanked copy show the piece (`findFrom?_eq_some_iff`), and the text is blanked
anew after each replacement, so a round may hide or show places of the next ones. `Sweep` lists the
places that the rounds find. Whatever they are, they lie behind each other and none reaches into a
replacement: the text is cut into gaps with the piece between them, and the result is the same gaps
with the replacement between them (`Sweep.gaps`). There can be no more rounds than the piece
fits into the text, also if the replacement holds the piece itself.
-/

namespace Phrasebook.Buffer

/-- A place where both the text and its blanked copy hold a piece. -/
def Shows (b : Buffer) (span : Text) (pos : Nat) : Prop :=
  span <+: b.text.drop pos ∧ span <+: b.masked.drop pos

/-- The rounds that replace a piece from an offset on, with the places where they find it. The last
round finds nothing. -/
inductive Sweep (span r : Text) : Buffer → Nat → List Nat → Buffer → Prop where
  | done {b start} :
    b.findFrom? span start = none →
    Sweep span r b start [] b
  | round {b start pos finds b'} :
    b.findFrom? span start = some pos →
    Sweep span r (b.splice pos (pos + span.length) r) (pos + r.length) finds b' →
    Sweep span r b start (pos :: finds) b'

variable {b b' : Buffer} {span r : Text} {start pos : Nat} {finds : List Nat}

/-! ## The first place -/

lemma holdsAt_iff : b.holdsAt span pos = true ↔ span <+: b.text.drop pos := by
  rw [holdsAt, beq_iff_eq, Text.slice, Nat.add_sub_cancel_left, List.prefix_iff_eq_take, eq_comm]

/-- The places among which the first is looked for are those that show the piece. -/
lemma mem_occurrences_masked_iff (nonempty : span ≠ []) :
    (pos ∈ Text.occurrences span b.masked ∧ (start ≤ pos && b.holdsAt span pos) = true) ↔
      start ≤ pos ∧ b.Shows span pos := by
  rw [Bool.and_eq_true, decide_eq_true_eq, holdsAt_iff, Text.mem_occurrences_of_ne_nil nonempty]
  constructor
  · rintro ⟨stands, behind, held⟩
    exact ⟨behind, held, stands⟩
  · rintro ⟨behind, held, stands⟩
    exact ⟨stands, behind, held⟩

/-- In an ascending list, the first number that passes a test is the least one. -/
lemma isLeast_of_find? {l : List Nat} (ascending : l.Pairwise (· < ·)) {test : Nat → Bool}
    (found : l.find? test = some pos) : IsLeast {p | p ∈ l ∧ test p = true} pos := by
  obtain ⟨passes, before, behind, rfl, fail⟩ := List.find?_eq_some_iff_append.1 found
  refine ⟨⟨List.mem_append_right _ List.mem_cons_self, passes⟩, ?_⟩
  rintro p ⟨mem, passes'⟩
  rcases List.mem_append.1 mem with early | late
  · have fails := fail p early
    rw [passes'] at fails
    cases fails
  · rcases List.mem_cons.1 late with rfl | late
    · exact Nat.le_refl _
    · have ordered := (List.pairwise_append.1 ascending).2.1
      exact Nat.le_of_lt ((List.pairwise_cons.1 ordered).1 p late)

lemma findFrom?_eq_none_iff (nonempty : span ≠ []) :
    b.findFrom? span start = none ↔ ∀ p, start ≤ p → ¬b.Shows span p := by
  rw [findFrom?, List.find?_eq_none]
  constructor
  · intro fail p behind shows
    obtain ⟨mem, passes⟩ := (mem_occurrences_masked_iff nonempty).2 ⟨behind, shows⟩
    exact fail p mem passes
  · intro absent p mem passes
    obtain ⟨behind, shows⟩ := (mem_occurrences_masked_iff nonempty).1 ⟨mem, passes⟩
    exact absent p behind shows

/-- A search finds the least place, at or behind its start, that shows the piece. -/
lemma findFrom?_eq_some_iff (nonempty : span ≠ []) :
    b.findFrom? span start = some pos ↔ IsLeast {p | start ≤ p ∧ b.Shows span p} pos := by
  have least : ∀ {p}, b.findFrom? span start = some p →
      IsLeast {p | start ≤ p ∧ b.Shows span p} p := by
    intro p found
    have ascending : (Text.occurrences span b.masked).Pairwise (· < ·) :=
      Text.occurrencesFrom_pairwise span 0 b.masked
    have first := isLeast_of_find? ascending found
    simpa only [mem_occurrences_masked_iff nonempty] using first
  constructor
  · exact least
  · intro first
    cases found : b.findFrom? span start with
    | none =>
      obtain ⟨behind, shows⟩ := first.1
      exact absurd shows ((findFrom?_eq_none_iff nonempty).1 found pos behind)
    | some p => rw [(least found).unique first]

/-! ## Rounds -/

/-- The rounds come to an end, and the count is how many of them found a place. -/
lemma sweep_replaceFrom (nonempty : span ≠ []) (b : Buffer) (r : Text) (start : Nat) :
    ∃ finds, Sweep span r b start finds (b.replaceFrom span r start).1 ∧
      (b.replaceFrom span r start).2 = finds.length := by
  fun_induction replaceFrom b span r start with
  | case1 _ _ empty => exact absurd empty nonempty
  | case2 b start _ absent => exact ⟨[], .done absent, rfl⟩
  | case3 b start _ pos found next ih =>
    obtain ⟨finds, sweep, count⟩ := ih
    exact ⟨pos :: finds, .round found sweep, congrArg Nat.succ count⟩

/-- There are no other rounds than these. -/
lemma Sweep.replaceFrom_eq (sweep : Sweep span r b start finds b') (nonempty : span ≠ []) :
    b.replaceFrom span r start = (b', finds.length) := by
  induction sweep with
  | done absent =>
    rw [replaceFrom, if_neg nonempty]
    split
    · rfl
    · rename_i found
      rw [absent] at found
      cases found
  | round found _ ih =>
    rw [replaceFrom, if_neg nonempty]
    split
    · rename_i absent
      rw [found] at absent
      cases absent
    · rename_i found'
      cases found.symm.trans found'
      rw [ih]
      rfl

/-- A splice leaves alone what stands before and behind it. -/
lemma take_drop_splice (stop : Nat) (r : Text) (inside : pos ≤ b.text.length) :
    (b.splice pos stop r).text.take (pos + r.length) = b.text.take pos ++ r ∧
      (b.splice pos stop r).text.drop (pos + r.length) = b.text.drop stop := by
  have length : (b.text.take pos ++ r).length = pos + r.length := by
    rw [List.length_append, List.length_take_of_le inside]
  exact ⟨List.take_left' length, List.drop_left' length⟩

/-- The gaps around the places that a sweep finds: the text it starts on is the gaps with the piece
between them, the text it ends with is the gaps with the replacement between them. Each place lies
behind one gap more than the place before. -/
structure Gaps (span r : Text) (b : Buffer) (start : Nat) (finds : List Nat) (b' : Buffer)
    (gaps : List Text) : Prop where
  count : gaps.length = finds.length + 1
  old : b.text.drop start = span.intercalate gaps
  new : b'.text = b.text.take start ++ r.intercalate gaps
  place : ∀ i < finds.length,
    finds[i]? = some (start + (r.intercalate (gaps.take (i + 1))).length)

/-- A round puts one gap in front. -/
lemma Gaps.round {gaps : List Text} (nonempty : span ≠ [])
    (found : b.findFrom? span start = some pos)
    (later : Gaps span r (b.splice pos (pos + span.length) r) (pos + r.length) finds b' gaps) :
    Gaps span r b start (pos :: finds) b' (Text.slice b.text start pos :: gaps) := by
  obtain ⟨⟨behind, held, -⟩, -⟩ := (findFrom?_eq_some_iff nonempty).1 found
  have inside := (le_of_findFrom? found).2 nonempty
  obtain ⟨front, rest⟩ := take_drop_splice (pos + span.length) r
    (Nat.le_trans (Nat.le_add_right pos _) inside)
  have filled : gaps ≠ [] := List.ne_nil_of_length_eq_add_one later.count
  have gap : start + (Text.slice b.text start pos).length = pos := by
    rw [Text.length_slice (Nat.le_trans (Nat.le_add_right pos _) inside)]
    exact Nat.add_sub_cancel' behind
  refine ⟨congrArg Nat.succ later.count, ?_, ?_, ?_⟩
  · have copy : b.text.drop pos = span ++ b.text.drop (pos + span.length) := by
      rw [← List.drop_drop]
      exact (List.prefix_iff_eq_append.1 held).symm
    rw [List.intercalate_cons_of_ne_nil filled, ← later.old, rest, List.append_assoc, ← copy]
    exact Text.drop_eq_slice_append b.text behind
  · have before : b.text.take pos = b.text.take start ++ Text.slice b.text start pos := by
      rw [Text.slice, ← List.take_add, Nat.add_sub_cancel' behind]
    rw [List.intercalate_cons_of_ne_nil filled, later.new, front, before]
    simp only [List.append_assoc]
  · intro i bound
    cases i with
    | zero =>
      rw [List.take_succ_cons, List.take_zero, List.intercalate_singleton, gap]
      rfl
    | succ i =>
      have next := later.place i (Nat.lt_of_succ_lt_succ bound)
      have more : gaps.take (i + 1) ≠ [] := by simpa using filled
      rw [List.take_succ_cons, List.intercalate_cons_of_ne_nil more, List.getElem?_cons_succ, next,
        List.length_append, List.length_append]
      congr 1
      omega

lemma Sweep.gaps (sweep : Sweep span r b start finds b') (nonempty : span ≠ []) :
    ∃ gaps, Gaps span r b start finds b' gaps := by
  induction sweep with
  | @done b start absent =>
    refine ⟨[b.text.drop start], rfl, ?_, ?_, ?_⟩
    · rw [List.intercalate_singleton]
    · rw [List.intercalate_singleton, List.take_append_drop]
    · intro i beyond
      cases beyond
  | round found _ ih =>
    obtain ⟨gaps, later⟩ := ih
    exact ⟨_, later.round nonempty found⟩

/-- A text holds no more separators than fit into it. -/
lemma mul_length_le_intercalate (sep : Text) {gaps : List Text} {n : Nat}
    (count : gaps.length = n + 1) : n * sep.length ≤ (sep.intercalate gaps).length := by
  induction n generalizing gaps with
  | zero =>
    rw [Nat.zero_mul]
    exact Nat.zero_le _
  | succ n ih =>
    obtain ⟨g, gaps, rfl⟩ := List.exists_cons_of_length_eq_add_one count
    have more := Nat.succ.inj count
    have bound := ih more
    rw [List.intercalate_cons_of_ne_nil (List.ne_nil_of_length_eq_add_one more), List.length_append,
      List.length_append, Nat.succ_mul]
    omega

/-- Replacing a piece everywhere comes to an end for every replacement, also for one that holds the
piece. The text is gaps with the piece between them, the result is the same gaps with the replacement
between them, and the count is that of the places in between, each of which is found behind the
replacement before it. A search finds the least place, at or behind its start, where both the text of
that round and its blanked copy show the piece, and fails if there is none. -/
theorem replaceEverywhere_substitutes (b : Buffer) (span r : Text) (nonempty : span ≠ []) :
    (∃ finds gaps,
      Sweep span r b 0 finds (b.replaceEverywhere span r).1 ∧
      (b.replaceEverywhere span r).2 = finds.length ∧
      finds.length * span.length ≤ b.text.length ∧
      gaps.length = finds.length + 1 ∧
      b.text = span.intercalate gaps ∧
      (b.replaceEverywhere span r).1.text = r.intercalate gaps ∧
      ∀ i < finds.length, finds[i]? = some (r.intercalate (gaps.take (i + 1))).length) ∧
    (∀ (c : Buffer) (start pos : Nat), c.findFrom? span start = some pos ↔
      IsLeast {p | start ≤ p ∧ c.Shows span p} pos) ∧
    ∀ (c : Buffer) (start : Nat), c.findFrom? span start = none ↔
      ∀ p, start ≤ p → ¬c.Shows span p := by
  refine ⟨?_, fun _ _ _ => findFrom?_eq_some_iff nonempty, fun _ _ => findFrom?_eq_none_iff nonempty⟩
  obtain ⟨finds, sweep, count⟩ := sweep_replaceFrom nonempty b r 0
  obtain ⟨gaps, cut⟩ := sweep.gaps nonempty
  have bound : finds.length * span.length ≤ b.text.length := by
    rw [show b.text = span.intercalate gaps from cut.old]
    exact mul_length_le_intercalate span cut.count
  refine ⟨finds, gaps, sweep, count, bound, cut.count, cut.old, cut.new, ?_⟩
  intro i inside
  rw [cut.place i inside, Nat.zero_add]

/-- A replacement that holds the piece and opens a comment, so that it hides one of the places. -/
theorem replaceEverywhere_hides_a_place :
    (ofText "x y x */ x".toList).replaceEverywhere "x".toList "/* x".toList =
        (⟨"/* x y x */ /* x".toList, [⟨0, 1, 4⟩, ⟨12, 13, 4⟩]⟩, 2) ∧
      ∃ gaps : List Text, gaps.length = 3 ∧ "x y x */ x".toList = "x".toList.intercalate gaps ∧
        "/* x y x */ /* x".toList = "/* x".toList.intercalate gaps := by
  have sweep : Sweep "x".toList "/* x".toList (ofText "x y x */ x".toList) 0 [0, 12]
      ⟨"/* x y x */ /* x".toList, [⟨0, 1, 4⟩, ⟨12, 13, 4⟩]⟩ :=
    .round (by decide +kernel) (.round (by decide +kernel) (.done (by decide +kernel)))
  have result := sweep.replaceFrom_eq (by decide)
  obtain ⟨⟨finds, gaps, -, count, -, more, old, new, -⟩, -⟩ :=
    replaceEverywhere_substitutes (ofText "x y x */ x".toList) "x".toList "/* x".toList (by decide)
  rw [show replaceEverywhere _ _ _ = _ from result] at count new
  exact ⟨result, gaps, by rw [more, ← count]; rfl, old, new⟩

end Phrasebook.Buffer
