import Mathlib.Algebra.Group.Nat.Even
import Mathlib.Data.List.TakeWhile
import Phrasebook.Proofs.Extraction

/-!
# Pairs of quotes

The scanner of a quote knows nothing of the text but where its quote stands. It takes the first one
and the second, the third and the fourth, and so on: what it finds are the neighbouring quotes with
an even number of quotes before them (`mem_hits_quotedShape_iff`).
-/

namespace Phrasebook

/-- Of two splits of a text at a character, the one whose front is free of it is the first. -/
lemma Text.split_first {q : Char} {a b r s : Text} (free : q ∉ a)
    (same : a ++ q :: r = b ++ q :: s) :
    (b = a ∧ s = r) ∨ ∃ middle, b = a ++ q :: middle ∧ r = middle ++ q :: s := by
  rcases List.append_eq_append_iff.1 same with ⟨m, rfl, tail⟩ | ⟨m, rfl, tail⟩
  · cases m with
    | nil => exact .inl ⟨List.append_nil a, (List.cons.inj tail).2.symm⟩
    | cons d m =>
      obtain ⟨rfl, behind⟩ := List.cons.inj tail
      exact .inr ⟨m, rfl, behind⟩
  · cases m with
    | nil => exact .inl ⟨(List.append_nil b).symm, (List.cons.inj tail).2⟩
    | cons d m =>
      obtain ⟨rfl, -⟩ := List.cons.inj tail
      simp at free

/-- Two neighbouring quotes `q` around `inner`, with an even number of quotes in front. -/
structure QuotePair (q : Char) (t before inner rest : Text) : Prop where
  /-- Where the quotes stand. -/
  split : t = before ++ (q :: inner ++ q :: rest)
  /-- There is no quote between them. -/
  free : q ∉ inner
  /-- The quotes in front go in pairs. -/
  even : Even (before.count q)

namespace QuotePair

variable {q c : Char} {t before inner rest inner' rest' : Text}

/-- What a pair spans. -/
lemma slice (pair : QuotePair q t before inner rest) :
    Text.slice t before.length (before.length + inner.length + 2) = q :: inner ++ [q] := by
  have parts : t = before ++ ((q :: inner ++ [q]) ++ rest) := by
    rw [pair.split]
    simp
  rw [parts, Text.slice, List.drop_left]
  refine List.take_left' ?_
  simp only [List.length_append, List.length_cons, List.length_nil]
  omega

lemma mem_tail (pair : QuotePair q (c :: t) before inner rest) : q ∈ t := by
  cases before with
  | nil => simp [(List.cons.inj pair.split).2]
  | cons d front => simp [(List.cons.inj pair.split).2]

lemma mem (pair : QuotePair q t before inner rest) : q ∈ t := by
  cases t with
  | nil => simpa using pair.split
  | cons c t => exact List.mem_cons_of_mem c pair.mem_tail

/-- In front of a pair another character makes no difference. -/
lemma cons_iff (other : c ≠ q) :
    QuotePair q (c :: t) before inner rest ↔
      ∃ front, before = c :: front ∧ QuotePair q t front inner rest := by
  constructor
  · intro pair
    cases before with
    | nil => exact absurd (List.cons.inj pair.split).1 other
    | cons d front =>
      obtain ⟨rfl, split⟩ := List.cons.inj pair.split
      have count := pair.even
      rw [List.count_cons_of_ne other] at count
      exact ⟨front, rfl, split, pair.free, count⟩
  · rintro ⟨front, rfl, pair⟩
    refine ⟨congrArg (c :: ·) pair.split, pair.free, ?_⟩
    rw [List.count_cons_of_ne other]
    exact pair.even

/-- A text that begins with two neighbouring quotes has them as a pair, and its other pairs stand
behind them. -/
lemma quoted_iff (free : q ∉ inner') :
    QuotePair q (q :: inner' ++ q :: rest') before inner rest ↔
      (before = [] ∧ inner = inner' ∧ rest = rest') ∨
        ∃ front, before = q :: inner' ++ q :: front ∧ QuotePair q rest' front inner rest := by
  constructor
  · intro pair
    cases before with
    | nil =>
      have tail := (List.cons.inj pair.split).2
      rcases Text.split_first free tail with ⟨rfl, rfl⟩ | ⟨middle, rfl, -⟩
      · exact .inl ⟨rfl, rfl, rfl⟩
      · exact absurd pair.free (by simp)
    | cons d front =>
      obtain ⟨rfl, tail⟩ := List.cons.inj pair.split
      have count := pair.even
      rcases Text.split_first free tail with ⟨rfl, -⟩ | ⟨middle, rfl, behind⟩
      · -- the closing quote alone cannot open a pair
        simp [List.count_eq_zero_of_not_mem free] at count
      · refine .inr ⟨middle, rfl, behind, pair.free, ?_⟩
        simpa [List.count_eq_zero_of_not_mem free, Nat.even_add_one] using count
  · rintro (⟨rfl, rfl, rfl⟩ | ⟨front, rfl, pair⟩)
    · exact ⟨rfl, free, by simp⟩
    · refine ⟨by simp [pair.split], pair.free, ?_⟩
      simpa [List.count_eq_zero_of_not_mem free, Nat.even_add_one] using pair.even

end QuotePair

namespace Term

lemma quotedShape_eq_some_iff {q : Char} {prev : Option Char} {t inner : Text} {n : Nat} :
    quotedShape q prev t = some (n, inner) ↔
      ∃ rest, t = q :: inner ++ q :: rest ∧ q ∉ inner ∧ n = inner.length + 2 := by
  constructor
  · intro read
    obtain ⟨⟨run, rest⟩, found, same⟩ := Option.map_eq_some_iff.1 read
    obtain ⟨rfl, rfl⟩ := Prod.mk.inj same
    cases t with
    | nil => cases found
    | cons c cs =>
      simp only [Text.enclosed?] at found
      split at found
      · rename_i opens
        split at found
        · cases found
        · rename_i d rest' dropped
          obtain ⟨rfl, rfl⟩ := Prod.mk.inj (Option.some.inj found)
          have closes := List.head?_dropWhile_not (fun c => !(c == q)) cs
          rw [dropped] at closes
          have whole := List.takeWhile_append_dropWhile (p := fun c => !(c == q)) (l := cs)
          rw [dropped] at whole
          simp only [List.head?_cons, Bool.not_eq_false', beq_iff_eq] at opens closes
          subst opens closes
          refine ⟨rest', by rw [List.cons_append, whole], fun inside => ?_, rfl⟩
          simpa using List.mem_takeWhile_imp inside
      · cases found
  · rintro ⟨rest, rfl, free, rfl⟩
    have inside : ∀ c ∈ inner, (!(c == q)) = true := by
      intro c mem
      simpa using ne_of_mem_of_not_mem mem free
    simp [quotedShape, Text.enclosed?, List.dropWhile_append_of_pos inside,
      List.takeWhile_append_of_pos inside]

end Term

/-- A scan passes over the characters that it is to skip. -/
lemma Text.hitsFrom_skip {α : Type} (shape : Shape α) (pos : Nat) (prev : Option Char)
    (skipped t : Text) :
    ∃ last, hitsFrom shape skipped.length pos prev (skipped ++ t) =
      hitsFrom shape 0 (pos + skipped.length) last t := by
  induction skipped generalizing pos prev with
  | nil => exact ⟨prev, rfl⟩
  | cons c cs ih =>
    obtain ⟨last, passed⟩ := ih (pos + 1) (some c)
    refine ⟨last, ?_⟩
    rw [List.length_cons, List.cons_append, hitsFrom, passed, Nat.add_assoc, Nat.add_comm 1]

namespace Term

/-- The hit of a pair of quotes in a text that starts at an offset. -/
def IsPairHit (q : Char) (pos : Nat) (t : Text) (h : Hit Text) : Prop :=
  ∃ before inner rest, QuotePair q t before inner rest ∧
    h = ⟨pos + before.length, pos + before.length + inner.length + 2, inner⟩

section PairHits

variable {q : Char} {pos : Nat} {t : Text} {h : Hit Text}

lemma not_isPairHit (free : q ∉ t) : ¬IsPairHit q pos t h := by
  rintro ⟨before, inner, rest, pair, -⟩
  exact free pair.mem

/-- A quote that nothing closes is in no pair. -/
lemma not_isPairHit_cons {c : Char} (free : q ∉ t) : ¬IsPairHit q pos (c :: t) h := by
  rintro ⟨before, inner, rest, pair, -⟩
  exact free pair.mem_tail

lemma isPairHit_cons_iff {c : Char} (other : c ≠ q) :
    IsPairHit q pos (c :: t) h ↔ IsPairHit q (pos + 1) t h := by
  constructor
  · rintro ⟨before, inner, rest, pair, rfl⟩
    obtain ⟨front, rfl, later⟩ := (QuotePair.cons_iff other).1 pair
    refine ⟨front, inner, rest, later, ?_⟩
    simp only [List.length_cons, Hit.mk.injEq, and_true]
    omega
  · rintro ⟨before, inner, rest, pair, rfl⟩
    refine ⟨c :: before, inner, rest, (QuotePair.cons_iff other).2 ⟨before, rfl, pair⟩, ?_⟩
    simp only [List.length_cons, Hit.mk.injEq, and_true]
    omega

/-- The pairs of a text that begins with one are this pair and those behind it. -/
lemma isPairHit_quoted_iff {run rest : Text} (free : q ∉ run) :
    IsPairHit q pos (q :: run ++ q :: rest) h ↔
      h = ⟨pos, pos + run.length + 2, run⟩ ∨ IsPairHit q (pos + 1 + (run.length + 1)) rest h := by
  constructor
  · rintro ⟨before, inner, behind, pair, rfl⟩
    rcases (QuotePair.quoted_iff free).1 pair with ⟨rfl, rfl, rfl⟩ | ⟨front, rfl, later⟩
    · exact .inl rfl
    · refine .inr ⟨front, inner, behind, later, ?_⟩
      simp only [List.length_append, List.length_cons, Hit.mk.injEq, and_true]
      omega
  · rintro (rfl | ⟨before, inner, behind, pair, rfl⟩)
    · exact ⟨[], run, rest, (QuotePair.quoted_iff free).2 (.inl ⟨rfl, rfl, rfl⟩), rfl⟩
    · refine ⟨q :: run ++ q :: before, inner, behind,
        (QuotePair.quoted_iff free).2 (.inr ⟨before, rfl, pair⟩), ?_⟩
      simp only [List.length_append, List.length_cons, Hit.mk.injEq, and_true]
      omega

end PairHits

/-- A quote at which no literal is read is the last one of its text. -/
lemma notMem_of_quotedShape {q : Char} {prev : Option Char} {t : Text}
    (unread : quotedShape q prev (q :: t) = none) : q ∉ t := by
  intro mem
  obtain ⟨inner, rest, rfl, free⟩ := List.eq_append_cons_of_mem mem
  have read : quotedShape q prev (q :: inner ++ q :: rest) = some (inner.length + 2, inner) :=
    quotedShape_eq_some_iff.2 ⟨rest, rfl, free, rfl⟩
  exact Option.some_ne_none _ (read.symm.trans unread)

/-- The hits of the scanner of a quote are the pairs of that quote. -/
lemma mem_hitsFrom_quotedShape_iff {q : Char} {pos : Nat} {prev : Option Char} {t : Text}
    {h : Hit Text} :
    h ∈ Text.hitsFrom (quotedShape q) 0 pos prev t ↔ IsPairHit q pos t h := by
  -- on the length: behind a pair the scan goes on with what follows the closing quote
  induction size : t.length using Nat.strong_induction_on generalizing pos prev t with
  | _ n ih =>
    cases t with
    | nil => exact iff_of_false List.not_mem_nil (not_isPairHit List.not_mem_nil)
    | cons c cs =>
      rw [Text.hitsFrom]
      split
      · rename_i k run read
        obtain ⟨rest, whole, free, rfl⟩ := quotedShape_eq_some_iff.1 read
        obtain ⟨rfl, tail⟩ := List.cons.inj whole
        have passed : cs = (run ++ [c]) ++ rest := by simpa using tail
        obtain ⟨last, skipped⟩ := Text.hitsFrom_skip (quotedShape c) (pos + 1) (some c)
          (run ++ [c]) rest
        rw [← passed, List.length_append, List.length_singleton] at skipped
        rw [show run.length + 2 - 1 = run.length + 1 from rfl, skipped, List.mem_cons,
          ih rest.length (by simp [← size, passed]; omega) rfl, whole, isPairHit_quoted_iff free]
        rfl
      · rename_i unread
        rw [ih cs.length (by simp [← size]) rfl]
        by_cases opens : c = q
        · have last : q ∉ cs := notMem_of_quotedShape (opens ▸ unread)
          exact iff_of_false (not_isPairHit last) (not_isPairHit_cons last)
        · exact (isPairHit_cons_iff opens).symm

lemma mem_hits_quotedShape_iff {q : Char} {t : Text} {h : Hit Text} :
    h ∈ Text.hits (quotedShape q) t ↔
      ∃ before inner rest, QuotePair q t before inner rest ∧
        h = ⟨before.length, before.length + inner.length + 2, inner⟩ := by
  have found := @mem_hitsFrom_quotedShape_iff q 0 none t h
  simp only [IsPairHit, Nat.zero_add] at found
  exact found

end Term

end Phrasebook
