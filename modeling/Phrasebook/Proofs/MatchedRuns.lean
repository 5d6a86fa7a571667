import Mathlib.Data.List.Basic
import Mathlib.Tactic.Lemma
import Phrasebook.LineDiff.Matching

/-!
# Runs of equal lines

Whatever run the search finds, both lists hold the same lines along it, and it stays in the ranges it
is looked for in (`Run.Fits`, `fits_longest`). So the runs of two lists follow each other in both
(`InOrder`, `inOrder_runs`). Two equal lists have one run, the whole of them (`runs_self`): the longest
run of rare lines is found on the diagonal first, and it grows from there to both ends.
-/

namespace Phrasebook.LineDiff

/-- Both lists hold the same lines along a run, which lies in the given ranges of them. -/
structure Run.Fits (a b : List Text) (alo ahi blo bhi : Nat) (r : Run) : Prop where
  same : ∀ k < r.size, sameLine a b (r.i + k) (r.j + k) = true
  inFirst : alo ≤ r.i ∧ r.i + r.size ≤ ahi
  inSecond : blo ≤ r.j ∧ r.j + r.size ≤ bhi

variable {a b : List Text} {alo ahi blo bhi : Nat} {r : Run}

/-- Lines are the same if both lists have them. -/
lemma sameLine_iff {i j : Nat} :
    sameLine a b i j = true ↔ ∃ line, a[i]? = some line ∧ b[j]? = some line := by
  unfold sameLine
  split
  · rename_i x y first second
    rw [first, second, beq_iff_eq]
    simp [eq_comm]
  · rename_i missing
    constructor
    · intro same
      cases same
    · rintro ⟨line, first, second⟩
      exact absurd second (missing line line first)

/-- A run fits in wider bounds. -/
lemma Run.Fits.widen (fits : r.Fits a b alo ahi blo bhi) {alo' ahi' blo' bhi' : Nat}
    (below : alo' ≤ alo ∧ blo' ≤ blo) (above : ahi ≤ ahi' ∧ bhi ≤ bhi') :
    r.Fits a b alo' ahi' blo' bhi' := by
  obtain ⟨same, first, second⟩ := fits
  exact ⟨same, by omega, by omega⟩

/-- An empty run fits everywhere. -/
lemma Run.Fits.empty {i j : Nat} (first : alo ≤ i ∧ i ≤ ahi) (second : blo ≤ j ∧ j ≤ bhi) :
    Run.Fits a b alo ahi blo bhi ⟨i, j, 0⟩ :=
  ⟨fun _ inside => absurd inside (Nat.not_lt_zero _), first, second⟩

/-- A run goes on to the back over a line that both lists share. -/
lemma Run.Fits.extend (fits : r.Fits a b alo ahi blo bhi)
    (next : sameLine a b (r.i + r.size) (r.j + r.size) = true) (first : r.i + r.size < ahi)
    (second : r.j + r.size < bhi) : Run.Fits a b alo ahi blo bhi ⟨r.i, r.j, r.size + 1⟩ := by
  refine ⟨fun k inside => ?_, ⟨fits.inFirst.1, first⟩, ⟨fits.inSecond.1, second⟩⟩
  rcases Nat.lt_succ_iff_lt_or_eq.1 inside with before | rfl
  · exact fits.same k before
  · exact next

/-- Two runs that touch make one. -/
lemma Run.Fits.join {s : Run} {m n : Nat} (fits : r.Fits a b alo ahi blo bhi)
    (behind : s.Fits a b m ahi n bhi) (touch : r.i + r.size = s.i ∧ r.j + r.size = s.j) :
    Run.Fits a b alo ahi blo bhi ⟨r.i, r.j, r.size + s.size⟩ := by
  obtain ⟨first, second⟩ := touch
  have ends := behind.inFirst.2
  have ends' := behind.inSecond.2
  refine ⟨fun k inside => ?_, ⟨fits.inFirst.1, by dsimp only; omega⟩,
    ⟨fits.inSecond.1, by dsimp only; omega⟩⟩
  rcases Nat.lt_or_ge k r.size with before | later
  · exact fits.same k before
  · dsimp only at inside ⊢
    have moved := behind.same (k - r.size) (by omega)
    rwa [show s.i + (k - r.size) = r.i + k by omega, show s.j + (k - r.size) = r.j + k by omega] at moved

/-! ## Growing a run -/

/-- A run grown to the front fits. -/
lemma fits_growFront (fits : r.Fits a b alo ahi blo bhi) (n : Nat) :
    (growFront a b alo blo n r).Fits a b alo ahi blo bhi := by
  induction n generalizing r with
  | zero => exact fits
  | succ n ih =>
    rw [growFront]
    split
    · rename_i grows
      simp only [Bool.and_eq_true, decide_eq_true_eq] at grows
      obtain ⟨⟨first, second⟩, line⟩ := grows
      obtain ⟨same, inFirst, inSecond⟩ := fits
      refine ih ⟨fun k inside => ?_, by dsimp only; omega, by dsimp only; omega⟩
      cases k with
      | zero => exact line
      | succ k =>
        have moved := same k (by dsimp only at inside; omega)
        dsimp only
        rwa [show r.i - 1 + (k + 1) = r.i + k by omega, show r.j - 1 + (k + 1) = r.j + k by omega]
    · exact fits

/-- A run grown to the back fits. -/
lemma fits_growBack (fits : r.Fits a b alo ahi blo bhi) (n : Nat) :
    (growBack a b ahi bhi n r).Fits a b alo ahi blo bhi := by
  induction n generalizing r with
  | zero => exact fits
  | succ n ih =>
    rw [growBack]
    split
    · rename_i grows
      simp only [Bool.and_eq_true, decide_eq_true_eq] at grows
      obtain ⟨⟨first, second⟩, line⟩ := grows
      exact ih (fits.extend line first second)
    · exact fits

/-! ## The longest run -/

/-- The places of a line have the line. -/
lemma mem_placesFrom {line : Text} {pos j : Nat} {ls : List Text}
    (mem : j ∈ placesFrom line pos ls) : pos ≤ j ∧ ls[j - pos]? = some line := by
  induction ls generalizing pos with
  | nil => cases mem
  | cons l ls ih =>
    have later : j ∈ placesFrom line (pos + 1) ls → pos ≤ j ∧ (l :: ls)[j - pos]? = some line := by
      intro mem
      obtain ⟨behind, stands⟩ := ih mem
      refine ⟨by omega, ?_⟩
      rwa [show j - pos = (j - (pos + 1)) + 1 by omega, List.getElem?_cons_succ]
    rw [placesFrom] at mem
    split at mem
    · rename_i here
      rcases List.mem_cons.1 mem with rfl | mem
      · exact ⟨Nat.le_refl j, by rw [Nat.sub_self, List.getElem?_cons_zero, here]⟩
      · exact later mem
    · exact later mem

/-- The places that count have the line. -/
lemma getElem?_of_mem_places {line : Text} {j : Nat} (mem : j ∈ places b line) :
    b[j]? = some line := by
  unfold places at mem
  split at mem
  · cases mem
  · exact (mem_placesFrom mem).2

/-- Up to line `i` of the first list and up to the place `e.1` in the second, that line included,
`e.2` lines are the same. -/
def EndsAt (a b : List Text) (alo ahi blo bhi i : Nat) (e : Nat × Nat) : Prop :=
  ∃ r : Run, r.Fits a b alo ahi blo bhi ∧ r.size = e.2 ∧ r.i + r.size = i ∧ r.j + r.size = e.1 + 1

/-- The length of the run up to a place, as the lengths of those that end one line above tell it. -/
def lengthAt (before : List (Nat × Nat)) (j : Nat) : Nat :=
  (if j = 0 then 0 else (before.lookup (j - 1)).getD 0) + 1

/-- What is looked up is listed. -/
lemma mem_of_lookup {before : List (Nat × Nat)} {j k : Nat} (found : before.lookup j = some k) :
    (j, k) ∈ before := by
  obtain ⟨front, back, rfl, -⟩ := List.lookup_eq_some_iff.1 found
  exact List.mem_append_right front List.mem_cons_self

/-- One more place of a line extends the run before it. -/
lemma extendRuns_cons (i j : Nat) (before now : List (Nat × Nat)) (js : List Nat) (best : Run) :
    extendRuns i before (j :: js) now best =
      extendRuns i before js ((j, lengthAt before j) :: now)
        (if best.size < lengthAt before j then
          ⟨i + 1 - lengthAt before j, j + 1 - lengthAt before j, lengthAt before j⟩
        else best) :=
  rfl

/-- One line further a run that ended above goes on, and where none did, one begins. -/
lemma endsAt_lengthAt {i j : Nat} {before : List (Nat × Nat)}
    (above : ∀ e ∈ before, EndsAt a b alo ahi blo bhi i e) (same : sameLine a b i j = true)
    (first : alo ≤ i ∧ i < ahi) (second : blo ≤ j ∧ j < bhi) :
    EndsAt a b alo ahi blo bhi (i + 1) (j, lengthAt before j) := by
  have start : ∃ r : Run, r.Fits a b alo ahi blo bhi ∧ r.size + 1 = lengthAt before j ∧
      r.i + r.size = i ∧ r.j + r.size = j := by
    have fresh : Run.Fits a b alo ahi blo bhi ⟨i, j, 0⟩ := .empty (by omega) (by omega)
    unfold lengthAt
    split
    · exact ⟨_, fresh, rfl, rfl, rfl⟩
    · rename_i inner
      cases found : before.lookup (j - 1) with
      | none => exact ⟨_, fresh, rfl, rfl, rfl⟩
      | some k =>
        obtain ⟨r, fits, size, left, right⟩ := above _ (mem_of_lookup found)
        exact ⟨r, fits, congrArg (· + 1) size, left, by dsimp only at right; omega⟩
  obtain ⟨r, fits, size, left, right⟩ := start
  refine ⟨_, fits.extend ?_ (by omega) (by omega), size, ?_, ?_⟩
  · rwa [left, right]
  · dsimp only
    omega
  · dsimp only
    omega

/-- Runs extended by a line end behind it, and the best fits. -/
lemma fits_extendRuns {i : Nat} {line : Text} {before : List (Nat × Nat)}
    (above : ∀ e ∈ before, EndsAt a b alo ahi blo bhi i e) (stands : a[i]? = some line)
    (first : alo ≤ i ∧ i < ahi) {js : List Nat}
    (listed : ∀ j ∈ js, b[j]? = some line ∧ blo ≤ j ∧ j < bhi) {now : List (Nat × Nat)}
    (ended : ∀ e ∈ now, EndsAt a b alo ahi blo bhi (i + 1) e) {best : Run}
    (fits : best.Fits a b alo ahi blo bhi) :
    (∀ e ∈ (extendRuns i before js now best).1, EndsAt a b alo ahi blo bhi (i + 1) e) ∧
      (extendRuns i before js now best).2.Fits a b alo ahi blo bhi := by
  induction js generalizing now best with
  | nil => exact ⟨ended, fits⟩
  | cons j js ih =>
    obtain ⟨⟨there, second⟩, later⟩ := List.forall_mem_cons.1 listed
    have ends := endsAt_lengthAt above (sameLine_iff.2 ⟨line, stands, there⟩) first second
    rw [extendRuns_cons]
    refine ih later (List.forall_mem_cons.2 ⟨ends, ended⟩) ?_
    split
    · obtain ⟨r, found, size, left, right⟩ := ends
      dsimp only at size right
      rwa [show i + 1 - lengthAt before j = r.i by omega,
        show j + 1 - lengthAt before j = r.j by omega, ← size]
    · exact fits

/-- The best of the runs over the lines to come fits. -/
lemma fits_longestFrom {ls : List Text} {i : Nat} {before : List (Nat × Nat)} {best : Run}
    (listed : ∀ k line, ls[k]? = some line → a[i + k]? = some line)
    (first : alo ≤ i ∧ i + ls.length ≤ ahi)
    (above : ∀ e ∈ before, EndsAt a b alo ahi blo bhi i e)
    (fits : best.Fits a b alo ahi blo bhi) :
    (longestFrom b blo bhi ls i before best).Fits a b alo ahi blo bhi := by
  induction ls generalizing i before best with
  | nil => exact fits
  | cons line ls ih =>
    rw [List.length_cons] at first
    have inner : ∀ j ∈ (places b line).filter (fun j => blo ≤ j && j < bhi),
        b[j]? = some line ∧ blo ≤ j ∧ j < bhi := by
      intro j mem
      obtain ⟨there, inside⟩ := List.mem_filter.1 mem
      rw [Bool.and_eq_true, decide_eq_true_eq, decide_eq_true_eq] at inside
      exact ⟨getElem?_of_mem_places there, inside⟩
    have extended := fits_extendRuns above (listed 0 line rfl) (by omega) inner
      (List.forall_mem_nil _) fits
    refine ih (fun k l stands => ?_) (by omega) extended.1 extended.2
    rw [Nat.add_assoc, Nat.add_comm 1]
    exact listed (k + 1) l stands

/-- The longest run fits. -/
theorem fits_longest (first : alo ≤ ahi ∧ ahi ≤ a.length) (second : blo ≤ bhi) :
    (longest a b alo ahi blo bhi).Fits a b alo ahi blo bhi := by
  refine fits_growBack (fits_growFront (fits_longestFrom (fun k line stands => ?_) ?_
    (List.forall_mem_nil _) (.empty (by omega) (by omega))) _) _
  · rw [List.getElem?_take] at stands
    split at stands
    · rwa [List.getElem?_drop] at stands
    · cases stands
  · rw [List.length_take, List.length_drop]
    omega

/-! ## Runs in order -/

/-- Runs that are not empty and follow each other in the given ranges. -/
def InOrder (a b : List Text) : Nat → Nat → Nat → Nat → List Run → Prop
  | _, _, _, _, [] => True
  | alo, ahi, blo, bhi, r :: rs =>
    0 < r.size ∧ r.Fits a b alo ahi blo bhi ∧ InOrder a b (r.i + r.size) ahi (r.j + r.size) bhi rs

/-- A run between runs in order. -/
lemma InOrder.append {rs ss : List Run} (before : InOrder a b alo r.i blo r.j rs)
    (proper : 0 < r.size) (fits : r.Fits a b alo ahi blo bhi)
    (behind : InOrder a b (r.i + r.size) ahi (r.j + r.size) bhi ss) :
    InOrder a b alo ahi blo bhi (rs ++ [r] ++ ss) := by
  induction rs generalizing alo blo with
  | nil => exact ⟨proper, fits, behind⟩
  | cons s rs ih =>
    obtain ⟨filled, inner, rest⟩ := before
    have first := inner.inFirst
    have second := inner.inSecond
    have ends := fits.inFirst.2
    have ends' := fits.inSecond.2
    refine ⟨filled, inner.widen (by omega) (by omega), ih rest ?_⟩
    exact ⟨fits.same, by omega, by omega⟩

/-- The runs found are in order. -/
lemma inOrder_runsIn (fuel : Nat) (first : alo ≤ ahi ∧ ahi ≤ a.length) (second : blo ≤ bhi) :
    InOrder a b alo ahi blo bhi (runsIn a b fuel alo ahi blo bhi) := by
  induction fuel generalizing alo ahi blo bhi with
  | zero => trivial
  | succ fuel ih =>
    have fits := fits_longest (b := b) first second
    rw [runsIn]
    generalize longest a b alo ahi blo bhi = r at fits
    have left := fits.inFirst
    have right := fits.inSecond
    split
    · trivial
    · rename_i filled
      refine .append ?_ (Nat.pos_of_ne_zero filled) fits ?_
      · split
        · exact ih (by omega) (by omega)
        · trivial
      · split
        · exact ih (by omega) (by omega)
        · trivial

/-- Runs joined stay in order. -/
lemma inOrder_joinRuns {rs : List Run} (fits : r.Fits a b alo ahi blo bhi)
    (behind : InOrder a b (r.i + r.size) ahi (r.j + r.size) bhi rs) :
    InOrder a b alo ahi blo bhi (joinRuns r rs) := by
  induction rs generalizing r alo blo with
  | nil =>
    rw [joinRuns]
    split
    · trivial
    · rename_i filled
      exact ⟨Nat.pos_of_ne_zero filled, fits, trivial⟩
  | cons s rs ih =>
    obtain ⟨proper, next, rest⟩ := behind
    rw [joinRuns]
    split
    · rename_i touch
      simp only [Bool.and_eq_true, decide_eq_true_eq] at touch
      refine ih (fits.join next touch) ?_
      dsimp only
      rwa [← Nat.add_assoc, ← Nat.add_assoc, touch.1, touch.2]
    · split
      · rename_i empty
        have left := fits.inFirst
        have right := fits.inSecond
        exact ih (next.widen (by omega) (by omega)) rest
      · rename_i filled
        exact ⟨Nat.pos_of_ne_zero filled, fits, ih next rest⟩

/-- The runs of two lists, the closing one aside, follow each other in both. -/
theorem inOrder_runs (a b : List Text) : ∃ rs, runs a b = rs ++ [⟨a.length, b.length, 0⟩] ∧
    InOrder a b 0 a.length 0 b.length rs := by
  refine ⟨_, rfl, inOrder_joinRuns (.empty (by omega) (by omega)) ?_⟩
  exact inOrder_runsIn _ ⟨Nat.zero_le _, Nat.le_refl _⟩ (Nat.zero_le _)

/-! ## Equal lists -/

/-- How many lines in a row up to line `i` come rarely enough to start a run. -/
def rareUpTo (a : List Text) : Nat → Nat
  | 0 => 0
  | i + 1 => if a[i]?.any (!isPopular a ·) then rareUpTo a i + 1 else 0

/-- The best run so far lies on the diagonal, and is as long as any row of rare lines up to line `i`. -/
structure OnDiagonal (a : List Text) (i : Nat) (best : Run) : Prop where
  diagonal : best.i = best.j
  longest : ∀ k ≤ i, rareUpTo a k ≤ best.size

/-- The lengths of the runs that end above line `i` are bounded by the rows of rare lines on both sides,
and on the diagonal they are those rows. -/
structure Bounded (a : List Text) (i : Nat) (before : List (Nat × Nat)) : Prop where
  bound : ∀ e ∈ before, e.2 ≤ rareUpTo a i ∧ e.2 ≤ rareUpTo a (e.1 + 1)
  diagonal : lengthAt before i = rareUpTo a i + 1

/-- One more line that is not popular. -/
lemma rareUpTo_succ {i : Nat} {line : Text} (stands : a[i]? = some line)
    (rare : isPopular a line = false) : rareUpTo a (i + 1) = rareUpTo a i + 1 := by
  rw [rareUpTo, stands, Option.any_some, rare, if_pos]
  rfl

/-- No run is longer than the lines that are not popular. -/
lemma Bounded.lengthAt_le {i j : Nat} {before : List (Nat × Nat)} {line : Text}
    (bounded : Bounded a i before) (stands : a[i]? = some line) (there : a[j]? = some line)
    (rare : isPopular a line = false) :
    lengthAt before j ≤ rareUpTo a (i + 1) ∧ lengthAt before j ≤ rareUpTo a (j + 1) := by
  rw [rareUpTo_succ stands rare, rareUpTo_succ there rare]
  unfold lengthAt
  split
  · omega
  · rename_i inner
    cases found : before.lookup (j - 1) with
    | none =>
      rw [Option.getD_none]
      omega
    | some k =>
      have bound := bounded.bound _ (mem_of_lookup found)
      rw [Option.getD_some]
      dsimp only at bound
      rw [show j - 1 + 1 = j by omega] at bound
      omega

/-- One more place of a line leaves the best run on the diagonal: before the diagonal a run is no longer
than one that was met there, and behind it none is longer than the one on it. -/
lemma OnDiagonal.extend {i j k : Nat} {best : Run} (on : OnDiagonal a i best)
    (short : k ≤ rareUpTo a (i + 1) ∧ k ≤ rareUpTo a (j + 1))
    (passed : i < j → rareUpTo a (i + 1) ≤ best.size) :
    OnDiagonal a i (if best.size < k then ⟨i + 1 - k, j + 1 - k, k⟩ else best) := by
  split
  · rename_i longer
    -- only on the diagonal itself can a run be longer
    have here : i = j := by
      rcases Nat.lt_trichotomy i j with beyond | here | early
      · have long := passed beyond
        omega
      · exact here
      · have long := on.longest (j + 1) early
        omega
    subst here
    refine ⟨rfl, fun l inside => ?_⟩
    have long := on.longest l inside
    dsimp only
    omega
  · exact on

/-- Along the places of a rare line, in order, the best run stays on the diagonal. -/
lemma onDiagonal_extendRuns {i : Nat} {before : List (Nat × Nat)} {line : Text}
    (bounded : Bounded a i before) (stands : a[i]? = some line) (rare : isPopular a line = false)
    {js : List Nat} (listed : ∀ j ∈ js, a[j]? = some line) (ascending : js.Pairwise (· < ·))
    {now : List (Nat × Nat)} {best : Run} (on : OnDiagonal a i best)
    (bound : ∀ e ∈ now, e.2 ≤ rareUpTo a (i + 1) ∧ e.2 ≤ rareUpTo a (e.1 + 1))
    (met : i ∈ js ∨ rareUpTo a (i + 1) ≤ best.size ∧ now.lookup i = some (rareUpTo a (i + 1))) :
    OnDiagonal a (i + 1) (extendRuns i before js now best).2 ∧
      Bounded a (i + 1) (extendRuns i before js now best).1 := by
  induction js generalizing now best with
  | nil =>
    obtain ⟨long, found⟩ := met.resolve_left List.not_mem_nil
    refine ⟨⟨on.diagonal, fun k inside => ?_⟩, bound, ?_⟩
    · rcases Nat.lt_succ_iff_lt_or_eq.1 (Nat.lt_succ_of_le inside) with before | rfl
      · exact on.longest k (by omega)
      · exact long
    · rw [extendRuns, lengthAt, if_neg (Nat.succ_ne_zero i), Nat.add_sub_cancel, found]
      rfl
  | cons j js ih =>
    obtain ⟨there, listed⟩ := List.forall_mem_cons.1 listed
    obtain ⟨behind, ascending⟩ := List.pairwise_cons.1 ascending
    have short := bounded.lengthAt_le stands there rare
    rw [extendRuns_cons]
    refine ih listed ascending (on.extend short fun beyond => ?_)
      (List.forall_mem_cons.2 ⟨short, bound⟩) ?_
    · have passed : i ∉ j :: js := by
        rintro (_ | ⟨_, mem⟩)
        · exact Nat.lt_irrefl _ beyond
        · exact Nat.lt_asymm beyond (behind i mem)
      exact (met.resolve_left passed).1
    · by_cases here : i = j
      · right
        subst here
        rw [bounded.diagonal, ← rareUpTo_succ stands rare]
        refine ⟨?_, by rw [List.lookup_cons_self]⟩
        split
        · exact Nat.le_refl _
        · omega
      · rcases met with mem | ⟨long, found⟩
        · exact .inl ((List.mem_cons.1 mem).resolve_left here)
        · right
          rw [List.lookup_cons, beq_false_of_ne here]
          refine ⟨?_, found⟩
          split
          · dsimp only
            omega
          · exact long

/-- Places are listed in order. -/
lemma pairwise_placesFrom (line : Text) (pos : Nat) (ls : List Text) :
    (placesFrom line pos ls).Pairwise (· < ·) := by
  induction ls generalizing pos with
  | nil => exact .nil
  | cons l ls ih =>
    rw [placesFrom]
    split
    · refine .cons (fun j mem => ?_) (ih _)
      exact (mem_placesFrom mem).1
    · exact ih _

/-- All places of a line are listed. -/
lemma placesFrom_complete {line : Text} {pos j : Nat} {ls : List Text}
    (stands : ls[j]? = some line) : pos + j ∈ placesFrom line pos ls := by
  induction ls generalizing pos j with
  | nil => cases stands
  | cons l ls ih =>
    rw [placesFrom]
    cases j with
    | zero =>
      obtain rfl : l = line := Option.some.inj stands
      rw [if_pos rfl]
      exact List.mem_cons_self
    | succ j =>
      have later : pos + (j + 1) ∈ placesFrom line (pos + 1) ls := by
        rw [← Nat.add_assoc, Nat.add_right_comm]
        exact ih stands
      split
      · exact List.mem_cons_of_mem pos later
      · exact later

/-- Against itself a list has its longest run on the diagonal. -/
lemma onDiagonal_longestFrom {ls : List Text} {i : Nat} {before : List (Nat × Nat)} {best : Run}
    (listed : a = a.take i ++ ls) (inside : i ≤ a.length) (on : OnDiagonal a i best)
    (bounded : Bounded a i before) :
    (longestFrom a 0 a.length ls i before best).i = (longestFrom a 0 a.length ls i before best).j := by
  induction ls generalizing i before best with
  | nil => exact on.diagonal
  | cons line ls ih =>
    have stands : a[i]? = some line := by
      rw [listed, List.getElem?_append_right (List.length_take_le i a), List.length_take_of_le inside,
        Nat.sub_self, List.getElem?_cons_zero]
    have here : i < a.length := (List.getElem?_eq_some_iff.1 stands).1
    have rest : a = a.take (i + 1) ++ ls := by
      rw [List.take_add_one, stands, Option.toList_some, List.append_assoc]
      exact listed
    rw [longestFrom]
    cases rare : isPopular a line with
    | true =>
      -- no run passes a popular line, so rows of rare lines start anew
      have zero : rareUpTo a (i + 1) = 0 := by
        rw [rareUpTo, stands, Option.any_some, rare]
        exact if_neg Bool.false_ne_true
      have places : places a line = [] := if_pos rare
      rw [places]
      refine ih rest here ⟨on.diagonal, fun k bound => ?_⟩ ⟨List.forall_mem_nil _, ?_⟩
      · rcases Nat.lt_succ_iff_lt_or_eq.1 (Nat.lt_succ_of_le bound) with early | rfl
        · exact on.longest k (by omega)
        · rw [zero]
          exact Nat.zero_le _
      · rw [zero]
        rfl
    | false =>
      have places : (places a line).filter (fun j => 0 ≤ j && j < a.length) = placesFrom line 0 a := by
        rw [LineDiff.places, rare, if_neg Bool.false_ne_true, List.filter_eq_self]
        intro j mem
        have there := (mem_placesFrom mem).2
        rw [Nat.sub_zero] at there
        simpa using (List.getElem?_eq_some_iff.1 there).1
      have met : i ∈ placesFrom line 0 a := by
        rw [← Nat.zero_add i]
        exact placesFrom_complete stands
      have bounds : ∀ e ∈ ([] : List (Nat × Nat)), e.2 ≤ rareUpTo a (i + 1) ∧ e.2 ≤ rareUpTo a (e.1 + 1) :=
        List.forall_mem_nil _
      have extended := onDiagonal_extendRuns bounded stands rare
        (fun j mem => by simpa using (mem_placesFrom mem).2) (pairwise_placesFrom line 0 a) on bounds
        (.inl met)
      rw [places]
      exact ih rest here extended.1 extended.2

/-- A line is the same as itself. -/
lemma sameLine_self {i : Nat} (inside : i < a.length) : sameLine a a i i = true :=
  sameLine_iff.2 ⟨a[i], List.getElem?_eq_getElem inside, List.getElem?_eq_getElem inside⟩

/-- On the diagonal a run grows to the start. -/
lemma growFront_self {n : Nat} (diagonal : r.i = r.j) (inside : r.i ≤ a.length) (enough : r.i ≤ n) :
    growFront a a 0 0 n r = ⟨0, 0, r.i + r.size⟩ := by
  induction n generalizing r with
  | zero =>
    obtain ⟨i, j, size⟩ := r
    obtain rfl : i = j := diagonal
    obtain rfl : i = 0 := Nat.le_zero.1 enough
    rw [growFront, Nat.zero_add]
  | succ n ih =>
    obtain ⟨i, j, size⟩ := r
    obtain rfl : i = j := diagonal
    dsimp only at inside enough ⊢
    rw [growFront]
    dsimp only
    cases i with
    | zero => simp
    | succ i =>
      rw [Nat.add_sub_cancel, sameLine_self (by omega), if_pos (by simp), ih rfl (by dsimp only; omega)
        (by dsimp only; omega)]
      congr 1
      dsimp only
      omega

/-- On the diagonal a run grows to the end. -/
lemma growBack_self {n k : Nat} (inside : k ≤ a.length) (enough : a.length ≤ n + k) :
    growBack a a a.length a.length n ⟨0, 0, k⟩ = ⟨0, 0, a.length⟩ := by
  induction n generalizing k with
  | zero =>
    obtain rfl : k = a.length := by omega
    rw [growBack]
  | succ n ih =>
    rw [growBack]
    dsimp only
    rw [Nat.zero_add]
    rcases Nat.lt_or_ge k a.length with short | whole
    · rw [sameLine_self short, if_pos (by simp [short]), ih short (by omega)]
    · obtain rfl : k = a.length := by omega
      simp

/-- The longest run of a list against itself is the list. -/
lemma longest_self (a : List Text) : longest a a 0 a.length 0 a.length = ⟨0, 0, a.length⟩ := by
  have start : OnDiagonal a 0 ⟨0, 0, 0⟩ := by
    refine ⟨rfl, fun k inside => ?_⟩
    rw [Nat.le_zero.1 inside]
    exact Nat.le_refl 0
  have bounded : Bounded a 0 [] := ⟨List.forall_mem_nil _, rfl⟩
  have diagonal := onDiagonal_longestFrom rfl (Nat.zero_le _) start bounded
  have fits : (longestFrom a 0 a.length a 0 [] ⟨0, 0, 0⟩).Fits a a 0 a.length 0 a.length := by
    refine fits_longestFrom (fun k line stands => ?_) (by omega) (List.forall_mem_nil _)
      (.empty (by omega) (by omega))
    rwa [Nat.zero_add]
  have ends := fits.inFirst.2
  rw [longest, List.drop_zero, Nat.sub_zero, List.take_length]
  rw [growFront_self diagonal (by omega) (by omega), growBack_self (by omega) (by omega)]

/-- Two equal lists have one run, the whole of them, unless they are empty. -/
theorem runs_self (a : List Text) :
    runs a a = (if a.length = 0 then [] else [⟨0, 0, a.length⟩]) ++ [⟨a.length, a.length, 0⟩] := by
  rw [runs, runsIn, longest_self]
  split
  · rfl
  · rename_i filled
    simp only [Nat.lt_irrefl, decide_false, Bool.and_self, Bool.false_eq_true, if_false,
      Nat.zero_add, List.append_nil, List.nil_append, joinRuns, decide_true, if_true]
    rw [if_neg filled]

end Phrasebook.LineDiff
