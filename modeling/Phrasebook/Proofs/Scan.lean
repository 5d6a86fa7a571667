import Mathlib.Tactic.Lemma
import Phrasebook.Comment

/-!
# Cutting and scanning texts

What the operations on texts promise to the modules behind them: where a slice stands in its text,
how far a search reaches, when two ranges are apart, and how the hits of a scan lie. `Shape.Fits`
asks of a shape that it takes at least one character and none behind the end. The hits of such a
shape are in bounds, in order and apart (`hits_bounds`, `hits_pairwise`), and each is what the shape
reads at its place (`hits_read`).
-/

namespace Phrasebook

namespace Text

lemma length_slice {t : Text} {i j : Nat} (h : j ≤ t.length) : (slice t i j).length = j - i := by
  simp only [slice, List.length_take, List.length_drop]
  omega

lemma length_slice_le (t : Text) (i j : Nat) :
    (slice t i j).length ≤ j - i ∧ (slice t i j).length ≤ t.length - i := by
  simp only [slice, List.length_take, List.length_drop]
  omega

lemma le_length_of_length_slice {t : Text} {i j : Nat} (pos : i < j)
    (h : (slice t i j).length = j - i) : j ≤ t.length := by
  have bound := (length_slice_le t i j).2
  omega

lemma getElem?_slice (t : Text) (i j k : Nat) :
    (slice t i j)[k]? = if k < j - i then t[i + k]? else none := by
  rw [slice, List.getElem?_take, List.getElem?_drop]

lemma drop_eq_slice_append (t : Text) {i j : Nat} (h : i ≤ j) :
    t.drop i = slice t i j ++ t.drop j := by
  have split := List.take_append_drop (j - i) (t.drop i)
  rw [List.drop_drop, Nat.add_sub_cancel' h] at split
  exact split.symm

lemma slice_append_slice {i j k : Nat} (first : i ≤ k) (second : k ≤ j) (t : Text) :
    slice t i k ++ slice t k j = slice t i j := by
  have size : j - i = k - i + (j - k) := by omega
  rw [slice, slice, slice, size, List.take_add, List.drop_drop, Nat.add_sub_cancel' first]

lemma slice_of_le {a : Text} {j : Nat} (within : j ≤ a.length) (b : Text) (i : Nat) :
    slice (a ++ b) i j = slice a i j := by
  by_cases order : i ≤ j
  · rw [slice, slice, List.drop_append_of_le_length (by omega),
      List.take_append_of_le_length (by rw [List.length_drop]; omega)]
  · have zero : j - i = 0 := by omega
    rw [slice, slice, zero, List.take_zero, List.take_zero]

lemma slice_to_end (a b : Text) (i : Nat) : slice (a ++ b) i a.length = a.drop i := by
  rw [slice_of_le (Nat.le_refl _), slice, List.take_of_length_le (Nat.le_of_eq List.length_drop)]

/-- A text is its front run, the character behind the run, and a rest. -/
lemma eq_run_append {p : Char → Bool} {t : Text} {c : Char}
    (next : (t.drop (t.takeWhile p).length).head? = some c) :
    ∃ rest, t = t.takeWhile p ++ c :: rest := by
  obtain ⟨rest, split⟩ := List.takeWhile_prefix (l := t) p
  have behind := congrArg (List.drop (t.takeWhile p).length) split
  rw [List.drop_left] at behind
  rw [← behind] at next
  cases rest with
  | nil => cases next
  | cons d ds =>
    obtain rfl : d = c := Option.some.inj next
    exact ⟨ds, split.symm⟩

/-- A text found in another one fits behind its offset. -/
lemma find?_add_le {p t : Text} {i : Nat} (h : find? p t = some i) : i + p.length ≤ t.length := by
  induction t generalizing i with
  | nil =>
    simp only [find?] at h
    split at h
    · rename_i empty
      cases h
      simp [List.isEmpty_iff.1 empty]
    · cases h
  | cons c cs ih =>
    simp only [find?] at h
    split at h
    · rename_i front
      cases h
      simpa using (List.isPrefixOf_iff_prefix.1 front).length_le
    · obtain ⟨j, found, rfl⟩ := Option.map_eq_some_iff.1 h
      have bound := ih found
      simp only [List.length_cons]
      omega

/-- A scan for a piece finds it wherever it stands. -/
lemma mem_occurrencesFrom {p t : Text} (pos : Nat) {i : Nat} (stands : p <+: t.drop i)
    (inside : i ≤ t.length) : pos + i ∈ occurrencesFrom p pos t := by
  induction t generalizing pos i with
  | nil =>
    obtain rfl : i = 0 := Nat.le_zero.1 inside
    cases List.prefix_nil.1 stands
    exact List.mem_singleton_self pos
  | cons c cs ih =>
    unfold occurrencesFrom
    cases i with
    | zero =>
      have front : p.isPrefixOf (c :: cs) = true := List.isPrefixOf_iff_prefix.2 stands
      rw [if_pos front]
      exact List.mem_cons_self
    | succ i =>
      have later : pos + (i + 1) ∈ occurrencesFrom p (pos + 1) cs := by
        have found := ih (pos + 1) stands (Nat.le_of_succ_le_succ inside)
        rwa [Nat.add_assoc, Nat.add_comm 1] at found
      split
      · exact List.mem_cons_of_mem pos later
      · exact later

/-- What a scan for a piece finds stands there. -/
lemma prefix_of_mem_occurrencesFrom {p t : Text} {pos i : Nat} (mem : i ∈ occurrencesFrom p pos t) :
    pos ≤ i ∧ p <+: t.drop (i - pos) := by
  induction t generalizing pos with
  | nil =>
    unfold occurrencesFrom at mem
    split at mem
    · rename_i empty
      obtain rfl := List.mem_singleton.1 mem
      exact ⟨Nat.le_refl _, by rw [List.isEmpty_iff.1 empty]; exact List.nil_prefix⟩
    · cases mem
  | cons c cs ih =>
    have later : i ∈ occurrencesFrom p (pos + 1) cs → pos ≤ i ∧ p <+: (c :: cs).drop (i - pos) := by
      intro mem
      obtain ⟨behind, front⟩ := ih mem
      have next : i - pos = (i - (pos + 1)) + 1 := by omega
      exact ⟨by omega, by rwa [next, List.drop_succ_cons]⟩
    unfold occurrencesFrom at mem
    split at mem
    · rename_i front
      rcases List.mem_cons.1 mem with rfl | mem
      · exact ⟨Nat.le_refl _, by simpa using front⟩
      · exact later mem
    · exact later mem

/-- A scan for a piece stays inside the text. -/
lemma le_of_mem_occurrencesFrom {p t : Text} {pos i : Nat} (mem : i ∈ occurrencesFrom p pos t) :
    i ≤ pos + t.length := by
  induction t generalizing pos with
  | nil =>
    unfold occurrencesFrom at mem
    split at mem
    · exact Nat.le_of_eq (List.mem_singleton.1 mem)
    · cases mem
  | cons c cs ih =>
    rw [List.length_cons]
    have later : i ∈ occurrencesFrom p (pos + 1) cs → i ≤ pos + (cs.length + 1) := by
      intro mem
      have bound := ih mem
      omega
    unfold occurrencesFrom at mem
    split at mem
    · rcases List.mem_cons.1 mem with rfl | mem
      · exact Nat.le_add_right _ _
      · exact later mem
    · exact later mem

/-- The occurrences of a piece are the places where the text can be cut before and behind it. -/
lemma mem_occurrences_iff {p t : Text} {i : Nat} :
    i ∈ occurrences p t ↔ ∃ before rest, t = before ++ p ++ rest ∧ before.length = i := by
  constructor
  · intro mem
    obtain ⟨rest, stands⟩ := (prefix_of_mem_occurrencesFrom mem).2
    have inside := le_of_mem_occurrencesFrom mem
    rw [Nat.zero_add] at inside
    refine ⟨t.take i, rest, ?_, List.length_take_of_le inside⟩
    rw [List.append_assoc, stands, Nat.sub_zero, List.take_append_drop]
  · rintro ⟨before, rest, rfl, rfl⟩
    have stands : p <+: (before ++ p ++ rest).drop before.length := by
      rw [List.append_assoc, List.drop_left]
      exact List.prefix_append p rest
    have mem := mem_occurrencesFrom 0 stands (by simp only [List.length_append]; omega)
    rwa [Nat.zero_add] at mem

/-- A piece that is not empty occurs wherever the text goes on with it. -/
lemma mem_occurrences_of_ne_nil {p t : Text} {i : Nat} (nonempty : p ≠ []) :
    i ∈ occurrences p t ↔ p <+: t.drop i := by
  constructor
  · intro mem
    exact (prefix_of_mem_occurrencesFrom mem).2
  · intro stands
    have inside : i ≤ t.length := by
      have size := stands.length_le
      have positive := List.length_pos_iff.2 nonempty
      rw [List.length_drop] at size
      omega
    have mem := mem_occurrencesFrom 0 stands inside
    rwa [Nat.zero_add] at mem

/-- The occurrences of a piece come in ascending order. -/
lemma occurrencesFrom_pairwise (p : Text) (pos : Nat) (t : Text) :
    (occurrencesFrom p pos t).Pairwise (· < ·) := by
  induction t generalizing pos with
  | nil =>
    unfold occurrencesFrom
    split
    · exact List.pairwise_singleton _ _
    · exact List.Pairwise.nil
  | cons c cs ih =>
    unfold occurrencesFrom
    split
    · exact List.pairwise_cons.2 ⟨fun i mem => (prefix_of_mem_occurrencesFrom mem).1, ih (pos + 1)⟩
    · exact ih (pos + 1)

lemma getLast?_cons_or (c : Char) (t : Text) (prev : Option Char) :
    (c :: t).getLast?.or prev = t.getLast?.or (some c) := by
  rw [List.getLast?_cons]
  cases t.getLast? <;> rfl

/-- A place that passes a test is found behind any text. -/
lemma fitsFrom_append {test : Option Char → Text → Bool} {prev : Option Char} {before rest : Text}
    (fits : test (before.getLast?.or prev) rest = true) :
    fitsFrom test prev (before ++ rest) = true := by
  induction before generalizing prev with
  | nil =>
    cases rest with
    | nil => exact fits
    | cons c cs => exact Bool.or_eq_true_iff.2 (.inl fits)
  | cons c cs ih =>
    refine Bool.or_eq_true_iff.2 (.inr (ih ?_))
    rwa [getLast?_cons_or] at fits

/-- A place passes a test exactly if the text can be cut there. -/
lemma fitsFrom_iff {test : Option Char → Text → Bool} {prev : Option Char} {t : Text} :
    fitsFrom test prev t = true ↔
      ∃ before rest, t = before ++ rest ∧ test (before.getLast?.or prev) rest = true := by
  constructor
  · intro fits
    induction t generalizing prev with
    | nil => exact ⟨[], [], rfl, fits⟩
    | cons c cs ih =>
      rcases Bool.or_eq_true_iff.1 fits with here | later
      · exact ⟨[], c :: cs, rfl, here⟩
      · obtain ⟨before, rest, rfl, passes⟩ := ih later
        refine ⟨c :: before, rest, rfl, ?_⟩
        rwa [getLast?_cons_or]
  · rintro ⟨before, rest, rfl, passes⟩
    exact fitsFrom_append passes

end Text

namespace Span

/-- Two ranges without a common offset. -/
def Apart (a b : Span) : Prop :=
  a.stop ≤ b.start ∨ b.stop ≤ a.start

instance (a b : Span) : Decidable (Apart a b) :=
  inferInstanceAs (Decidable (_ ∨ _))

lemma Apart.symm {a b : Span} (h : Apart a b) : Apart b a :=
  Or.symm h

end Span

/-- A shape that takes at least one character and none behind the end of the text. -/
def Shape.Fits {α : Type} (shape : Shape α) : Prop :=
  ∀ prev t n a, shape prev t = some (n, a) → 0 < n ∧ n ≤ t.length

namespace Text

variable {α : Type} {shape : Shape α}

/-- Every hit of a scan lies behind what the scan passes over and inside the text. -/
lemma hitsFrom_bounds (fits : shape.Fits) {skip pos prev t} {h : Hit α}
    (mem : h ∈ hitsFrom shape skip pos prev t) :
    pos + skip ≤ h.start ∧ h.start < h.stop ∧ h.stop ≤ pos + t.length := by
  induction t generalizing skip pos prev with
  | nil => simp [hitsFrom] at mem
  | cons c cs ih =>
    simp only [List.length_cons]
    cases skip with
    | succ skip =>
      have bounds := ih (by simpa only [hitsFrom] using mem)
      omega
    | zero =>
      simp only [hitsFrom] at mem
      split at mem
      · rename_i n a read
        obtain ⟨positive, inside⟩ := fits _ _ _ _ read
        rw [List.length_cons] at inside
        rcases List.mem_cons.1 mem with rfl | mem
        · exact ⟨by simp, by simp; omega, by simp; omega⟩
        · have bounds := ih mem
          omega
      · have bounds := ih mem
        omega

/-- The hits of a scan come in order and do not overlap. -/
lemma hitsFrom_pairwise (fits : shape.Fits) (skip pos : Nat) (prev : Option Char) (t : Text) :
    (hitsFrom shape skip pos prev t).Pairwise fun a b => a.stop ≤ b.start := by
  induction t generalizing skip pos prev with
  | nil => simp [hitsFrom]
  | cons c cs ih =>
    cases skip with
    | succ skip => exact ih skip (pos + 1) (some c)
    | zero =>
      simp only [hitsFrom]
      split
      · rename_i n a read
        refine List.pairwise_cons.2 ⟨fun h mem => ?_, ih _ _ _⟩
        -- the scan goes on behind the characters that the first hit takes
        have behind := (hitsFrom_bounds fits mem).1
        have positive := (fits _ _ _ _ read).1
        show pos + n ≤ h.start
        omega
      · exact ih _ _ _

/-- Every hit of a scan is what the shape reads at its place, behind the character before it. -/
lemma hitsFrom_read {skip pos prev t} {h : Hit α} (mem : h ∈ hitsFrom shape skip pos prev t) :
    pos ≤ h.start ∧ shape ((t.take (h.start - pos)).getLast?.or prev) (t.drop (h.start - pos)) =
      some (h.stop - h.start, h.value) := by
  induction t generalizing skip pos prev with
  | nil => simp [hitsFrom] at mem
  | cons c cs ih =>
    have later : ∀ {skip}, h ∈ hitsFrom shape skip (pos + 1) (some c) cs →
        pos ≤ h.start ∧ shape (((c :: cs).take (h.start - pos)).getLast?.or prev)
          ((c :: cs).drop (h.start - pos)) = some (h.stop - h.start, h.value) := by
      intro skip mem
      obtain ⟨behind, read⟩ := ih mem
      have next : h.start - pos = (h.start - (pos + 1)) + 1 := by omega
      exact ⟨by omega, by rw [next, List.take_succ_cons, getLast?_cons_or, List.drop_succ_cons, read]⟩
    cases skip with
    | succ skip => exact later (by simpa only [hitsFrom] using mem)
    | zero =>
      simp only [hitsFrom] at mem
      split at mem
      · rename_i n a read
        rcases List.mem_cons.1 mem with rfl | mem
        · exact ⟨Nat.le_refl _, by simpa using read⟩
        · exact later mem
      · exact later mem

lemma hits_bounds (fits : shape.Fits) {t : Text} {h : Hit α} (mem : h ∈ hits shape t) :
    h.start < h.stop ∧ h.stop ≤ t.length := by
  have bounds := hitsFrom_bounds fits mem
  omega

lemma hits_read {t : Text} {h : Hit α} (mem : h ∈ hits shape t) :
    ∃ before, shape before (t.drop h.start) = some (h.stop - h.start, h.value) :=
  ⟨_, (hitsFrom_read mem).2⟩

lemma hits_read_behind {t : Text} {h : Hit α} (mem : h ∈ hits shape t) :
    shape (t.take h.start).getLast? (t.drop h.start) = some (h.stop - h.start, h.value) := by
  have read := (hitsFrom_read mem).2
  rwa [Option.or_none] at read

lemma hits_pairwise (fits : shape.Fits) (t : Text) :
    (hits shape t).Pairwise fun a b => a.stop ≤ b.start :=
  hitsFrom_pairwise fits 0 0 none t

end Text

end Phrasebook
