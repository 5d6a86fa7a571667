import Mathlib.Data.List.Induction
import Mathlib.Data.List.Pairwise
import Phrasebook.Buffer
import Phrasebook.Proofs.Scan

/-!
# Replacing ranges of a text at once

A patch is a range of a text with what takes its place. `Patch.substitute` replaces the ranges of
some patches at once, character by character, so it knows no order and no offsets of a changed text.
A buffer makes its edits one after another, each at an offset of the text as it is by then, and
carries offsets of the first text over by its log.

`Patch.buffer` is the buffer in which patches have been made one by one. For patches that fit the
text (`Patch.Fit`), one more patch is one more splice (`buffer_snoc`), and the log finds exactly the
ranges that no patch touches, at the place where the substitution puts them (`locate?_buffer`).
-/

namespace Phrasebook

/-- A range of a text with what takes its place. -/
structure Patch extends Span where
  /-- What takes the place of the range. -/
  text : Text
  deriving Repr, DecidableEq

namespace Edit

variable {e : Edit} {n pos : Nat}

/-- A range behind an edit moves with the text around it. -/
lemma shift?_of_stop_le (h : e.stop ≤ pos) :
    e.shift? n pos = some (pos + e.start + e.inserted - e.stop) :=
  if_pos h

/-- A range before an edit stays where it is. -/
lemma shift?_of_le_start (size : 0 < n) (order : e.start ≤ e.stop) (h : pos + n ≤ e.start) :
    e.shift? n pos = some pos := by
  rw [shift?, if_neg (by omega), if_neg (by omega)]

/-- A range that an edit overlaps is lost. -/
lemma shift?_of_overlap (before : pos < e.stop) (behind : e.start < pos + n) :
    e.shift? n pos = none := by
  rw [shift?, if_neg (by omega), if_pos behind]

lemma shift?_eq_none_iff : e.shift? n pos = none ↔ pos < e.stop ∧ e.start < pos + n := by
  constructor
  · intro lost
    unfold shift? at lost
    split at lost
    · cases lost
    · split at lost
      · rename_i reach before
        exact ⟨Nat.lt_of_not_le reach, before⟩
      · cases lost
  · rintro ⟨before, behind⟩
    exact shift?_of_overlap before behind

end Edit

namespace Patch

/-- What becomes of the character `c` at offset `i`: it stays outside the ranges, the first
character of a range makes way for the new text, and the others go. -/
def emit (ps : List Patch) (i : Nat) (c : Char) : Text :=
  match ps.find? (·.covers i) with
  | none => [c]
  | some p => if i = p.start then p.text else []

/-- Replaces the ranges of patches in the part of a text that starts at offset `i`. -/
def substituteFrom (ps : List Patch) : Nat → Text → Text
  | _, [] => []
  | i, c :: cs => emit ps i c ++ substituteFrom ps (i + 1) cs

/-- Replaces the ranges of patches in a text, all at once. -/
def substitute (ps : List Patch) (t : Text) : Text :=
  substituteFrom ps 0 t

/-- Whether patches fit a text of `n` characters: their ranges take a character, lie in the text and
are pairwise apart. -/
structure Fit (n : Nat) (ps : List Patch) : Prop where
  /-- The ranges take a character and lie in the text. -/
  bounds : ∀ p ∈ ps, p.start < p.stop ∧ p.stop ≤ n
  /-- No two ranges share an offset. -/
  apart : ps.Pairwise fun p q => p.toSpan.Apart q.toSpan

/-- Whether no patch touches a range. -/
def Clear (ps : List Patch) (s : Span) : Prop :=
  ∀ p ∈ ps, s.Apart p.toSpan

instance (ps : List Patch) (s : Span) : Decidable (Clear ps s) :=
  inferInstanceAs (Decidable (∀ p ∈ ps, s.Apart p.toSpan))

/-- Where an offset of a text is once patches have been made. -/
def place (t : Text) (ps : List Patch) (o : Nat) : Nat :=
  (substitute ps (t.take o)).length

/-- The edit that a patch makes in a text in which `done` have been made. -/
def editOf (t : Text) (done : List Patch) (q : Patch) : Edit :=
  ⟨place t done q.start, place t done q.start + (q.stop - q.start), q.text.length⟩

/-- The edits that patches make one by one in a text in which `done` have been made. -/
def logFrom (t : Text) : List Patch → List Patch → List Edit
  | _, [] => []
  | done, q :: qs => editOf t done q :: logFrom t (done ++ [q]) qs

/-- The buffer of a text in which patches have been made one by one. -/
def buffer (t : Text) (ps : List Patch) : Buffer :=
  ⟨substitute ps t, logFrom t [] ps⟩

variable {t : Text} {ps : List Patch} {q : Patch}

/-! ## Fitting patches -/

lemma Fit.nil (n : Nat) : Fit n [] :=
  ⟨nofun, List.Pairwise.nil⟩

lemma Fit.init {n qs} (fit : Fit n (ps ++ qs)) : Fit n ps := by
  refine ⟨fun p mem => fit.bounds p (List.mem_append_left _ mem), ?_⟩
  exact (List.pairwise_append.1 fit.apart).1

/-- The range of the last patch is clear of the others. -/
lemma Fit.clear_last {n} (fit : Fit n (ps ++ [q])) : Clear ps q.toSpan := by
  intro p mem
  have cross := (List.pairwise_append.1 fit.apart).2.2
  exact (cross p mem q (List.mem_singleton_self q)).symm

/-- One more patch fits if its range lies in the text and is clear of the others. -/
lemma Fit.snoc {n} (fit : Fit n ps) (size : q.start < q.stop) (inside : q.stop ≤ n)
    (clear : Clear ps q.toSpan) : Fit n (ps ++ [q]) := by
  constructor
  · intro p mem
    rcases List.mem_append.1 mem with mem | mem
    · exact fit.bounds p mem
    · cases List.mem_singleton.1 mem
      exact ⟨size, inside⟩
  · refine List.pairwise_append.2 ⟨fit.apart, List.pairwise_singleton _ _, fun p pmem r rmem => ?_⟩
    cases List.mem_singleton.1 rmem
    exact (clear p pmem).symm

lemma Fit.last_bounds {n} (fit : Fit n (ps ++ [q])) : q.start < q.stop ∧ q.stop ≤ n :=
  fit.bounds q (List.mem_append_right _ (List.mem_singleton_self q))

/-- Only one patch of a fitting list covers an offset. -/
lemma Fit.unique {n} (fit : Fit n ps) {p q : Patch} {i : Nat} (pmem : p ∈ ps) (qmem : q ∈ ps)
    (pcov : p.covers i = true) (qcov : q.covers i = true) : p = q := by
  by_contra differ
  have : Std.Symm fun p q : Patch => p.toSpan.Apart q.toSpan := ⟨fun _ _ => Span.Apart.symm⟩
  have away : p.toSpan.Apart q.toSpan := fit.apart.forall pmem qmem differ
  simp only [Span.covers, Bool.and_eq_true, decide_eq_true_eq] at pcov qcov
  unfold Span.Apart at away
  omega

/-! ## Substitution, piece by piece -/

/-- No patch covers an offset of a clear range. -/
lemma Clear.not_covers {s : Span} (clear : Clear ps s) {i : Nat} (low : s.start ≤ i)
    (high : i < s.stop) : ∀ p ∈ ps, p.covers i = false := by
  intro p mem
  have away := clear p mem
  unfold Span.Apart at away
  simp only [Span.covers, Bool.and_eq_false_iff, decide_eq_false_iff_not]
  omega

lemma Clear.mono {a b a' b' : Nat} (clear : Clear ps ⟨a, b⟩) (low : a ≤ a') (high : b' ≤ b) :
    Clear ps ⟨a', b'⟩ := by
  intro p mem
  have away := clear p mem
  simp only [Span.Apart] at away ⊢
  omega

lemma clear_nil (s : Span) : Clear [] s := by
  intro p mem
  cases mem

lemma clear_snoc {s : Span} : Clear (ps ++ [q]) s ↔ Clear ps s ∧ s.Apart q.toSpan := by
  simp only [Clear, List.mem_append, List.mem_singleton, or_imp, forall_and, forall_eq]

/-- A character that no patch covers stays. -/
lemma emit_of_not_covers {i : Nat} (c : Char) (free : ∀ p ∈ ps, p.covers i = false) :
    emit ps i c = [c] := by
  have missed : ps.find? (·.covers i) = none := by
    rw [List.find?_eq_none]
    intro p mem
    simp [free p mem]
  rw [emit, missed]

/-- What becomes of a character that a patch of a fitting list covers. -/
lemma emit_of_covers {n} (fit : Fit n ps) {i : Nat} (c : Char) (mem : q ∈ ps)
    (cov : q.covers i = true) : emit ps i c = if i = q.start then q.text else [] := by
  unfold emit
  split
  · rename_i none
    exact absurd cov (List.find?_eq_none.1 none q mem)
  · rename_i p found
    have pcov : p.covers i = true := List.find?_some (p := fun r : Patch => r.covers i) found
    rw [fit.unique (List.mem_of_find?_eq_some found) mem pcov cov]

lemma emit_snoc {i : Nat} (c : Char) (free : q.covers i = false) :
    emit (ps ++ [q]) i c = emit ps i c := by
  have last : [q].find? (·.covers i) = none := by simp [free]
  rw [emit, List.find?_append, last, Option.or_none, emit]

lemma substituteFrom_append (ps : List Patch) (i : Nat) (s r : Text) :
    substituteFrom ps i (s ++ r) = substituteFrom ps i s ++ substituteFrom ps (i + s.length) r := by
  induction s generalizing i with
  | nil => rfl
  | cons c cs ih =>
    simp only [List.cons_append, substituteFrom, ih, List.append_assoc, List.length_cons]
    rw [Nat.add_assoc, Nat.add_comm 1]

/-- A clear piece stays as it is. -/
lemma substituteFrom_of_clear {i : Nat} {s : Text} (clear : Clear ps ⟨i, i + s.length⟩) :
    substituteFrom ps i s = s := by
  induction s generalizing i with
  | nil => rfl
  | cons c cs ih =>
    have here := clear.not_covers (Nat.le_refl i) (by simp)
    have rest : Clear ps ⟨i + 1, i + 1 + cs.length⟩ :=
      clear.mono (Nat.le_succ i) (by simp only [List.length_cons]; omega)
    rw [substituteFrom, emit_of_not_covers c here, ih rest]
    rfl

/-- What stands behind the first character of a range goes. -/
lemma substituteFrom_within {n} (fit : Fit n ps) (mem : q ∈ ps) {i : Nat} {s : Text}
    (low : q.start < i) (high : i + s.length ≤ q.stop) : substituteFrom ps i s = [] := by
  induction s generalizing i with
  | nil => rfl
  | cons c cs ih =>
    simp only [List.length_cons] at high
    have cov : q.covers i = true := by
      simp only [Span.covers, Bool.and_eq_true, decide_eq_true_eq]
      omega
    rw [substituteFrom, emit_of_covers fit c mem cov, if_neg (by omega), ih (by omega) (by omega)]
    rfl

/-- The characters of a range make way for its new text. -/
lemma substituteFrom_range {n} (fit : Fit n ps) (mem : q ∈ ps) {s : Text}
    (size : s.length = q.stop - q.start) : substituteFrom ps q.start s = q.text := by
  have bounds := fit.bounds q mem
  cases s with
  | nil =>
    simp only [List.length_nil] at size
    omega
  | cons c cs =>
    simp only [List.length_cons] at size
    have cov : q.covers q.start = true := by
      simp only [Span.covers, Bool.and_eq_true, decide_eq_true_eq]
      omega
    rw [substituteFrom, emit_of_covers fit c mem cov, if_pos rfl,
      substituteFrom_within fit mem (by omega) (by omega), List.append_nil]

/-- A patch has no part in pieces apart from its range. -/
lemma substituteFrom_snoc {i : Nat} {s : Text} (away : Span.Apart ⟨i, i + s.length⟩ q.toSpan) :
    substituteFrom (ps ++ [q]) i s = substituteFrom ps i s := by
  induction s generalizing i with
  | nil => rfl
  | cons c cs ih =>
    simp only [Span.Apart, List.length_cons] at away ih
    have free : q.covers i = false := by
      simp only [Span.covers, Bool.and_eq_false_iff, decide_eq_false_iff_not]
      omega
    rw [substituteFrom, substituteFrom, emit_snoc c free, ih (by omega)]

/-- Substitution up to an offset, cut at an earlier one. -/
lemma substitute_take (ps : List Patch) {o o' : Nat} (h : o ≤ o') (inside : o' ≤ t.length) :
    substitute ps (t.take o') =
      substitute ps (t.take o) ++ substituteFrom ps o (Text.slice t o o') := by
  have first : (t.take o).length = o := by
    rw [List.length_take]
    omega
  have split : t.take o' = t.take o ++ Text.slice t o o' := by
    rw [Text.slice, ← List.take_add, Nat.add_sub_cancel' h]
  simp only [split, substitute, substituteFrom_append, first, Nat.zero_add]

/-- Substitution, cut at two offsets. -/
lemma substitute_cut (ps : List Patch) {o o' : Nat} (h : o ≤ o') (inside : o' ≤ t.length) :
    substitute ps t = substitute ps (t.take o) ++ substituteFrom ps o (Text.slice t o o') ++
      substituteFrom ps o' (t.drop o') := by
  have first : (t.take o').length = o' := by
    rw [List.length_take]
    omega
  rw [← substitute_take ps h inside, substitute, substitute]
  conv_lhs => rw [← List.take_append_drop o' t, substituteFrom_append, first, Nat.zero_add]

/-- A clear slice stays as it is. -/
lemma substituteFrom_slice {o o' : Nat} (h : o ≤ o') (inside : o' ≤ t.length)
    (clear : Clear ps ⟨o, o'⟩) : substituteFrom ps o (Text.slice t o o') = Text.slice t o o' := by
  apply substituteFrom_of_clear
  rwa [Text.length_slice inside, Nat.add_sub_cancel' h]

/-- One more patch replaces the slice of its range and leaves what stands around it. -/
lemma substitute_snoc {n} (fit : Fit n (ps ++ [q])) (inside : q.stop ≤ t.length) :
    substitute (ps ++ [q]) t = substitute ps (t.take q.start) ++ q.text ++
      substituteFrom ps q.stop (t.drop q.stop) := by
  have size := fit.last_bounds.1
  have before : substitute (ps ++ [q]) (t.take q.start) = substitute ps (t.take q.start) := by
    apply substituteFrom_snoc
    left
    simp only [List.length_take]
    omega
  have within : substituteFrom (ps ++ [q]) q.start (Text.slice t q.start q.stop) = q.text :=
    substituteFrom_range fit (List.mem_append_right _ (List.mem_singleton_self q))
      (Text.length_slice inside)
  have behind : substituteFrom (ps ++ [q]) q.stop (t.drop q.stop) =
      substituteFrom ps q.stop (t.drop q.stop) :=
    substituteFrom_snoc (Or.inr (Nat.le_refl _))
  rw [substitute_cut (ps ++ [q]) (Nat.le_of_lt size) inside, before, within, behind]

/-- The new text of a patch stands whole in the text with the patches. -/
lemma text_infix_substitute (fit : Fit t.length ps) (mem : q ∈ ps) :
    q.text <:+: substitute ps t := by
  obtain ⟨size, inside⟩ := fit.bounds q mem
  refine ⟨substitute ps (t.take q.start), substituteFrom ps q.stop (t.drop q.stop), ?_⟩
  rw [substitute_cut ps (Nat.le_of_lt size) inside,
    substituteFrom_range fit mem (Text.length_slice inside)]

/-! ## Places -/

/-- Across a clear range, places move by as much as offsets. -/
lemma place_add {o o' : Nat} (h : o ≤ o') (inside : o' ≤ t.length) (clear : Clear ps ⟨o, o'⟩) :
    place t ps o' = place t ps o + (o' - o) := by
  rw [place, place, substitute_take ps h inside, substituteFrom_slice h inside clear,
    List.length_append, Text.length_slice inside]

lemma place_mono {o o' : Nat} (h : o ≤ o') (inside : o' ≤ t.length) :
    place t ps o ≤ place t ps o' := by
  rw [place, place, substitute_take ps h inside, List.length_append]
  exact Nat.le_add_right _ _

/-- Two clear characters at the same place are the same. -/
lemma place_injective {o o' : Nat} (here : Clear ps ⟨o, o + 1⟩) (there : Clear ps ⟨o', o' + 1⟩)
    (inside : o < t.length) (inside' : o' < t.length) (same : place t ps o = place t ps o') :
    o = o' := by
  have step : ∀ {a b}, Clear ps ⟨a, a + 1⟩ → a < b → b < t.length →
      place t ps a < place t ps b := by
    intro a b clear order inside
    have next : place t ps (a + 1) = place t ps a + 1 := by
      rw [place_add (Nat.le_add_right a 1) (by omega) clear, Nat.add_sub_cancel_left]
    have later : place t ps (a + 1) ≤ place t ps b := place_mono order (by omega)
    omega
  rcases Nat.lt_trichotomy o o' with order | order | order
  · have := step here order inside'
    omega
  · exact order
  · have := step there order inside
    omega

/-- One more patch leaves the places before its range. -/
lemma place_snoc_of_le {o : Nat} (h : o ≤ q.start) : place t (ps ++ [q]) o = place t ps o := by
  rw [place, place, substitute, substituteFrom_snoc, substitute]
  left
  simp only [List.length_take]
  omega

/-- One more patch moves the places behind its range by the difference in length. -/
lemma place_snoc_of_ge {n} {o : Nat} (fit : Fit n (ps ++ [q])) (h : q.stop ≤ o)
    (inside : o ≤ t.length) :
    place t (ps ++ [q]) o + (q.stop - q.start) = place t ps o + q.text.length := by
  have size := fit.last_bounds.1
  have fits : q.stop ≤ (t.take o).length := by
    rw [List.length_take]
    omega
  have old := substitute_cut ps (Nat.le_of_lt size) fits
  rw [substituteFrom_slice (Nat.le_of_lt size) fits fit.clear_last] at old
  have new := substitute_snoc fit fits
  rw [place, place, old, new]
  simp only [List.length_append, Text.length_slice fits]
  omega

/-- A clear range of the first text stands in the text with the patches at its place. -/
lemma slice_substitute {o o' : Nat} (h : o ≤ o') (inside : o' ≤ t.length)
    (clear : Clear ps ⟨o, o'⟩) :
    Text.slice (substitute ps t) (place t ps o) (place t ps o + (o' - o)) = Text.slice t o o' := by
  have cut := substitute_cut ps h inside
  rw [substituteFrom_slice h inside clear, List.append_assoc] at cut
  rw [Text.slice, place, cut, List.drop_left, Nat.add_sub_cancel_left,
    List.take_left' (Text.length_slice inside)]

/-! ## Patches one by one -/

lemma logFrom_append (t : Text) (done ps qs : List Patch) :
    logFrom t done (ps ++ qs) = logFrom t done ps ++ logFrom t (done ++ ps) qs := by
  induction ps generalizing done with
  | nil => simp [logFrom]
  | cons p ps ih => simp [logFrom, ih]

lemma logFrom_snoc (t : Text) (done ps : List Patch) (q : Patch) :
    logFrom t done (ps ++ [q]) = logFrom t done ps ++ [editOf t (done ++ ps) q] := by
  rw [logFrom_append]
  rfl

lemma edits_buffer_append (t : Text) (ps qs : List Patch) :
    (buffer t (ps ++ qs)).edits = (buffer t ps).edits ++ logFrom t ps qs :=
  logFrom_append t [] ps qs

/-- Each edit of a log belongs to a patch, and the edits before it to the patches before that. -/
lemma logFrom_eq_append {done : List Patch} {before after : List Edit} {e : Edit}
    (log : logFrom t done ps = before ++ e :: after) :
    ∃ early q late, ps = early ++ q :: late ∧ before = logFrom t done early ∧
      e = editOf t (done ++ early) q := by
  induction ps generalizing done before with
  | nil => simp [logFrom] at log
  | cons p ps ih =>
    cases before with
    | nil =>
      obtain ⟨first, -⟩ := List.cons.inj log
      exact ⟨[], p, ps, rfl, rfl, by rw [List.append_nil, first]⟩
    | cons b before =>
      obtain ⟨first, rest⟩ := List.cons.inj log
      obtain ⟨early, q, late, rfl, rfl, rfl⟩ := ih rest
      refine ⟨p :: early, q, late, rfl, by rw [logFrom, first], ?_⟩
      rw [List.append_assoc, List.singleton_append]

/-- Without patches, the buffer is that of the text. -/
lemma buffer_nil (t : Text) : buffer t [] = .ofText t := by
  rw [buffer, substitute, substituteFrom_of_clear (clear_nil _)]
  rfl

/-- One more patch is one more splice. -/
lemma buffer_snoc (fit : Fit t.length (ps ++ [q])) :
    buffer t (ps ++ [q]) = (buffer t ps).splice (place t ps q.start)
      (place t ps q.start + (q.stop - q.start)) q.text := by
  obtain ⟨size, inside⟩ := fit.last_bounds
  have cut := substitute_cut ps (Nat.le_of_lt size) inside
  rw [substituteFrom_slice (Nat.le_of_lt size) inside fit.clear_last] at cut
  have head : (substitute ps t).take (place t ps q.start) = substitute ps (t.take q.start) := by
    rw [cut, List.append_assoc, place, List.take_left]
  have tail : (substitute ps t).drop (place t ps q.start + (q.stop - q.start)) =
      substituteFrom ps q.stop (t.drop q.stop) := by
    rw [cut, place, List.drop_left']
    rw [List.length_append, Text.length_slice inside]
  rw [buffer, buffer, Buffer.splice, logFrom_snoc, substitute_snoc fit inside, head, tail]
  rfl

/-- How the edit of one more patch moves a range that no patch before touched. -/
lemma shift?_editOf {n o : Nat} (fit : Fit t.length (ps ++ [q])) (size : 0 < n)
    (inside : o + n ≤ t.length) (clear : Clear ps ⟨o, o + n⟩) :
    (editOf t ps q).shift? n (place t ps o) =
      if Span.Apart ⟨o, o + n⟩ q.toSpan then some (place t (ps ++ [q]) o) else none := by
  obtain ⟨qsize, qinside⟩ := fit.last_bounds
  have start : (editOf t ps q).start = place t ps q.start := rfl
  have stop : (editOf t ps q).stop = place t ps q.start + (q.stop - q.start) := rfl
  have inserted : (editOf t ps q).inserted = q.text.length := rfl
  have qend : place t ps q.stop = place t ps q.start + (q.stop - q.start) :=
    place_add (Nat.le_of_lt qsize) qinside fit.clear_last
  have oend : place t ps (o + n) = place t ps o + n := by
    rw [place_add (Nat.le_add_right o n) inside clear, Nat.add_sub_cancel_left]
  by_cases before : o + n ≤ q.start
  · -- the range lies before the edit
    have order : place t ps (o + n) ≤ place t ps q.start := place_mono before (by omega)
    have away : Span.Apart ⟨o, o + n⟩ q.toSpan := Or.inl before
    rw [Edit.shift?_of_le_start size (by omega) (by omega), if_pos away,
      place_snoc_of_le (by omega)]
  · by_cases behind : q.stop ≤ o
    · -- the range lies behind the edit
      have order : place t ps q.stop ≤ place t ps o := place_mono behind (by omega)
      have moved : place t (ps ++ [q]) o + (q.stop - q.start) = place t ps o + q.text.length :=
        place_snoc_of_ge fit behind (by omega)
      have away : Span.Apart ⟨o, o + n⟩ q.toSpan := Or.inr behind
      rw [Edit.shift?_of_stop_le (by omega), if_pos away]
      congr 1
      omega
    · -- the two overlap: nothing was touched from the first of the two starts to the other one
      have touched : ¬ Span.Apart ⟨o, o + n⟩ q.toSpan := fun away => away.elim before behind
      rw [if_neg touched]
      rcases Nat.le_total o q.start with first | first
      · have free : Clear ps ⟨o, q.start⟩ := clear.mono (Nat.le_refl o) (by omega)
        have between : place t ps q.start = place t ps o + (q.start - o) :=
          place_add first (by omega) free
        exact Edit.shift?_of_overlap (by omega) (by omega)
      · have free : Clear ps ⟨q.start, o⟩ :=
          fit.clear_last.mono (Nat.le_refl _) (Nat.le_of_not_le behind)
        have between : place t ps o = place t ps q.start + (o - q.start) :=
          place_add first (by omega) free
        exact Edit.shift?_of_overlap (by omega) (by omega)

/-- The log finds exactly the ranges of the first text that no patch touches, where the substitution
puts them. -/
lemma locate?_buffer {n o : Nat} (fit : Fit t.length ps) (size : 0 < n)
    (inside : o + n ≤ t.length) :
    (buffer t ps).locate? o n =
      if Clear ps ⟨o, o + n⟩ then some (place t ps o) else none := by
  -- the log is folded from its front, so the induction takes off the patch made last
  induction ps using List.reverseRecOn with
  | nil =>
    have here : place t [] o = o := by
      rw [place, substitute, substituteFrom_of_clear (clear_nil _), List.length_take]
      omega
    rw [if_pos (clear_nil _), here]
    rfl
  | append_singleton ps q ih =>
    have last : (buffer t (ps ++ [q])).locate? o n =
        ((buffer t ps).locate? o n).bind ((editOf t ps q).shift? n) := by
      simp only [Buffer.locate?, buffer, logFrom_snoc, List.foldl_append, List.nil_append,
        List.foldl_cons, List.foldl_nil]
    rw [last, ih fit.init]
    by_cases clear : Clear ps ⟨o, o + n⟩
    · rw [if_pos clear, Option.bind_some, shift?_editOf fit size inside clear]
      simp only [clear_snoc, clear, true_and]
    · rw [if_neg clear, if_neg fun both => clear (clear_snoc.1 both).1]
      rfl

/-- A range of the first text that the log finds is clear, and found at its place. -/
lemma locate?_buffer_eq_some {n o pos : Nat} (fit : Fit t.length ps) (size : 0 < n)
    (inside : o + n ≤ t.length) :
    (buffer t ps).locate? o n = some pos ↔ Clear ps ⟨o, o + n⟩ ∧ place t ps o = pos := by
  rw [locate?_buffer fit size inside]
  by_cases clear : Clear ps ⟨o, o + n⟩ <;> simp [clear]

end Patch

end Phrasebook
