import Mathlib.Tactic.Lemma
import Phrasebook.Proofs.Calls
import Phrasebook.Proofs.Escapes

/-!
# Markers of a template

Each marker stands in its template as a dollar sign and an expression in braces (`mem_markersFrom`),
and the next one starts behind it (`markersFrom_pairwise`). A key that puts letters in the place of
some of them keeps the end of the template: the last letter is closed by a brace, as the last
marker was (`escapesNext_fillIn`).
-/

namespace Phrasebook.Template

/-- The text up to a closing brace stands in front of the brace. -/
lemma eq_of_balanced? {depth : Nat} {t e : Text} (h : balanced? depth t = some e) :
    ∃ rest, t = e ++ '\x7d' :: rest := by
  induction t generalizing depth e with
  | nil => cases h
  | cons c cs ih =>
    have later : ∀ {d}, (balanced? d cs).map (c :: ·) = some e →
        ∃ rest, c :: cs = e ++ '\x7d' :: rest := by
      intro d found
      obtain ⟨run, inner, rfl⟩ := Option.map_eq_some_iff.1 found
      obtain ⟨rest, rfl⟩ := ih inner
      exact ⟨rest, rfl⟩
    unfold balanced? at h
    split at h
    · exact later h
    · split at h
      · rename_i closes
        split at h
        · cases h
          exact ⟨cs, by rw [closes]; rfl⟩
        · exact later h
      · exact later h

/-- A marker stands in its template with its dollar sign and its braces, behind what is skipped. -/
lemma mem_markersFrom {skip pos : Nat} {t : Text} {m : Marker} (mem : m ∈ markersFrom skip pos t) :
    ∃ before rest, t = before ++ '$' :: '\x7b' :: (m.expression ++ '\x7d' :: rest) ∧
      skip ≤ before.length ∧ m.start = pos + before.length ∧
      m.stop = m.start + m.expression.length + 3 := by
  induction t generalizing skip pos with
  | nil => cases mem
  | cons c cs ih =>
    have later : ∀ {k}, m ∈ markersFrom k (pos + 1) cs →
        ∃ before rest, c :: cs = before ++ '$' :: '\x7b' :: (m.expression ++ '\x7d' :: rest) ∧
          k + 1 ≤ before.length ∧ m.start = pos + before.length ∧
          m.stop = m.start + m.expression.length + 3 := by
      intro k mem
      obtain ⟨before, rest, rfl, behind, start, stop⟩ := ih mem
      refine ⟨c :: before, rest, rfl, ?_, ?_, stop⟩
      · simpa using behind
      · simp only [List.length_cons]
        omega
    cases skip with
    | succ skip => exact later mem
    | zero =>
      unfold markersFrom at mem
      split at mem
      · rename_i opens
        split at mem
        · rename_i e closed
          rcases List.mem_cons.1 mem with rfl | mem
          · obtain ⟨tail, split⟩ := List.isPrefixOf_iff_prefix.1 opens
            obtain ⟨rfl, rfl⟩ := List.cons.inj split
            obtain ⟨rest, inner⟩ := eq_of_balanced? closed
            refine ⟨[], rest, ?_, Nat.le_refl 0, rfl, rfl⟩
            rw [← inner]
            rfl
          · obtain ⟨before, rest, split, -, start, stop⟩ := later mem
            exact ⟨before, rest, split, Nat.zero_le _, start, stop⟩
        · cases mem
      · obtain ⟨before, rest, split, -, start, stop⟩ := later mem
        exact ⟨before, rest, split, Nat.zero_le _, start, stop⟩

lemma markersFrom_pairwise (skip pos : Nat) (t : Text) :
    (markersFrom skip pos t).Pairwise fun a b => a.stop ≤ b.start := by
  induction t generalizing skip pos with
  | nil => simp [markersFrom]
  | cons c cs ih =>
    cases skip with
    | succ skip => exact ih skip (pos + 1)
    | zero =>
      unfold markersFrom
      split
      · split
        · refine List.pairwise_cons.2 ⟨fun m mem => ?_, ih _ _⟩
          obtain ⟨before, rest, -, behind, start, -⟩ := mem_markersFrom mem
          dsimp only
          omega
        · exact List.Pairwise.nil
      · exact ih 0 (pos + 1)

/-- A template from some place on is what stands before a marker, the marker, and the rest. -/
lemma drop_eq_of_marker {t : Text} {pos : Nat} {m : Marker} (mem : m ∈ markers t)
    (behind : pos ≤ m.start) :
    t.drop pos = Text.slice t pos m.start ++ ('$' :: '\x7b' :: m.expression ++ ['\x7d']) ++
      t.drop m.stop := by
  obtain ⟨before, after, split, -, start, stop⟩ := mem_markersFrom mem
  rw [Nat.zero_add] at start
  have front : Text.slice t pos m.start = before.drop pos := by
    rw [Text.slice, split, List.drop_append_of_le_length (by omega)]
    refine List.take_left' ?_
    rw [List.length_drop]
    omega
  have rest : t.drop m.stop = after := by
    have whole : t = (before ++ '$' :: '\x7b' :: m.expression ++ ['\x7d']) ++ after := by
      simp [split]
    rw [whole]
    refine List.drop_left' ?_
    simp only [List.length_append, List.length_cons, List.length_nil]
    omega
  rw [front, rest, split, List.drop_append_of_le_length (by omega)]
  simp

/-- Putting letters in the place of markers keeps the end of a template, up to the backslashes there. -/
lemma escapesNext_fillIn {t : Text} {pos : Nat} {ms : List (Char × Marker)}
    (stands : ∀ p ∈ ms, p.2 ∈ markers t ∧ pos ≤ p.2.start)
    (ordered : ms.Pairwise fun a b => a.2.stop ≤ b.2.start) (seen : List (Char × Text)) :
    Text.escapesNext (fillIn t pos seen ms) = Text.escapesNext (t.drop pos) := by
  -- both sides have a closing brace at the end of the first marker, and nothing before it counts
  induction ms generalizing pos seen with
  | nil => rfl
  | cons p ms ih =>
    obtain ⟨letter, m⟩ := p
    obtain ⟨mem, behind⟩ : m ∈ markers t ∧ pos ≤ m.start := stands _ List.mem_cons_self
    obtain ⟨next, rest⟩ := List.pairwise_cons.1 ordered
    have tail := ih (fun p found => ⟨(stands p (List.mem_cons_of_mem _ found)).1, next p found⟩)
      rest (seen ++ [(letter, m.expression)])
    have closed : t.drop pos =
        (Text.slice t pos m.start ++ '$' :: '\x7b' :: m.expression) ++ '\x7d' :: t.drop m.stop := by
      rw [drop_eq_of_marker mem behind]
      simp
    have filled : fillIn t pos seen ((letter, m) :: ms) =
        (Text.slice t pos m.start ++ ['\x7b', letterOf seen letter m.expression]) ++
          '\x7d' :: fillIn t m.stop (seen ++ [(letter, m.expression)]) ms := by
      simp [fillIn]
    rw [closed, filled, Text.escapesNext_behind (by decide), Text.escapesNext_behind (by decide),
      tail]

lemma pairwise_lettered {R : Marker → Marker → Prop} {ms : List Marker} (ordered : ms.Pairwise R)
    (ls : List Char) : (ls.zip ms).Pairwise fun a b => R a.2 b.2 := by
  induction ls generalizing ms with
  | nil => exact List.Pairwise.nil
  | cons l ls ih =>
    cases ordered with
    | nil => exact List.Pairwise.nil
    | cons first rest =>
      exact List.pairwise_cons.2 ⟨fun p mem => first p.2 (List.of_mem_zip mem).2, ih rest⟩

lemma escapesNext_lettered (t : Text) :
    Text.escapesNext (lettered t).key = Text.escapesNext t := by
  refine escapesNext_fillIn (fun p mem => ⟨(List.of_mem_zip mem).2, Nat.zero_le _⟩) ?_ []
  exact pairwise_lettered (markersFrom_pairwise 0 0 t) letters

end Phrasebook.Template
