import Phrasebook.Proofs.BareSpans
import Phrasebook.Proofs.Edits

/-!
# Edits that keep the comments

`Keeps` is the rule of edits that leave the shades of all other characters as they are. A text under
such edits stays separate (`Keeps.separate`), and each character keeps its shade as long as the log
carries it (`shades_of_carry?`).

What is replaced and what takes its place end outside comments, with a seal: a quote or a closing
bracket. So a run of characters without seals, like an attribute before its value, is carried along
together with what stands behind it or not at all (`carry?_before`, `carry?_of_carry?_succ`).
-/

namespace Phrasebook

namespace Comment

/-- Whether a character lies in a comment or is no seal. -/
def LooseAt (t : Text) (i : Nat) : Prop :=
  ∃ c x, t[i]? = some c ∧ (shades t)[i]? = some x ∧ (x = ⟨false, false⟩ → isSeal c = false)

/-- A seal outside comments is not loose. -/
lemma not_looseAt {t : Text} {i : Nat} {c : Char} (char : t[i]? = some c) (sealed : isSeal c = true)
    (shade : (shades t)[i]? = some ⟨false, false⟩) : ¬ LooseAt t i := by
  rintro ⟨d, x, here, found, loose⟩
  obtain rfl : c = d := Option.some.inj (char.symm.trans here)
  obtain rfl : ⟨false, false⟩ = x := Option.some.inj (shade.symm.trans found)
  rw [sealed] at loose
  cases loose rfl

lemma looseAt_congr {t u : Text} {i k : Nat} (chars : u[k]? = t[i]?)
    (same : (shades u)[k]? = (shades t)[i]?) : LooseAt u k ↔ LooseAt t i := by
  unfold LooseAt
  rw [chars, same]

lemma mask_congr {t u : Text} {i k : Nat} (sep : Separate t) (sep' : Separate u)
    (chars : u[k]? = t[i]?) (same : (shades u)[k]? = (shades t)[i]?) :
    (mask u)[k]? = (mask t)[i]? := by
  rw [getElem?_mask sep, getElem?_mask sep', chars, inside_spans, inside_spans]
  rw [getElem?_shades, getElem?_shades, chars] at same
  cases char : t[i]? with
  | none => rfl
  | some c =>
    rw [char] at same
    obtain ⟨inner, outer⟩ := Shade.mk.inj (Option.some.inj same)
    rw [inner, outer]

/-- Outside comments the blanked copy shows what is there. -/
lemma getElem?_mask_of_plain {t : Text} {i : Nat} {c : Char} (sep : Separate t)
    (char : t[i]? = some c) (plain : (shades t)[i]? = some ⟨false, false⟩) :
    (mask t)[i]? = some c := by
  rw [getElem?_shades, char] at plain
  obtain ⟨inner, outer⟩ := Shade.mk.inj (Option.some.inj plain)
  rw [getElem?_mask sep, char, inside_spans, inner, outer]
  rfl

lemma looseAt_of_masked {t : Text} {i : Nat} {c : Char} (sep : Separate t)
    (shown : (mask t)[i]? = some c) (loose : isSeal c = false) : LooseAt t i := by
  rw [getElem?_mask sep, inside_spans] at shown
  obtain ⟨d, char, same⟩ := Option.map_eq_some_iff.1 shown
  refine ⟨d, _, char, by rw [getElem?_shades, char]; rfl, fun outside => ?_⟩
  obtain ⟨inner, outer⟩ := Shade.mk.inj outside
  rw [inner, outer] at same
  simp only [Bool.or_false, Bool.false_and, Bool.false_eq_true, if_false] at same
  rwa [same]

/-- The rule of edits that keep the shades of what they do not touch. -/
structure Keeps (u : Text) (start stop : Nat) (r : Text) : Prop where
  /-- What is replaced ends outside comments, with a seal. -/
  old : start < stop ∧ (shades u)[stop - 1]? = some ⟨false, false⟩ ∧
    ∃ c, u[stop - 1]? = some c ∧ isSeal c = true
  /-- So does what takes its place. -/
  sealed : ∃ c, r.getLast? = some c ∧ isSeal c = true
  shades : ∃ new, new.length = r.length ∧ (∀ x ∈ new, x.hashed = false) ∧
    new.getLast? = some ⟨false, false⟩ ∧
    -- without the marks that open comments, all of it lies outside of them
    ((∀ k ∈ brackets, ¬ k.1 <:+: r) → new = List.replicate r.length ⟨false, false⟩) ∧
    shades (u.take start ++ r ++ u.drop stop) = (shades u).take start ++ new ++ (shades u).drop stop

variable {t u r : Text} {es : List Edit} {start stop i k : Nat}

lemma length_shades (t : Text) : (shades t).length = t.length :=
  length_shadesFrom ..

/-- What is put between two parts of a list stands behind the first part. -/
lemma getElem?_middle {α : Type} {u l : List α} (inside : start ≤ u.length) (behind : start ≤ k)
    (new : k < start + l.length) (rest : List α) : (u.take start ++ l ++ rest)[k]? = l[k - start]? := by
  have size : (u.take start).length = start := by
    rw [List.length_take, Nat.min_eq_left inside]
  rw [List.append_assoc, List.getElem?_append_right (by omega), size,
    List.getElem?_append_left (by omega)]

/-- The last of what is put between two parts of a list stands right before the second part. -/
lemma getElem?_spliced {α : Type} {u : List α} (inside : start ≤ u.length) (l : List α) (a : α)
    (rest : List α) : (u.take start ++ (l ++ [a]) ++ rest)[start + l.length]? = some a := by
  rw [getElem?_middle inside (Nat.le_add_right _ _) (by simp), Nat.add_sub_cancel_left,
    List.getElem?_concat_length]

namespace Keeps

lemma separate (keeps : Keeps u start stop r) (sep : Separate u) :
    Separate (u.take start ++ r ++ u.drop stop) := by
  rw [separate_iff_shades] at sep ⊢
  obtain ⟨new, -, unhashed, -, -, same⟩ := keeps.shades
  intro x mem inner
  rw [same] at mem
  rcases List.mem_append.1 mem with mem | late
  · rcases List.mem_append.1 mem with early | here
    · exact sep x (List.mem_of_mem_take early) inner
    · exact unhashed x here
  · exact sep x (List.mem_of_mem_drop late) inner

/-- A character that the edit does not touch keeps its shade. -/
lemma shades_of_shift? (keeps : Keeps u start stop r) (inside : stop ≤ u.length)
    (shifted : (⟨start, stop, r.length⟩ : Edit).shift? 1 i = some k) :
    (Comment.shades (u.take start ++ r ++ u.drop stop))[k]? = (Comment.shades u)[i]? := by
  obtain ⟨new, length, -, -, -, same⟩ := keeps.shades
  rw [same]
  rw [← length] at shifted
  exact Edits.getElem?_of_shift? (Nat.le_of_lt keeps.old.1) (by rwa [length_shades]) shifted

lemma looseAt_iff (keeps : Keeps u start stop r) (inside : stop ≤ u.length)
    (shifted : (⟨start, stop, r.length⟩ : Edit).shift? 1 i = some k) :
    LooseAt (u.take start ++ r ++ u.drop stop) k ↔ LooseAt u i :=
  looseAt_congr (Edits.getElem?_of_shift? (Nat.le_of_lt keeps.old.1) inside shifted)
    (keeps.shades_of_shift? inside shifted)

lemma not_looseAt_old (keeps : Keeps u start stop r) : ¬ LooseAt u (stop - 1) := by
  obtain ⟨-, outside, c, char, sealed⟩ := keeps.old
  exact not_looseAt char sealed outside

lemma not_looseAt_new (keeps : Keeps u start stop r) (inside : stop ≤ u.length) :
    0 < r.length ∧ ¬ LooseAt (u.take start ++ r ++ u.drop stop) (start + r.length - 1) := by
  obtain ⟨c, last, sealed⟩ := keeps.sealed
  obtain ⟨new, length, -, outside, -, same⟩ := keeps.shades
  have order := keeps.old.1
  obtain ⟨r, rfl⟩ := List.getLast?_eq_some_iff.1 last
  obtain ⟨new, rfl⟩ := List.getLast?_eq_some_iff.1 outside
  simp only [List.length_append, List.length_singleton, Nat.add_right_cancel_iff] at length
  rw [List.length_append, List.length_singleton]
  refine ⟨Nat.succ_pos _, not_looseAt ?_ sealed ?_⟩
  · exact getElem?_spliced (by omega) r c _
  · rw [same, ← length]
    exact getElem?_spliced (by rw [length_shades]; omega) new _ _

/-- If the new text holds none of the marks that open comments, the blanked copy changes as the text
does. -/
lemma mask (keeps : Keeps u start stop r) (sep : Separate u) (inside : stop ≤ u.length)
    (openers : ∀ k ∈ brackets, ¬ k.1 <:+: r) :
    Comment.mask (u.take start ++ r ++ u.drop stop) =
      (Comment.mask u).take start ++ r ++ (Comment.mask u).drop stop := by
  have order := keeps.old.1
  have sep' := keeps.separate sep
  have bound : stop ≤ (Comment.mask u).length := by rwa [length_mask sep]
  -- a character that the edit leaves in place is blanked as before
  have kept : ∀ {i k}, (⟨start, stop, r.length⟩ : Edit).shift? 1 i = some k →
      (Comment.mask (u.take start ++ r ++ u.drop stop))[k]? =
        ((Comment.mask u).take start ++ r ++ (Comment.mask u).drop stop)[k]? := by
    intro i k shifted
    rw [Edits.getElem?_of_shift? (Nat.le_of_lt order) bound shifted]
    exact mask_congr sep sep' (Edits.getElem?_of_shift? (Nat.le_of_lt order) inside shifted)
      (keeps.shades_of_shift? inside shifted)
  refine List.ext_getElem? fun k => ?_
  rcases Nat.lt_or_ge k start with before | behind
  · refine kept (i := k) ?_
    rw [Edit.shift?, if_neg (by simp only; omega), if_neg (by simp only; omega)]
  · rcases Nat.lt_or_ge k (start + r.length) with new | late
    · obtain ⟨fresh, length, -, -, plain, same⟩ := keeps.shades
      have char := getElem?_middle (u := u) (by omega) behind new (u.drop stop)
      have shade : (Comment.shades (u.take start ++ r ++ u.drop stop))[k]? = some ⟨false, false⟩ := by
        rw [same, getElem?_middle (by rw [length_shades]; omega) behind (by omega), plain openers,
          List.getElem?_replicate, if_pos (by omega)]
      have found : r[k - start]? = some r[k - start] := List.getElem?_eq_getElem (by omega)
      rw [getElem?_middle (by omega) behind new,
        getElem?_mask_of_plain sep' (char.trans found) shade, found]
    · refine kept (i := k + stop - (start + r.length)) ?_
      rw [Edit.shift?, if_pos (by simp only; omega)]
      simp only [Option.some.injEq]
      omega

end Keeps

variable (edits : Edits Keeps t es u)

include edits

lemma separate_of_edits (sep : Separate t) : Separate u := by
  induction edits with
  | nil => exact sep
  | snoc _ _ _ keeps ih => exact keeps.separate ih

/-- An untouched character keeps its shade. -/
lemma shades_of_carry? (carried : Edit.carry? es i 1 = some k) : (shades u)[k]? = (shades t)[i]? := by
  induction edits generalizing k with
  | nil =>
    cases carried
    rfl
  | snoc _ _ inside keeps ih =>
    rw [Edit.carry?_snoc] at carried
    obtain ⟨l, early, late⟩ := Option.bind_eq_some_iff.1 carried
    exact (keeps.shades_of_shift? inside late).trans (ih early)

lemma looseAt_iff_of_carry? (carried : Edit.carry? es i 1 = some k) : LooseAt u k ↔ LooseAt t i :=
  looseAt_congr (edits.getElem?_of_carry? carried) (shades_of_carry? edits carried)

/-- A loose character before one that the log carried here was carried here too. -/
lemma carry?_before (carried : Edit.carry? es i 1 = some (k + 1)) (loose : LooseAt u k) :
    ∃ j, i = j + 1 ∧ Edit.carry? es j 1 = some k := by
  induction edits generalizing k with
  | nil =>
    cases carried
    exact ⟨k, rfl, rfl⟩
  | @snoc u r es start stop _ order inside keeps ih =>
    rw [Edit.carry?_snoc] at carried
    obtain ⟨l, early, late⟩ := Option.bind_eq_some_iff.1 carried
    obtain ⟨filled, hard⟩ := keeps.not_looseAt_new inside
    -- the edit lies before both characters or behind both
    have both : ∃ l', l = l' + 1 ∧ (⟨start, stop, r.length⟩ : Edit).shift? 1 l' = some k := by
      unfold Edit.shift? at late ⊢
      dsimp only at late ⊢
      split at late
      · rename_i behind
        have place := Option.some.inj late
        have apart : stop ≠ l := by
          rintro rfl
          exact hard (by rwa [show start + r.length - 1 = k by omega])
        exact ⟨l - 1, by omega, by rw [if_pos (by omega)]; congr 1; omega⟩
      · split at late
        · cases late
        · obtain rfl : l = k + 1 := Option.some.inj late
          exact ⟨k, rfl, by rw [if_neg (by omega), if_neg (by omega)]⟩
    obtain ⟨l', rfl, shifted⟩ := both
    obtain ⟨j, rfl, before⟩ := ih early ((keeps.looseAt_iff inside shifted).1 loose)
    refine ⟨j, rfl, ?_⟩
    rw [Edit.carry?_snoc, before]
    exact shifted

/-- A loose character is carried along with the one behind it. -/
lemma carry?_of_carry?_succ (carried : Edit.carry? es (i + 1) 1 = some k) (loose : LooseAt t i) :
    ∃ l, k = l + 1 ∧ Edit.carry? es i 1 = some l := by
  induction edits generalizing k with
  | nil =>
    cases carried
    exact ⟨i, rfl, rfl⟩
  | @snoc u r es start stop edits order inside keeps ih =>
    rw [Edit.carry?_snoc] at carried
    obtain ⟨l, early, late⟩ := Option.bind_eq_some_iff.1 carried
    obtain ⟨l, rfl, before⟩ := ih early
    have apart : stop ≠ l + 1 := by
      rintro rfl
      exact keeps.not_looseAt_old ((looseAt_iff_of_carry? edits before).2 loose)
    rw [Edit.carry?_snoc, before]
    unfold Edit.shift? at late ⊢
    dsimp only [Option.bind_some] at late ⊢
    split at late
    · have place := Option.some.inj late
      exact ⟨l + start + r.length - stop, by omega, if_pos (by omega)⟩
    · split at late
      · cases late
      · obtain rfl : l + 1 = k := Option.some.inj late
        exact ⟨l, rfl, by rw [if_neg (by omega), if_neg (by omega)]⟩

/-- A run of loose characters before one that the log carried here was carried here as a whole. -/
lemma carry?_run_before {m : Nat} (carried : Edit.carry? es i 1 = some (start + m))
    (loose : ∀ n, n < m → LooseAt u (start + n)) :
    ∃ o, i = o + m ∧ ∀ n, n ≤ m → Edit.carry? es (o + n) 1 = some (start + n) := by
  induction m generalizing i with
  | zero =>
    refine ⟨i, rfl, fun n le => ?_⟩
    obtain rfl := Nat.le_zero.1 le
    exact carried
  | succ m ih =>
    obtain ⟨j, rfl, before⟩ := carry?_before edits carried (loose m (Nat.lt_succ_self m))
    obtain ⟨o, rfl, run⟩ := ih before fun n early => loose n (Nat.lt_succ_of_lt early)
    refine ⟨o, rfl, fun n le => ?_⟩
    rcases Nat.lt_or_eq_of_le le with early | rfl
    · exact run n (Nat.le_of_lt_succ early)
    · exact carried

/-- A run of loose characters is carried along with the one behind it. -/
lemma isSome_carry?_run {m : Nat} (carried : (Edit.carry? es (start + m) 1).isSome = true)
    (loose : ∀ n, n < m → LooseAt t (start + n)) : (Edit.carry? es start 1).isSome = true := by
  induction m with
  | zero => exact carried
  | succ m ih =>
    obtain ⟨k, found⟩ := Option.isSome_iff_exists.1 carried
    obtain ⟨l, -, before⟩ := carry?_of_carry?_succ edits found (loose m (Nat.lt_succ_self m))
    exact ih (Option.isSome_iff_exists.2 ⟨l, before⟩) fun n early => loose n (Nat.lt_succ_of_lt early)

end Comment

end Phrasebook
