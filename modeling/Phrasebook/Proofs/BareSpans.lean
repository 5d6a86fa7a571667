import Phrasebook.Proofs.Replacements

/-!
# Spans outside comments

A span that a separate text shows in its blanked copy as it is lies outside all delimited comments,
and of its characters only spaces can lie in hash lines (`Bare`, `bare_of_shown`). It is enough to
know this of the span, not of the text around it, to say that its slashes are guarded and that its
line feeds open no hash line.
-/

namespace Phrasebook

namespace Comment

lemma exists_shadesFrom (skip : Nat) (prev : Option Char) (hash : Bool) (a t : Text) :
    ∃ f skip' hash', f.length = a.length ∧
      shadesFrom skip prev hash (a ++ t) = f ++ shadesFrom skip' (a.getLast?.or prev) hash' t := by
  induction a generalizing skip prev hash with
  | nil => exact ⟨[], skip, hash, rfl, rfl⟩
  | cons c a ih =>
    obtain ⟨f, skip', hash', length, rest⟩ := ih ((leftAt skip prev (c :: (a ++ t))).getD 1 - 1)
      (some c) (hashAt skip prev hash (c :: (a ++ t)))
    refine ⟨⟨(leftAt skip prev (c :: (a ++ t))).isSome,
      hashAt skip prev hash (c :: (a ++ t)) && c != '\n'⟩ :: f, skip', hash',
      congrArg (· + 1) length, ?_⟩
    rw [List.cons_append, shadesFrom, rest, Text.getLast?_cons_or]
    rfl

/-- The shade of a character and of those behind it, from what the reader remembers. -/
lemma exists_shades (a : Text) (c : Char) (b : Text) :
    ∃ skip hash, ∀ j, (shades (a ++ c :: b))[a.length + j]? =
      (shadesFrom skip a.getLast? hash (c :: b))[j]? := by
  obtain ⟨f, skip, hash, length, rest⟩ := exists_shadesFrom 0 none false a (c :: b)
  refine ⟨skip, hash, fun j => ?_⟩
  rw [shades, rest, Option.or_none, List.getElem?_append_right (by omega)]
  congr 1
  omega

variable {t : Text} {i : Nat} {x y : Shade}

lemma split_of_getElem? {c : Char} (char : t[i]? = some c) :
    ∃ a b, t = a ++ c :: b ∧ a.length = i := by
  obtain ⟨inside, same⟩ := List.getElem?_eq_some_iff.1 char
  refine ⟨t.take i, t.drop (i + 1), ?_, by simp; omega⟩
  rw [← same, ← List.drop_eq_getElem_cons inside, List.take_append_drop]

lemma exists_shade (inside : i < t.length) : ∃ x, (shades t)[i]? = some x :=
  ⟨_, List.getElem?_eq_getElem (by rwa [shades, length_shadesFrom])⟩

/-- A hash line goes on up to its line feed. -/
lemma hashed_next (first : (shades t)[i]? = some x) (hashed : x.hashed = true) {c : Char}
    (char : t[i + 1]? = some c) (feed : c ≠ '\n') (next : (shades t)[i + 1]? = some y) :
    y.hashed = true := by
  have before : ∃ d, t[i]? = some d := by
    rw [getElem?_shades] at first
    obtain ⟨d, here, -⟩ := Option.map_eq_some_iff.1 first
    exact ⟨d, here⟩
  obtain ⟨d, here⟩ := before
  obtain ⟨a, b, rfl, rfl⟩ := split_of_getElem? here
  obtain ⟨skip, hash, read⟩ := exists_shades a d b
  rw [← Nat.add_zero a.length, read] at first
  obtain rfl := Option.some.inj first
  rw [read] at next
  cases b with
  | nil => cases next
  | cons e b =>
    obtain rfl : e = c := by simpa using char
    obtain rfl := Option.some.inj next
    obtain ⟨line, inner⟩ := Bool.and_eq_true_iff.1 hashed
    have starts : ¬ startsLine (some d) = true := by simpa [startsLine] using inner
    refine Bool.and_eq_true_iff.2 ⟨?_, bne_iff_ne.2 feed⟩
    exact (if_neg starts).trans line

/-- Where a line opens as a hash line outside delimited comments, it is one. -/
lemma hashed_of_opens {a b : Text} (opens : opensHashLine b = true)
    (found : (shades (a ++ '\n' :: b))[a.length + 1]? = some x) (bare : x.delimited = false) :
    x.hashed = true := by
  cases b with
  | nil => cases opens
  | cons c b =>
    obtain ⟨skip, hash, read⟩ := exists_shades a '\n' (c :: b)
    rw [read] at found
    obtain rfl := Option.some.inj found
    have feed : c ≠ '\n' := by
      rintro rfl
      cases opens
    have free := Option.not_isSome_iff_eq_none.1 (Bool.eq_false_iff.1 bare)
    refine Bool.and_eq_true_iff.2 ⟨?_, bne_iff_ne.2 feed⟩
    refine (if_pos rfl).trans (Bool.and_eq_true_iff.2 ⟨?_, opens⟩)
    exact Option.isNone_iff_eq_none.2 free

lemma hashed_run (first : (shades t)[i]? = some x) (hashed : x.hashed = true) {k : Nat}
    (line : ∀ j, j < k → ∃ c, t[i + j + 1]? = some c ∧ c ≠ '\n')
    (last : (shades t)[i + k]? = some y) : y.hashed = true := by
  induction k generalizing y with
  | zero =>
    obtain rfl : x = y := Option.some.inj (first.symm.trans last)
    exact hashed
  | succ k ih =>
    obtain ⟨c, char, feed⟩ := line k (Nat.lt_succ_self k)
    have inside : i + k < (shades t).length := by
      have := (List.getElem?_eq_some_iff.1 last).1
      omega
    have before := ih (fun j early => line j (Nat.lt_succ_of_lt early))
      (List.getElem?_eq_getElem inside)
    exact hashed_next (List.getElem?_eq_getElem inside) before char feed last

/-- Two slashes outside delimited comments stand behind a guard. -/
lemma guards_of_bare {a b : Text} (found : (shades (a ++ '/' :: '/' :: b))[a.length]? = some x)
    (bare : x.delimited = false) : guards a.getLast? = true := by
  obtain ⟨skip, hash, read⟩ := exists_shades a '/' ('/' :: b)
  rw [← Nat.add_zero a.length, read] at found
  obtain rfl := Option.some.inj found
  have free := Option.not_isSome_iff_eq_none.1 (Bool.eq_false_iff.1 bare)
  unfold leftAt at free
  split at free
  · rw [lengthAt_slashes] at free
    by_contra unguarded
    rw [if_neg unguarded] at free
    cases free
  · cases free

/-- A delimited comment around a place, with what its scan read. -/
lemma exists_delimited (found : (shades t)[i]? = some x) (inner : x.delimited = true) :
    ∃ d ∈ delimited t, d.start ≤ i ∧ i < d.stop ∧
      ∃ prev, lengthAt prev (t.drop d.start) = some (d.stop - d.start) := by
  rw [getElem?_shades] at found
  obtain ⟨c, -, rfl⟩ := Option.map_eq_some_iff.1 found
  obtain ⟨d, mem, covers⟩ := List.any_eq_true.1 inner
  simp only [Span.covers, Bool.and_eq_true, decide_eq_true_eq] at covers
  obtain ⟨h, hit, rfl⟩ := List.mem_map.1 mem
  obtain ⟨prev, read⟩ := Text.hits_read hit
  obtain ⟨n, length, same⟩ := Option.map_eq_some_iff.1 read
  refine ⟨_, mem, covers.1, covers.2, prev, ?_⟩
  rw [length, (Prod.mk.inj same).1]

lemma delimited_of_mem {d : Span} (mem : d ∈ delimited t) (after : d.start ≤ i) (before : i < d.stop)
    (found : (shades t)[i]? = some x) : x.delimited = true := by
  rw [getElem?_shades] at found
  obtain ⟨c, -, rfl⟩ := Option.map_eq_some_iff.1 found
  exact List.any_eq_true.2 ⟨d, mem, by simp [Span.covers, after, before]⟩

/-- A delimited comment begins with a slash or an angle bracket. -/
lemma head?_of_lengthAt {prev : Option Char} {n : Nat} (read : lengthAt prev t = some n) :
    t.head? = some '/' ∨ t.head? = some '<' := by
  rcases lengthAt_cases read with ⟨k, known, rest, j, rfl, -⟩ | ⟨rest, rfl, -⟩
  · simp only [brackets, List.mem_cons, List.not_mem_nil, or_false] at known
    rcases known with rfl | rfl
    · exact .inl rfl
    · exact .inr rfl
  · exact .inl rfl

/-- A delimited comment that ends before the end of its line ends with a slash or an angle bracket. -/
lemma last_of_lengthAt {prev : Option Char} {n : Nat} {c : Char} (read : lengthAt prev t = some n)
    (next : t[n]? = some c) (feed : c ≠ '\n') : t[n - 1]? = some '/' ∨ t[n - 1]? = some '>' := by
  rcases lengthAt_cases read with ⟨k, known, rest, j, rfl, found, rfl⟩ | ⟨rest, rfl, -, rfl⟩
  · obtain ⟨after, closes⟩ := Text.prefix_drop_of_find? found
    have closer : ∀ m, rest[j + m]? = (k.2 ++ after)[m]? := by
      intro m
      rw [closes, List.getElem?_drop]
    simp only [brackets, List.mem_cons, List.not_mem_nil, or_false] at known
    rcases known with rfl | rfl
    · exact .inl (closer 1)
    · exact .inr (closer 2)
  · -- a line comment goes on up to a line feed
    have whole := List.takeWhile_append_dropWhile (p := (· != '\n')) (l := rest)
    have ends := List.head?_dropWhile_not (· != '\n') rest
    generalize rest.takeWhile (· != '\n') = line at *
    generalize rest.dropWhile (· != '\n') = behind at *
    subst whole
    rw [Nat.add_comm, List.getElem?_cons_succ, List.getElem?_cons_succ,
      List.getElem?_append_right (Nat.le_refl _), Nat.sub_self, ← List.head?_eq_getElem?] at next
    rw [next] at ends
    exact absurd (by simpa using ends) feed

/-! ## Bare spans -/

/-- Whether a span stands at a place outside delimited comments, with at most spaces in hash lines. -/
structure Bare (u s : Text) (pos : Nat) : Prop where
  stands : Text.slice u pos (pos + s.length) = s
  free : ∀ k c x, s[k]? = some c → (shades u)[pos + k]? = some x →
    x.delimited = false ∧ (x.hashed = true → c = ' ')

lemma getElem?_of_slice {u s : Text} {pos k : Nat} (stands : Text.slice u pos (pos + s.length) = s)
    (early : k < s.length) : u[pos + k]? = s[k]? := by
  conv_rhs => rw [← stands]
  rw [Text.getElem?_slice, if_pos (by omega)]

/-- A hash line has no line feed. -/
lemma ne_feed_of_hashed {c : Char} (char : t[i]? = some c) (found : (shades t)[i]? = some x)
    (hashed : x.hashed = true) : c ≠ '\n' := by
  obtain ⟨a, b, rfl, rfl⟩ := split_of_getElem? char
  obtain ⟨skip, hash, read⟩ := exists_shades a c b
  rw [← Nat.add_zero a.length, read] at found
  obtain rfl := Option.some.inj found
  exact bne_iff_ne.1 (Bool.and_eq_true_iff.1 hashed).2

/-- A firm span that a separate text shows in its blanked copy is bare. -/
lemma bare_of_shown {u s : Text} {pos : Nat} (sep : Separate u) (firm : Firm s)
    (stands : Text.slice u pos (pos + s.length) = s)
    (shown : Text.slice (mask u) pos (pos + s.length) = s) : Bare u s pos := by
  have blank : ∀ k c x, s[k]? = some c → (shades u)[pos + k]? = some x →
      x.delimited = true ∨ x.hashed = true → c = ' ' ∨ c = '\n' := by
    intro k c x char found
    have early := (List.getElem?_eq_some_iff.1 char).1
    exact shade_of_shown sep ((getElem?_of_slice stands early).trans char)
      ((getElem?_of_slice shown early).trans char) found
  refine ⟨stands, fun k c x char found => ⟨Bool.eq_false_iff.2 fun inner => ?_, fun hashed => ?_⟩⟩
  · -- the comment would begin in the span, or cover its first character
    obtain ⟨d, mem, after, before, prev, read⟩ := exists_delimited found inner
    have early := (List.getElem?_eq_some_iff.1 char).1
    have size := (List.getElem?_eq_some_iff.1 found).1
    have first : s[d.start - pos]? = some (s[d.start - pos]) := List.getElem?_eq_getElem (by omega)
    have here := List.getElem?_eq_getElem (show pos + (d.start - pos) < (shades u).length by omega)
    have covered := delimited_of_mem mem (by omega) (by omega) here
    have gap := blank _ _ _ first here (.inl covered)
    generalize s[d.start - pos] = e at first gap
    rcases Nat.lt_or_ge d.start pos with outside | inside
    · obtain ⟨f, head, settled, -⟩ := firm.head
      rw [Nat.sub_eq_zero_of_le (by omega), ← List.head?_eq_getElem?, head] at first
      obtain rfl : f = e := Option.some.inj first
      rcases gap with rfl | rfl <;> cases settled
    · have opens := head?_of_lengthAt read
      rw [List.head?_drop, ← Nat.add_sub_cancel' inside,
        getElem?_of_slice stands (by omega), first] at opens
      rcases gap with rfl | rfl <;> simp at opens
  · have early := (List.getElem?_eq_some_iff.1 char).1
    refine (blank k c x char found (.inr hashed)).resolve_right ?_
    exact ne_feed_of_hashed ((getElem?_of_slice stands early).trans char) found hashed

lemma opensHashLine_spaces {l : Text} (spaces : ∀ c ∈ l, c = ' ') (z : Text) :
    opensHashLine (l ++ z) = opensHashLine z := by
  induction l with
  | nil => rfl
  | cons c l ih =>
    obtain ⟨rfl, rest⟩ := List.forall_mem_cons.1 spaces
    exact (opensHashLine_blank (.inl rfl) _).trans (ih rest)

namespace Bare

variable {u s a b : Text} {pos : Nat}

lemma le_length (bare : Bare u s pos) (filled : s ≠ []) : pos + s.length ≤ u.length := by
  have size := List.length_pos_iff.2 filled
  refine Text.le_length_of_length_slice (i := pos) (by omega) ?_
  rw [bare.stands]
  omega

lemma split (bare : Bare u s pos) (filled : s ≠ []) :
    ∃ a b, u = a ++ (s ++ b) ∧ a.length = pos := by
  have inside := bare.le_length filled
  have here := bare.stands
  rw [Text.slice, Nat.add_sub_cancel_left] at here
  have back := List.take_append_drop s.length (u.drop pos)
  rw [here] at back
  refine ⟨u.take pos, (u.drop pos).drop s.length, ?_, List.length_take_of_le (by omega)⟩
  rw [back, List.take_append_drop]

/-- The slashes of a bare span are guarded. -/
lemma guarded (bare : Bare (a ++ (s ++ b)) s a.length) (firm : Firm s) : Guarded s := by
  rintro x y rfl
  have whole : a ++ ((x ++ '/' :: '/' :: y) ++ b) = (a ++ x) ++ '/' :: '/' :: (y ++ b) := by simp
  obtain ⟨shade, found⟩ := @exists_shade ((a ++ x) ++ '/' :: '/' :: (y ++ b)) (a ++ x).length
    (by simp)
  rw [whole] at bare
  have outside := bare.free x.length '/' shade (by simp) (by rwa [List.length_append] at found)
  have guard := guards_of_bare found outside.1
  cases x with
  | nil =>
    obtain ⟨c, head, -, other⟩ := firm.head
    obtain rfl : '/' = c := Option.some.inj head
    rcases other with plain | same | same <;> cases (by assumption)
  | cons c x => rwa [List.getLast?_append_of_ne_nil _ (List.cons_ne_nil c x)] at guard

/-- A line feed in a bare span that opened a hash line would have only spaces behind it. -/
lemma space_of_opens {x y l r : Text} {c : Char}
    (bare : Bare (a ++ ((x ++ '\n' :: y) ++ b)) (x ++ '\n' :: y) a.length)
    (opens : opensHashLine (y ++ b) = true) (split : y = l ++ c :: r) (line : '\n' ∉ l)
    (feed : c ≠ '\n') : c = ' ' := by
  have whole : a ++ ((x ++ '\n' :: y) ++ b) = (a ++ x) ++ '\n' :: (y ++ b) := by simp
  subst split
  rw [whole] at bare
  have free : ∀ m d shade, (l ++ c :: r)[m]? = some d →
      (shades ((a ++ x) ++ '\n' :: (l ++ c :: r ++ b)))[(a ++ x).length + 1 + m]? = some shade →
      shade.delimited = false ∧ (shade.hashed = true → d = ' ') := by
    intro m d shade char found
    refine bare.free (x.length + 1 + m) d shade ?_ ?_
    · rw [List.getElem?_append_right (by omega), Nat.add_assoc, Nat.add_sub_cancel_left, Nat.add_comm,
        List.getElem?_cons_succ, char]
    · rw [← found, List.length_append]
      congr 1
      omega
  have chars : ∀ m, ((a ++ x) ++ '\n' :: (l ++ c :: r ++ b))[(a ++ x).length + 1 + m]? =
      (l ++ c :: r ++ b)[m]? := by
    intro m
    rw [List.getElem?_append_right (by omega), Nat.add_assoc, Nat.add_sub_cancel_left, Nat.add_comm,
      List.getElem?_cons_succ]
  obtain ⟨first, here⟩ := @exists_shade ((a ++ x) ++ '\n' :: (l ++ c :: r ++ b))
    ((a ++ x).length + 1 + 0) (by simp; omega)
  obtain ⟨last, there⟩ := @exists_shade ((a ++ x) ++ '\n' :: (l ++ c :: r ++ b))
    ((a ++ x).length + 1 + l.length) (by simp; omega)
  have begins : first.hashed = true := by
    refine hashed_of_opens opens here ?_
    cases l with
    | nil => exact (free 0 c first rfl here).1
    | cons d l => exact (free 0 d first rfl here).1
  refine (free l.length c last (by simp) there).2 (hashed_run here begins (fun j early => ?_) there)
  have inside : j + 1 < (l ++ [c]).length := by simpa using early
  have front : (l ++ c :: r ++ b)[j + 1]? = (l ++ [c])[j + 1]? := by
    rw [List.append_cons, List.append_assoc, List.getElem?_append_left inside]
  rw [Nat.add_zero, Nat.add_assoc _ j 1, chars, front]
  refine ⟨_, List.getElem?_eq_getElem inside, fun same => ?_⟩
  have mem := List.getElem_mem inside
  rw [same] at mem
  simp [line, feed.symm] at mem

/-- A bare span opens no hash line. -/
lemma quiet (bare : Bare (a ++ (s ++ b)) s a.length) (firm : Firm s) : Quiet s b := by
  rintro x y rfl
  refine Bool.eq_false_iff.2 fun opens => ?_
  by_cases feed : '\n' ∈ y
  · obtain ⟨l, r, rfl, line⟩ := List.eq_append_cons_of_mem feed
    have spaces : ∀ c ∈ l, c = ' ' := by
      intro c mem
      obtain ⟨m, n, rfl⟩ := List.append_of_mem mem
      refine bare.space_of_opens opens (l := m) (r := n ++ '\n' :: r) (by simp) ?_ ?_
      · exact fun inner => line (by simp [inner])
      · rintro rfl
        exact line (by simp)
    rw [List.append_assoc, opensHashLine_spaces spaces] at opens
    cases opens
  · obtain ⟨c, last, sealed⟩ := firm.last
    have settled := settles_of_isSeal sealed
    rcases List.eq_nil_or_concat y with rfl | ⟨l, d, rfl⟩
    · rw [List.getLast?_concat] at last
      cases last
      cases settled
    · rw [List.concat_eq_append] at *
      rw [← List.cons_append, ← List.append_assoc, List.getLast?_concat] at last
      obtain rfl : d = c := Option.some.inj last
      have space := bare.space_of_opens opens (l := l) (r := []) rfl
        (fun inner => feed (by simp [inner])) (ne_feed_of_settles settled)
      rw [space] at settled
      cases settled

end Bare

end Comment

end Phrasebook
