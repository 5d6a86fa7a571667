import Phrasebook.Proofs.CanonicalKeys
import Phrasebook.Proofs.Scan

/-!
# The braces of markers

Which places of a template are markers is said here by counting braces. A marker ends with the brace
that balances its opening brace for the first time (`Stands`). What stands before a marker does not open
another one, and if one opens behind the last marker, no brace up to the end of the template balances
it (`Marked`). There is exactly one list of markers like that, and the scan finds it
(`markers_eq_iff`).
-/

namespace Phrasebook.Template

/-- A text that closes as many braces as it opens. -/
def IsBalanced (t : Text) : Prop :=
  t.count '\x7b' = t.count '\x7d'

/-- A text of which no beginning is balanced, the empty one apart. -/
def NeverBalanced (t : Text) : Prop :=
  ∀ p, p <+: t → p ≠ [] → ¬IsBalanced p

/-- How a marker stands in its template. -/
structure Stands (t : Text) (m : Marker) : Prop where
  inside : m.stop ≤ t.length
  /-- The template has a dollar sign there, and the expression in braces. -/
  reads : Text.slice t m.start m.stop = written m.expression
  /-- The closing brace balances the opening one. -/
  closed : IsBalanced ('\x7b' :: m.expression ++ ['\x7d'])
  /-- No brace of the expression does. -/
  first : NeverBalanced ('\x7b' :: m.expression)

/-- The markers of a template from an offset on. -/
structure Marked (t : Text) (pos : Nat) (ms : List Marker) : Prop where
  ordered : ms.Pairwise fun a b => a.stop ≤ b.start
  behind : ∀ m ∈ ms, pos ≤ m.start
  stands : ∀ m ∈ ms, Stands t m
  /-- Nothing opens before the first marker, or between one and the next. -/
  between : ∀ g ∈ (segmentsFrom t pos ms).dropLast, ¬opener <:+: g
  /-- What opens first behind the last marker is not balanced up to the end. -/
  rest : ∀ before after, (segmentsFrom t pos ms).getLast? = some (before ++ '$' :: '\x7b' :: after) →
    ¬opener <:+: before → NeverBalanced ('\x7b' :: after)

variable {t e : Text} {depth pos : Nat} {m : Marker} {ms : List Marker}

/-! ## Balanced braces -/

/-- Behind `depth + 1` open braces, no beginning of a text closes them all. -/
def NeverClosed (depth : Nat) (t : Text) : Prop :=
  ∀ p, p <+: t → p.count '\x7d' ≠ depth + 1 + p.count '\x7b'

lemma neverClosed_nil : NeverClosed depth [] := by
  intro p front
  rw [List.prefix_nil.1 front, List.count_nil, List.count_nil]
  omega

/-- Only the beginnings that are not empty count. -/
lemma neverClosed_cons_iff {c : Char} :
    NeverClosed depth (c :: t) ↔
      ∀ p, p <+: t → (c :: p).count '\x7d' ≠ depth + 1 + (c :: p).count '\x7b' := by
  constructor
  · intro never p front
    exact never (c :: p) ((List.prefix_cons_inj c).2 front)
  · intro never p front
    rcases List.prefix_cons_iff.1 front with rfl | ⟨q, rfl, later⟩
    · exact neverClosed_nil [] List.prefix_rfl
    · exact never q later

lemma neverClosed_open : NeverClosed depth ('\x7b' :: t) ↔ NeverClosed (depth + 1) t := by
  rw [neverClosed_cons_iff]
  refine forall₂_congr fun p _ => not_congr ?_
  rw [List.count_cons_self, List.count_cons_of_ne (by decide)]
  omega

lemma neverClosed_close : NeverClosed (depth + 1) ('\x7d' :: t) ↔ NeverClosed depth t := by
  rw [neverClosed_cons_iff]
  refine forall₂_congr fun p _ => not_congr ?_
  rw [List.count_cons_self, List.count_cons_of_ne (by decide)]
  omega

lemma not_neverClosed_zero : ¬NeverClosed 0 ('\x7d' :: t) := by
  intro never
  exact never ['\x7d'] (List.prefix_append ['\x7d'] t) (by decide)

lemma neverClosed_other {c : Char} (opens : c ≠ '\x7b') (closes : c ≠ '\x7d') :
    NeverClosed depth (c :: t) ↔ NeverClosed depth t := by
  rw [neverClosed_cons_iff]
  refine forall₂_congr fun p _ => not_congr ?_
  rw [List.count_cons_of_ne closes, List.count_cons_of_ne opens]

lemma neverBalanced_iff : NeverBalanced ('\x7b' :: t) ↔ NeverClosed 0 t := by
  constructor
  · intro never p front balanced
    apply never ('\x7b' :: p) ((List.prefix_cons_inj _).2 front) (List.cons_ne_nil _ _)
    rw [IsBalanced, List.count_cons_self, List.count_cons_of_ne (by decide), balanced]
    omega
  · intro never p front filled balanced
    rcases List.prefix_cons_iff.1 front with rfl | ⟨q, rfl, later⟩
    · exact filled rfl
    · rw [IsBalanced, List.count_cons_self, List.count_cons_of_ne (by decide)] at balanced
      apply never q later
      omega

lemma isBalanced_enclosed_iff :
    IsBalanced ('\x7b' :: e ++ ['\x7d']) ↔ e.count '\x7d' = e.count '\x7b' := by
  have opened : ('\x7b' :: e ++ ['\x7d']).count '\x7b' = e.count '\x7b' + 1 := by simp
  have closed : ('\x7b' :: e ++ ['\x7d']).count '\x7d' = e.count '\x7d' + 1 := by simp
  rw [IsBalanced, opened, closed]
  omega

/-- The search for a closing brace fails exactly if no beginning closes all braces. -/
lemma balanced?_eq_none_iff : balanced? depth t = none ↔ NeverClosed depth t := by
  fun_induction balanced? depth t with
  | case1 => simp [neverClosed_nil]
  | case2 depth cs ih => rw [Option.map_eq_none_iff, ih, neverClosed_open]
  | case3 cs => simp [not_neverClosed_zero]
  | case4 cs other depth ih => rw [Option.map_eq_none_iff, ih, neverClosed_close]
  | case5 depth c cs opens closes ih =>
    rw [Option.map_eq_none_iff, ih, neverClosed_other opens closes]

/-- What the search for a closing brace passes leaves only the outermost brace open. -/
lemma closes_of_balanced? (found : balanced? depth t = some e) :
    e.count '\x7d' = depth + e.count '\x7b' ∧ NeverClosed depth e := by
  fun_induction balanced? depth t generalizing e with
  | case1 => cases found
  | case2 depth cs ih =>
    obtain ⟨run, inner, rfl⟩ := Option.map_eq_some_iff.1 found
    obtain ⟨count, never⟩ := ih inner
    refine ⟨?_, neverClosed_open.2 never⟩
    rw [List.count_cons_self, List.count_cons_of_ne (by decide), count]
    omega
  | case3 =>
    cases found
    exact ⟨rfl, neverClosed_nil⟩
  | case4 cs _ depth ih =>
    obtain ⟨run, inner, rfl⟩ := Option.map_eq_some_iff.1 found
    obtain ⟨count, never⟩ := ih inner
    refine ⟨?_, neverClosed_close.2 never⟩
    rw [List.count_cons_self, List.count_cons_of_ne (by decide), count]
    omega
  | case5 depth c cs opens closes ih =>
    obtain ⟨run, inner, rfl⟩ := Option.map_eq_some_iff.1 found
    obtain ⟨count, never⟩ := ih inner
    refine ⟨?_, (neverClosed_other opens closes).2 never⟩
    rw [List.count_cons_of_ne opens, List.count_cons_of_ne closes, count]

/-- The search for a closing brace stops at the first one that closes the outermost brace. -/
lemma balanced?_append (count : e.count '\x7d' = depth + e.count '\x7b')
    (never : NeverClosed depth e) (rest : Text) :
    balanced? depth (e ++ '\x7d' :: rest) = some e := by
  induction e generalizing depth with
  | nil =>
    obtain rfl : depth = 0 := by simpa using count.symm
    rfl
  | cons c cs ih =>
    rw [List.cons_append]
    unfold balanced?
    by_cases opens : c = '\x7b'
    · subst opens
      rw [List.count_cons_self, List.count_cons_of_ne (by decide)] at count
      rw [if_pos rfl, ih (by omega) (neverClosed_open.1 never)]
      rfl
    · rw [if_neg opens]
      by_cases closes : c = '\x7d'
      · subst closes
        rw [if_pos rfl]
        rw [List.count_cons_self, List.count_cons_of_ne (by decide)] at count
        cases depth with
        | zero => exact absurd never not_neverClosed_zero
        | succ depth =>
          dsimp only
          rw [ih (by omega) (neverClosed_close.1 never)]
          rfl
      · rw [List.count_cons_of_ne closes, List.count_cons_of_ne opens] at count
        rw [if_neg closes, ih count ((neverClosed_other opens closes).1 never)]
        rfl

/-- An opening brace that is balanced at all is balanced for the first time by some brace. -/
lemma exists_first_balance (balanced : ¬NeverBalanced ('\x7b' :: t)) :
    ∃ e rest, t = e ++ '\x7d' :: rest ∧ IsBalanced ('\x7b' :: e ++ ['\x7d']) ∧
      NeverBalanced ('\x7b' :: e) := by
  rw [neverBalanced_iff, ← balanced?_eq_none_iff] at balanced
  obtain ⟨e, found⟩ := Option.ne_none_iff_exists'.1 balanced
  obtain ⟨rest, split⟩ := eq_of_balanced? found
  obtain ⟨count, never⟩ := closes_of_balanced? found
  rw [Nat.zero_add] at count
  exact ⟨e, rest, split, isBalanced_enclosed_iff.2 count, neverBalanced_iff.2 never⟩

/-! ## The scan -/

/-- The scan passes over the characters of the last marker. -/
lemma markersFrom_skip (skip pos : Nat) (t : Text) :
    markersFrom skip pos t = markersFrom 0 (pos + skip) (t.drop skip) := by
  induction t generalizing skip pos with
  | nil => rw [List.drop_nil, markersFrom, markersFrom]
  | cons c cs ih =>
    cases skip with
    | zero => rfl
    | succ skip =>
      rw [markersFrom, ih, List.drop_succ_cons, Nat.add_assoc, Nat.add_comm 1]

/-- The scan passes over a text in which nothing opens, if no brace follows it. -/
lemma markersFrom_gap {gap : Text} (free : ¬opener <:+: gap) (head : t.head? ≠ some '\x7b') :
    markersFrom 0 pos (gap ++ t) = markersFrom 0 (pos + gap.length) t := by
  induction gap generalizing pos with
  | nil => rfl
  | cons c cs ih =>
    have closed : ¬opener.isPrefixOf (c :: (cs ++ t)) = true := by
      rw [List.isPrefixOf_iff_prefix]
      rintro ⟨rest, split⟩
      obtain ⟨rfl, next⟩ := List.cons.inj split
      cases cs with
      | nil => exact head (congrArg List.head? next).symm
      | cons d ds =>
        obtain ⟨rfl, -⟩ := List.cons.inj next
        exact free ⟨[], ds, rfl⟩
    rw [List.cons_append, markersFrom, if_neg closed, ih fun inner => free (List.infix_cons inner),
      List.length_cons, Nat.add_assoc, Nat.add_comm 1]

lemma markersFrom_unclosed (never : NeverBalanced ('\x7b' :: t)) :
    markersFrom 0 pos ('$' :: '\x7b' :: t) = [] := by
  have unclosed : balanced? 0 (('\x7b' :: t).drop 1) = none :=
    balanced?_eq_none_iff.2 (neverBalanced_iff.1 never)
  have opens : opener.isPrefixOf ('$' :: '\x7b' :: t) = true := rfl
  rw [markersFrom, if_pos opens, unclosed]

lemma markersFrom_closed (closed : IsBalanced ('\x7b' :: e ++ ['\x7d']))
    (first : NeverBalanced ('\x7b' :: e)) :
    markersFrom 0 pos (written e ++ t) =
      ⟨pos, pos + e.length + 3, e⟩ :: markersFrom 0 (pos + e.length + 3) t := by
  have text : written e ++ t = '$' :: ('\x7b' :: e ++ ['\x7d'] ++ t) := rfl
  have found : balanced? 0 (('\x7b' :: e ++ ['\x7d'] ++ t).drop 1) = some e := by
    rw [List.append_assoc]
    refine balanced?_append ?_ (neverBalanced_iff.1 first) t
    rw [isBalanced_enclosed_iff.1 closed, Nat.zero_add]
  have behind : ('\x7b' :: e ++ ['\x7d'] ++ t).drop (e.length + 2) = t := by
    apply List.drop_left'
    rw [List.length_append, List.length_cons, List.length_singleton]
  have opens : opener.isPrefixOf ('$' :: ('\x7b' :: e ++ ['\x7d'] ++ t)) = true := rfl
  rw [text, markersFrom, if_pos opens, found]
  dsimp only
  rw [markersFrom_skip, behind]
  congr 2
  omega

/-- Where something opens, something opens first. -/
lemma exists_first_opener (occurs : opener <:+: t) :
    ∃ before after, t = before ++ '$' :: '\x7b' :: after ∧ ¬opener <:+: before := by
  induction t with
  | nil => cases List.infix_nil.1 occurs
  | cons c cs ih =>
    by_cases front : opener <+: c :: cs
    · obtain ⟨after, split⟩ := front
      exact ⟨[], after, split.symm, fun found => by cases List.infix_nil.1 found⟩
    · obtain ⟨before, after, rfl, free⟩ := ih ((List.infix_cons_iff.1 occurs).resolve_left front)
      refine ⟨c :: before, after, rfl, ?_⟩
      rw [List.infix_cons_iff]
      rintro (early | inner)
      · exact front (early.trans (List.prefix_append (c :: before) _))
      · exact free inner

/-- The scan finds nothing exactly if what opens first is never balanced. -/
lemma markersFrom_eq_nil_iff :
    markersFrom 0 pos t = [] ↔ ∀ before after, t = before ++ '$' :: '\x7b' :: after →
      ¬opener <:+: before → NeverBalanced ('\x7b' :: after) := by
  constructor
  · rintro unmarked before after rfl free
    by_contra balanced
    obtain ⟨e, rest, rfl, closed, first⟩ := exists_first_balance balanced
    have text : '$' :: '\x7b' :: (e ++ '\x7d' :: rest) = written e ++ rest := by simp [written]
    rw [markersFrom_gap free (by simp), text, markersFrom_closed closed first] at unmarked
    cases unmarked
  · intro never
    by_cases occurs : opener <:+: t
    · obtain ⟨before, after, rfl, free⟩ := exists_first_opener occurs
      rw [markersFrom_gap free (by simp)]
      exact markersFrom_unclosed (never before after rfl free)
    · have gap := @markersFrom_gap [] pos t occurs (by simp)
      rwa [List.append_nil] at gap

lemma Stands.stop_eq (stands : Stands t m) : m.stop = m.start + m.expression.length + 3 := by
  have size := congrArg List.length stands.reads
  rw [Text.length_slice stands.inside] at size
  simp only [written, List.length_append, List.length_cons, List.length_nil] at size
  omega

/-- A template from some place on is what stands before a marker, the marker, and the rest. -/
lemma Stands.drop_eq (stands : Stands t m) (behind : pos ≤ m.start) :
    t.drop pos = Text.slice t pos m.start ++ (written m.expression ++ t.drop m.stop) := by
  have stop := stands.stop_eq
  rw [← stands.reads, ← Text.drop_eq_slice_append t (by omega), ← Text.drop_eq_slice_append t behind]

/-- A marker that is balanced for the first time by its closing brace stands where the text is cut
around it. -/
lemma stands_of_drop_eq {before rest : Text} (split : t.drop pos = before ++ (written e ++ rest))
    (closed : IsBalanced ('\x7b' :: e ++ ['\x7d'])) (first : NeverBalanced ('\x7b' :: e)) :
    let start := pos + before.length
    let stop := start + e.length + 3
    Stands t ⟨start, stop, e⟩ ∧ Text.slice t pos start = before ∧ t.drop stop = rest := by
  intro start stop
  have length : (written e).length = e.length + 3 := by simp [written]
  have size := congrArg List.length split
  rw [List.length_drop, List.length_append, List.length_append, length] at size
  have behind : t.drop start = written e ++ rest := by
    rw [← List.drop_drop, split, List.drop_left]
  refine ⟨⟨?_, ?_, closed, first⟩, ?_, ?_⟩
  · show start + e.length + 3 ≤ t.length
    omega
  · rw [Text.slice, behind]
    apply List.take_left'
    show (written e).length = start + e.length + 3 - start
    omega
  · rw [Text.slice, split, Nat.add_sub_cancel_left, List.take_left]
  · rw [show stop = start + (e.length + 3) from Nat.add_assoc .., ← List.drop_drop, behind]
    exact List.drop_left' length

/-- The scan finds a marker first exactly if it stands there and nothing opens before it. -/
lemma markersFrom_eq_cons_iff :
    markersFrom 0 pos (t.drop pos) = m :: ms ↔
      pos ≤ m.start ∧ Stands t m ∧ ¬opener <:+: Text.slice t pos m.start ∧
        markersFrom 0 m.stop (t.drop m.stop) = ms := by
  constructor
  · intro found
    have filled : markersFrom 0 pos (t.drop pos) ≠ [] := by
      rw [found]
      exact List.cons_ne_nil _ _
    rw [Ne, markersFrom_eq_nil_iff] at filled
    push Not at filled
    obtain ⟨before, after, split, free, balanced⟩ := filled
    obtain ⟨e, rest, rfl, closed, first⟩ := exists_first_balance balanced
    have split : t.drop pos = before ++ (written e ++ rest) := by simp [split, written]
    rw [split, markersFrom_gap free (by simp [written]), markersFrom_closed closed first] at found
    obtain ⟨rfl, rfl⟩ := List.cons.inj found
    obtain ⟨stands, gap, behind⟩ := stands_of_drop_eq split closed first
    exact ⟨Nat.le_add_right _ _, stands, by rwa [gap], by rw [behind]⟩
  · rintro ⟨behind, stands, free, rfl⟩
    have size : pos + (Text.slice t pos m.start).length = m.start := by
      have stop := stands.stop_eq
      rw [Text.length_slice (Nat.le_trans (by omega) stands.inside)]
      omega
    rw [stands.drop_eq behind, markersFrom_gap free (by simp [written]), size,
      markersFrom_closed stands.closed stands.first, ← stands.stop_eq]

/-! ## Exactly these markers -/

lemma marked_nil_iff :
    Marked t pos [] ↔ ∀ before after, t.drop pos = before ++ '$' :: '\x7b' :: after →
      ¬opener <:+: before → NeverBalanced ('\x7b' :: after) := by
  constructor
  · intro marked before after split
    exact marked.rest before after (congrArg some split)
  · intro never
    refine ⟨List.Pairwise.nil, ?_, ?_, ?_, ?_⟩
    · intro m found
      cases found
    · intro m found
      cases found
    · intro g found
      cases found
    · intro before after last
      exact never before after (Option.some.inj last)

lemma marked_cons_iff :
    Marked t pos (m :: ms) ↔
      pos ≤ m.start ∧ Stands t m ∧ ¬opener <:+: Text.slice t pos m.start ∧ Marked t m.stop ms := by
  have filled : segmentsFrom t m.stop ms ≠ [] :=
    List.ne_nil_of_length_eq_add_one (length_segmentsFrom t m.stop ms)
  have front : (segmentsFrom t pos (m :: ms)).dropLast =
      Text.slice t pos m.start :: (segmentsFrom t m.stop ms).dropLast :=
    List.dropLast_cons_of_ne_nil filled
  have last : (segmentsFrom t pos (m :: ms)).getLast? = (segmentsFrom t m.stop ms).getLast? := by
    rw [segmentsFrom, List.getLast?_cons_of_ne_nil filled]
  constructor
  · intro marked
    obtain ⟨next, ordered⟩ := List.pairwise_cons.1 marked.ordered
    have between := marked.between
    rw [front, List.forall_mem_cons] at between
    have rest := marked.rest
    rw [last] at rest
    exact ⟨marked.behind m List.mem_cons_self, marked.stands m List.mem_cons_self, between.1,
      ordered, next, fun n mem => marked.stands n (List.mem_cons_of_mem m mem), between.2, rest⟩
  · rintro ⟨behind, stands, free, marked⟩
    have stop := stands.stop_eq
    refine ⟨List.pairwise_cons.2 ⟨marked.behind, marked.ordered⟩, ?_, ?_, ?_, ?_⟩
    · rw [List.forall_mem_cons]
      refine ⟨behind, fun n mem => ?_⟩
      have later := marked.behind n mem
      omega
    · exact List.forall_mem_cons.2 ⟨stands, marked.stands⟩
    · rw [front]
      exact List.forall_mem_cons.2 ⟨free, marked.between⟩
    · rw [last]
      exact marked.rest

lemma markersFrom_eq_iff : markersFrom 0 pos (t.drop pos) = ms ↔ Marked t pos ms := by
  induction ms generalizing pos with
  | nil => rw [markersFrom_eq_nil_iff, marked_nil_iff]
  | cons m ms ih => rw [markersFrom_eq_cons_iff, marked_cons_iff, ih]

/-- The markers of a template are in order and apart, each stands in the template from its dollar sign
to the brace that balances its opening brace for the first time, with its expression between the
braces. Nothing opens before the first of them or between one and the next, and what opens first
behind the last one is not balanced up to the end. No other list is like that. -/
theorem markers_eq_iff (t : Text) (ms : List Marker) : markers t = ms ↔ Marked t 0 ms :=
  markersFrom_eq_iff

/-- Two dollar signs, nested braces, a stray closing brace, and a marker inside one that is not closed. -/
example :
    markers "$$\x7ba\x7bb\x7d\x7d\x7d$\x7bc $\x7bd\x7d".toList =
      [⟨1, 8, "a\x7bb\x7d".toList⟩] := by
  decide

end Phrasebook.Template
