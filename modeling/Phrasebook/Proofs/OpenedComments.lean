import Mathlib.Data.List.Infix
import Phrasebook.Proofs.Assignments
import Phrasebook.Proofs.CodeLines

/-!
# Texts with comments and without

Whether a text has a delimited comment is said without a scan: somewhere in it a comment opens and is
closed (`Opens`, `delimited_eq_nil_iff`). In a text that is made of parts with gaps between them, where
the gaps hold no marks of comments, a comment opens in one part and is closed in the same part or in a
later one (`opens_gapped`). Removing the comments of a text takes at least one character from it that
opens a comment (`countP_strip_lt`).
-/

namespace Phrasebook

namespace Text

variable {p x g y a b : Text}

/-- A piece of two texts with a gap between them, none of whose characters is in the gap, lies in one of
the two. -/
lemma split_gap (nonempty : p ≠ []) (gap : g ≠ []) (apart : ∀ c ∈ p, c ∉ g)
    (same : x ++ (g ++ y) = a ++ (p ++ b)) :
    (∃ b', x = a ++ (p ++ b') ∧ b = b' ++ (g ++ y)) ∨ ∃ a', a = x ++ (g ++ a') ∧ y = a' ++ (p ++ b) := by
  -- two texts that begin alike, one with the piece and one with the gap, cannot both have characters
  have clash : ∀ {u v w z : Text}, u ++ v = w ++ z → (∀ c ∈ u, c ∈ p) → (∀ c ∈ w, c ∈ g) → w ≠ [] →
      u = [] := by
    intro u v w z begin piece inGap filled
    cases u with
    | nil => rfl
    | cons c u =>
      obtain ⟨d, w, rfl⟩ := List.exists_cons_of_ne_nil filled
      obtain rfl : c = d := (List.cons.inj begin).1
      exact absurd (inGap c List.mem_cons_self) (apart c (piece c List.mem_cons_self))
  rcases List.append_eq_append_iff.1 same with ⟨a1, rfl, rest⟩ | ⟨x1, rfl, rest⟩
  · right
    rcases List.append_eq_append_iff.1 rest with ⟨a2, rfl, split⟩ | ⟨g1, cut, split⟩
    · exact ⟨a2, rfl, split⟩
    · have empty : p = [] ∨ g1 = [] := by
        by_cases filled : g1 = []
        · exact .inr filled
        · exact .inl (clash split (fun _ mem => mem)
            (fun c mem => cut ▸ List.mem_append_right a1 mem) filled)
      obtain rfl := empty.resolve_left nonempty
      refine ⟨[], ?_, split.symm⟩
      rw [cut, List.append_nil, List.append_nil]
  · left
    rcases List.append_eq_append_iff.1 rest with ⟨x2, rfl, split⟩ | ⟨p1, cut, split⟩
    · exact ⟨x2, rfl, split⟩
    · obtain rfl : p1 = [] :=
        clash split.symm (fun c mem => cut ▸ List.mem_append_right x1 mem) (fun _ mem => mem) gap
      rw [List.append_nil] at cut
      refine ⟨[], ?_, split.symm⟩
      rw [cut, List.append_nil]

lemma infix_gap (nonempty : p ≠ []) (gap : g ≠ []) (apart : ∀ c ∈ p, c ∉ g) :
    p <:+: x ++ (g ++ y) ↔ p <:+: x ∨ p <:+: y := by
  constructor
  · rintro ⟨a, b, whole⟩
    rw [List.append_assoc] at whole
    rcases split_gap nonempty gap apart whole.symm with ⟨b', rfl, -⟩ | ⟨a', -, rfl⟩
    · exact .inl ⟨a, b', List.append_assoc ..⟩
    · exact .inr ⟨a', b, List.append_assoc ..⟩
  · rintro (left | right)
    · exact left.trans (List.prefix_append x _).isInfix
    · exact right.trans ((List.suffix_append g y).trans (List.suffix_append x _)).isInfix

end Text

namespace Comment

/-! ## Comments that open and are closed -/

/-- In a text a delimited comment opens that is closed behind its opening or in one of the texts
`later`; a line comment needs no closing. -/
inductive Opens : Text → List Text → Prop where
  | bracket {k : Text × Text} {a b : Text} {later : List Text} (known : k ∈ brackets)
      (closed : ∃ u ∈ b :: later, k.2 <:+: u) : Opens (a ++ (k.1 ++ b)) later
  | line {a b : Text} {later : List Text} (free : guards a.getLast? = false) :
      Opens (a ++ (['/', '/'] ++ b)) later

variable {t x g y : Text} {later later' : List Text}

/-- A text has no delimited comments exactly if none opens and is closed in it. -/
lemma delimited_eq_nil_iff : delimited t = [] ↔ ¬Opens t [] := by
  constructor
  · intro nothing opens
    have unread : ∀ {before rest}, before ++ rest = t → rest ≠ [] →
        lengthAt before.getLast? rest = none := by
      rintro before rest rfl more
      have silent := Text.read_eq_none_of_hitsFrom_eq_nil (List.map_eq_nil_iff.1 nothing) more
      rw [Option.or_none] at silent
      exact Option.map_eq_none_iff.1 silent
    cases opens with
    | @bracket k a b _ known closed =>
      obtain ⟨u, mem, found⟩ := closed
      obtain rfl := List.mem_singleton.1 mem
      have opener := (brackets_ne_nil known).1
      have unclosed := unread rfl (by simp [opener])
      rw [lengthAt_bracket known, Option.map_eq_none_iff, Text.find?_eq_none_iff] at unclosed
      exact unclosed found
    | @line a b _ free =>
      have unopened := unread rfl (by simp)
      rw [List.cons_append, List.singleton_append, lengthAt_slashes, free] at unopened
      cases unopened
  · intro nowhere
    rw [List.eq_nil_iff_forall_not_mem]
    intro d mem
    obtain ⟨h, hit, -⟩ := List.mem_map.1 mem
    obtain ⟨n, read, -⟩ := Option.map_eq_some_iff.1 (Text.hits_read_behind hit)
    apply nowhere
    rw [← List.take_append_drop h.start t]
    rcases lengthAt_cases read with ⟨k, known, rest, i, split, found, -⟩ | ⟨rest, split, free, -⟩
    · rw [split]
      refine .bracket known ⟨rest, List.mem_cons_self, ?_⟩
      by_contra missing
      rw [Text.find?_eq_none_iff.2 missing] at found
      cases found
    · rw [split]
      exact .line free

lemma Opens.congr (opens : Opens x later)
    (same : ∀ k ∈ brackets, (∃ u ∈ later, k.2 <:+: u) → ∃ u ∈ later', k.2 <:+: u) :
    Opens x later' := by
  cases opens with
  | @bracket k a b _ known closed =>
    apply Opens.bracket known
    rw [List.exists_mem_cons_iff] at closed ⊢
    exact closed.imp_right (same k known)
  | line free => exact .line free

/-! ## Texts of parts with gaps -/

/-- A text that keeps the comments on its two sides apart. -/
structure Gap (g : Text) : Prop where
  nonempty : g ≠ []
  unmarked : ∀ c ∈ g, isMark c = false
  /-- A line comment may open right behind it. -/
  free : guards g.getLast? = false

lemma isMark_of_bracket {k : Text × Text} (known : k ∈ brackets) :
    (∀ c ∈ k.1, isMark c = true) ∧ ∀ c ∈ k.2, isMark c = true := by
  have marks : brackets.all (fun k => k.1.all isMark && k.2.all isMark) = true := by decide
  have both := List.all_eq_true.1 marks k known
  rwa [Bool.and_eq_true, List.all_eq_true, List.all_eq_true] at both

lemma Gap.apart {p : Text} (gap : Gap g) (marks : ∀ c ∈ p, isMark c = true) : ∀ c ∈ p, c ∉ g := by
  intro c mem inside
  have mark := marks c mem
  rw [gap.unmarked c inside] at mark
  cases mark

/-- A comment in a text with a gap opens before the gap or behind it. -/
lemma opens_gap (gap : Gap g) : Opens (x ++ (g ++ y)) [] ↔ Opens x [y] ∨ Opens y [] := by
  have shut : ∀ {k}, k ∈ brackets → ∀ {u}, k.2 <:+: u ++ (g ++ y) ↔ k.2 <:+: u ∨ k.2 <:+: y := by
    intro k known u
    exact Text.infix_gap (brackets_ne_nil known).2 gap.nonempty (gap.apart (isMark_of_bracket known).2)
  constructor
  · intro opens
    generalize whole : x ++ (g ++ y) = t at opens
    cases opens with
    | @bracket k a b _ known closed =>
      obtain ⟨u, mem, found⟩ := closed
      obtain rfl := List.mem_singleton.1 mem
      rcases Text.split_gap (brackets_ne_nil known).1 gap.nonempty
        (gap.apart (isMark_of_bracket known).1) whole with ⟨b', rfl, rfl⟩ | ⟨a', -, rfl⟩
      · left
        apply Opens.bracket known
        rcases (shut known).1 found with here | behind
        · exact ⟨b', List.mem_cons_self, here⟩
        · exact ⟨y, List.mem_cons_of_mem _ List.mem_cons_self, behind⟩
      · exact .inr (.bracket known ⟨u, List.mem_cons_self, found⟩)
    | @line a b _ free =>
      rcases Text.split_gap (by simp) gap.nonempty (gap.apart (by simp [isMark])) whole with
        ⟨b', rfl, -⟩ | ⟨a', rfl, rfl⟩
      · exact .inl (.line free)
      · refine .inr (.line ?_)
        cases last : a'.getLast? with
        | none => rfl
        | some c =>
          rw [List.getLast?_append, List.getLast?_append, last] at free
          exact free
  · rintro (before | behind)
    · cases before with
      | @bracket k a b _ known closed =>
        rw [List.append_assoc, List.append_assoc]
        refine .bracket known ⟨_, List.mem_cons_self, (shut known).2 ?_⟩
        simpa using closed
      | @line a b _ free =>
        rw [List.append_assoc, List.append_assoc]
        exact .line free
    · cases behind with
      | @bracket k a b _ known closed =>
        rw [← List.append_assoc, ← List.append_assoc]
        exact .bracket known closed
      | @line a b _ free =>
        rw [← List.append_assoc, ← List.append_assoc]
        apply Opens.line
        rw [List.getLast?_append]
        cases last : a.getLast? with
        | none =>
          rw [Option.none_or, List.getLast?_append, List.getLast?_eq_some_getLast gap.nonempty, Option.some_or,
            ← List.getLast?_eq_some_getLast]
          exact gap.free
        | some c =>
          rw [last] at free
          exact free

/-- Parts of a text, each with the gap behind it. -/
def gapped (ps : List (Text × Text)) : Text :=
  ps.flatMap fun p => p.1 ++ p.2

lemma gapped_cons (p : Text × Text) (ps : List (Text × Text)) :
    gapped (p :: ps) = p.1 ++ (p.2 ++ gapped ps) := by
  rw [gapped, List.flatMap_cons, List.append_assoc, gapped]

lemma closed_gapped {k : Text × Text} (known : k ∈ brackets) {ps : List (Text × Text)}
    (gaps : ∀ p ∈ ps, Gap p.2) : k.2 <:+: gapped ps ↔ ∃ u ∈ ps.map Prod.fst, k.2 <:+: u := by
  induction ps with
  | nil => simp [gapped, (brackets_ne_nil known).2]
  | cons p ps ih =>
    obtain ⟨gap, rest⟩ := List.forall_mem_cons.1 gaps
    rw [gapped_cons, List.map_cons, List.exists_mem_cons_iff, ← ih rest]
    exact Text.infix_gap (brackets_ne_nil known).2 gap.nonempty (gap.apart (isMark_of_bracket known).2)

/-- A comment in a text of parts opens in a part and is closed there or in a later one. -/
lemma opens_gapped {ps : List (Text × Text)} (gaps : ∀ p ∈ ps, Gap p.2) :
    Opens (gapped ps) [] ↔ ∃ t later, t :: later <:+ ps.map Prod.fst ∧ Opens t later := by
  induction ps with
  | nil =>
    constructor
    · intro opens
      exact absurd opens (delimited_eq_nil_iff.1 rfl)
    · rintro ⟨t, later, ends, -⟩
      cases List.suffix_nil.1 ends
  | cons p ps ih =>
    obtain ⟨gap, rest⟩ := List.forall_mem_cons.1 gaps
    have here : Opens p.1 [gapped ps] ↔ Opens p.1 (ps.map Prod.fst) := by
      constructor
      · intro opens
        apply opens.congr
        rintro k known ⟨u, mem, found⟩
        obtain rfl := List.mem_singleton.1 mem
        exact (closed_gapped known rest).1 found
      · intro opens
        apply opens.congr
        intro k known found
        exact ⟨_, List.mem_cons_self, (closed_gapped known rest).2 found⟩
    rw [gapped_cons, opens_gap gap, here, ih rest, List.map_cons]
    constructor
    · rintro (opens | ⟨t, later, ends, opens⟩)
      · exact ⟨_, _, List.suffix_rfl, opens⟩
      · exact ⟨t, later, ends.trans (List.suffix_cons _ _), opens⟩
    · rintro ⟨t, later, ends, opens⟩
      rcases List.suffix_cons_iff.1 ends with same | ends
      · obtain ⟨rfl, rfl⟩ := List.cons.inj same
        exact .inl opens
      · exact .inr ⟨t, later, ends, opens⟩

/-! ## What removing comments takes away -/

/-- The characters with which delimited comments begin. -/
def isOpener (c : Char) : Bool :=
  c == '/' || c == '<'

variable {pos : Nat} {ss : List Span}

/-- In a text without hash lines the comments are the delimited ones. -/
lemma spans_eq_delimited (plain : ∀ l ∈ Text.lines t, isHashLine l = false) :
    spans t = delimited t := by
  have sorted : (delimited t).Pairwise fun a b => Span.le a b = true := by
    apply (delimited_pairwise t).imp_of_mem
    intro a b mem _ before
    have bounds := (delimited_bounds mem).1
    rw [Span.le, decide_eq_true (by omega : a.start < b.start), Bool.true_or]
  have hashed : hashLinesFrom 0 (Text.lines t) = [] := hashLinesFrom_eq_nil plain 0
  rw [spans, hashed, List.filter_nil, List.append_nil]
  exact List.mergeSort_of_pairwise sorted

/-- Over disjoint ranges, filling with line feeds only takes characters away. -/
lemma refill_sublist (ordered : ss.Pairwise fun a b => a.stop ≤ b.start)
    (bounds : ∀ s ∈ ss, pos ≤ s.start ∧ s.start ≤ s.stop) :
    (refill feeds t pos ss).Sublist (t.drop pos) := by
  induction ss generalizing pos with
  | nil => exact List.Sublist.refl _
  | cons s ss ih =>
    obtain ⟨first, rest⟩ := List.pairwise_cons.1 ordered
    obtain ⟨before, size⟩ := bounds s List.mem_cons_self
    have later := ih rest fun r mem => ⟨first r mem, (bounds r (List.mem_cons_of_mem s mem)).2⟩
    rw [refill, Text.drop_eq_slice_append t before, Text.drop_eq_slice_append t size, List.append_assoc]
    exact (List.Sublist.refl _).append (List.filter_sublist.append later)

lemma countP_feeds (t : Text) : (feeds t).countP isOpener = 0 := by
  rw [List.countP_eq_zero]
  intro c mem
  obtain rfl : c = '\n' := by simpa [feeds] using (List.mem_filter.1 mem).2
  decide

/-- A text that has comments loses one of the characters that open them, if it has no hash lines. -/
lemma countP_strip_lt (plain : ∀ l ∈ Text.lines t, isHashLine l = false) (opens : Opens t []) :
    (strip t).countP isOpener < t.countP isOpener := by
  have nonempty : delimited t ≠ [] := fun nothing => delimited_eq_nil_iff.1 nothing opens
  have ordered := delimited_pairwise t
  have reads : ∀ d ∈ delimited t, ∃ c, t[d.start]? = Option.some c ∧ isOpener c = true := by
    intro d mem
    obtain ⟨h, hit, rfl⟩ := List.mem_map.1 mem
    obtain ⟨n, read, -⟩ := Option.map_eq_some_iff.1 (Text.hits_read_behind hit)
    have head := head?_of_lengthAt read
    rw [List.head?_drop] at head
    rcases head with slash | angle
    · exact ⟨_, slash, rfl⟩
    · exact ⟨_, angle, rfl⟩
  have bounds : ∀ d ∈ delimited t, d.start < d.stop := fun d mem => (delimited_bounds mem).1
  show (refill feeds t 0 (spans t)).countP isOpener < _
  rw [spans_eq_delimited plain]
  cases found : delimited t with
  | nil => exact absurd found nonempty
  | cons d ds =>
    rw [found] at ordered reads bounds
    obtain ⟨first, rest⟩ := List.pairwise_cons.1 ordered
    have size := bounds d List.mem_cons_self
    have behind : (refill feeds t d.stop ds).Sublist (t.drop d.stop) :=
      refill_sublist rest fun r mem =>
        ⟨first r mem, Nat.le_of_lt (bounds r (List.mem_cons_of_mem d mem))⟩
    have lost : 0 < (Text.slice t d.start d.stop).countP isOpener := by
      obtain ⟨c, char, opener⟩ := reads d List.mem_cons_self
      refine List.countP_pos_iff.2 ⟨c, ?_, opener⟩
      refine List.mem_of_getElem? (i := 0) ?_
      rw [Text.getElem?_slice, if_pos (by omega)]
      exact char
    have whole : t = Text.slice t 0 d.start ++ (Text.slice t d.start d.stop ++ t.drop d.stop) := by
      rw [← Text.drop_eq_slice_append t (Nat.le_of_lt size),
        ← Text.drop_eq_slice_append t (Nat.zero_le _), List.drop_zero]
    have kept : _ ≤ (t.drop d.stop).countP isOpener := behind.countP_le
    have parts := congrArg (List.countP isOpener) whole
    rw [List.countP_append, List.countP_append] at parts
    rw [refill, List.countP_append, List.countP_append, countP_feeds]
    omega

/-- A text in which no comment opens stays as it is, if it has no hash lines. -/
lemma strip_eq_self (plain : ∀ l ∈ Text.lines t, isHashLine l = false) (closed : ¬Opens t []) :
    strip t = t := by
  rw [strip, spans_eq_delimited plain, delimited_eq_nil_iff.2 closed]
  rfl

end Comment

end Phrasebook
