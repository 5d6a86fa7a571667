import Phrasebook.Proofs.CommentMask

/-!
# The comments of a text, character by character

`shades` reads a text once from left to right and says of each character whether it lies in a
delimited comment and whether it lies in a hash line. The reader remembers how much of a delimited
comment is still ahead, the character before, and whether the line is a hash line. It finds what the
two scans find (`getElem?_shades`), so a text is separate exactly if no character lies in comments
of both kinds (`separate_iff_shades`).
-/

namespace Phrasebook

namespace Comment

/-- How a character lies in the comments of its text. -/
@[ext]
structure Shade where
  /-- Whether it lies in a delimited comment. -/
  delimited : Bool
  /-- Whether it lies in a hash line that does not start in a delimited comment. -/
  hashed : Bool
  deriving Repr, DecidableEq

/-- Whether the first line of a text is a hash line. -/
def opensHashLine (t : Text) : Bool :=
  isHashLine (t.takeWhile (· != '\n'))

/-- Whether a line starts behind a character. -/
def startsLine (prev : Option Char) : Bool :=
  prev.all (· == '\n')

/-- How long the delimited comment at a place still is, where `skip` characters of it are ahead. -/
def leftAt (skip : Nat) (prev : Option Char) (t : Text) : Option Nat :=
  if skip = 0 then lengthAt prev t else some skip

/-- Whether a place lies in a hash line, where `hash` says so of the place before. -/
def hashAt (skip : Nat) (prev : Option Char) (hash : Bool) (t : Text) : Bool :=
  if startsLine prev then (leftAt skip prev t).isNone && opensHashLine t else hash

/-- The shades of a text behind the character `prev`, where `skip` characters of a delimited comment
are still ahead and `hash` says whether the line is a hash line. -/
def shadesFrom : Nat → Option Char → Bool → Text → List Shade
  | _, _, _, [] => []
  | skip, prev, hash, c :: cs =>
    ⟨(leftAt skip prev (c :: cs)).isSome, hashAt skip prev hash (c :: cs) && c != '\n'⟩ ::
      shadesFrom ((leftAt skip prev (c :: cs)).getD 1 - 1) (some c)
        (hashAt skip prev hash (c :: cs)) cs

/-- The shades of a text. -/
def shades (t : Text) : List Shade :=
  shadesFrom 0 none false t

lemma length_shadesFrom (skip : Nat) (prev : Option Char) (hash : Bool) (t : Text) :
    (shadesFrom skip prev hash t).length = t.length := by
  induction t generalizing skip prev hash with
  | nil => rfl
  | cons c cs ih => simp [shadesFrom, ih]

/-- The reader passes over what is left of a comment and finds the hits of the scan behind it. -/
lemma delimited_shadesFrom (skip pos : Nat) (prev : Option Char) (hash : Bool) (t : Text) (i : Nat) :
    (shadesFrom skip prev hash t)[i]?.map Shade.delimited =
      t[i]?.map fun _ => decide (i < skip) ||
        (Text.hitsFrom (fun prev rest => (lengthAt prev rest).map (·, ())) skip pos prev t).any
          fun h => h.start ≤ pos + i && pos + i < h.stop := by
  induction t generalizing skip pos prev hash i with
  | nil => rfl
  | cons c cs ih =>
    cases i with
    | zero =>
      have behind : ∀ {k q}, (Text.hitsFrom (fun prev rest => (lengthAt prev rest).map (·, ())) k
          (pos + 1) q cs).any (fun h => h.start ≤ pos && pos < h.stop) = false := by
        intro k q
        simp only [List.any_eq_false, Bool.and_eq_true, decide_eq_true_eq]
        intro h mem covered
        have bounds := Text.hitsFrom_bounds delimited_fits mem
        omega
      cases skip with
      | succ skip => simp [shadesFrom, leftAt]
      | zero =>
        cases read : lengthAt prev (c :: cs) with
        | none => simp [shadesFrom, leftAt, Text.hitsFrom, read, behind]
        | some n => simp [shadesFrom, leftAt, Text.hitsFrom, read, (lengthAt_bounds read).1]
    | succ i =>
      have place : pos + (i + 1) = pos + 1 + i := by omega
      rw [place]
      cases skip with
      | succ skip =>
        have rest := ih skip (pos + 1) (some c)
        simp only [shadesFrom, List.getElem?_cons_succ, Text.hitsFrom, Nat.add_lt_add_iff_right]
        exact rest (hashAt (skip + 1) prev hash (c :: cs)) i
      | zero =>
        cases read : lengthAt prev (c :: cs) with
        | none =>
          have rest := ih 0 (pos + 1) (some c)
          simp only [shadesFrom, leftAt, Text.hitsFrom, if_true, read, List.getElem?_cons_succ,
            Option.map_none, Nat.not_lt_zero]
          simpa using rest (hashAt 0 prev hash (c :: cs)) i
        | some n =>
          have rest := ih (n - 1) (pos + 1) (some c)
          have within : (decide (pos ≤ pos + 1 + i) && decide (pos + 1 + i < pos + n)) =
              decide (i < n - 1) := by
            rw [← Bool.decide_and]
            exact decide_eq_decide.2 (by omega)
          simp only [shadesFrom, leftAt, Text.hitsFrom, if_true, read, List.getElem?_cons_succ,
            Option.map_some, List.any_cons, within, Nat.not_lt_zero]
          simpa using rest (hashAt 0 prev hash (c :: cs)) i

lemma lines_cons (c : Char) (t : Text) :
    Text.lines (c :: t) =
      if c = '\n' then [] :: Text.lines t else (Text.lines t).modifyHead (c :: ·) := by
  rw [Text.lines, List.splitOn_cons_eq_if_modifyHead]
  simp [Text.lines]

lemma exists_lines (t : Text) :
    ∃ ls, Text.lines t = t.takeWhile (· != '\n') :: ls := by
  induction t with
  | nil => exact ⟨[], rfl⟩
  | cons c cs ih =>
    rw [lines_cons]
    by_cases feed : c = '\n'
    · exact ⟨Text.lines cs, by simp [feed]⟩
    · obtain ⟨ls, split⟩ := ih
      exact ⟨ls, by simp [feed, split]⟩

lemma inside_cons (s : Span) (ss : List Span) (i : Nat) :
    inside (s :: ss) i = (s.covers i || inside ss i) :=
  rfl

/-- The hash lines of some lines that pass a test at their start cover the offsets of the first line
if it is one of them, and behind it what those of the other lines cover. -/
lemma inside_hashLinesFrom_cons (f : Nat → Bool) (pos : Nat) (l : Text) (ls : List Text) (i : Nat) :
    inside ((hashLinesFrom pos (l :: ls)).filter fun s => !f s.start) (pos + i) =
      if i < l.length then !f pos && isHashLine l
      else inside ((hashLinesFrom (pos + l.length + 1) ls).filter fun s => !f s.start) (pos + i) := by
  have covers : (⟨pos, pos + l.length⟩ : Span).covers (pos + i) = decide (i < l.length) := by
    simp [Span.covers]
  have behind : i < l.length →
      inside ((hashLinesFrom (pos + l.length + 1) ls).filter fun s => !f s.start) (pos + i) =
        false := by
    intro within
    refine inside_eq_false fun s mem => ?_
    have bounds := hashLinesFrom_bounds (List.mem_filter.1 mem).1
    omega
  rw [hashLinesFrom]
  cases hash : isHashLine l with
  | false =>
    by_cases within : i < l.length
    · simp [within, behind]
    · simp [within]
  | true =>
    cases taken : f pos with
    | true =>
      by_cases within : i < l.length
      · simp [within, behind, taken]
      · simp [within, taken]
    | false =>
      by_cases within : i < l.length
      · simp [within, taken, inside_cons, covers]
      · simp [within, taken, inside_cons, covers]

/-- The reader finds the hash lines that do not start in a delimited comment. -/
lemma hashed_shadesFrom {f : Nat → Bool} {skip pos : Nat} {prev : Option Char} {hash : Bool}
    {t l : Text} {ls : List Text} (split : Text.lines t = l :: ls)
    (agree : ∀ j x, (shadesFrom skip prev hash t)[j]? = some x → f (pos + j) = x.delimited)
    (i : Nat) :
    (shadesFrom skip prev hash t)[i]?.map Shade.hashed =
      t[i]?.map fun _ =>
        if i < l.length then if startsLine prev then !f pos && opensHashLine t else hash
        else inside ((hashLinesFrom (pos + l.length + 1) ls).filter fun s => !f s.start)
          (pos + i) := by
  induction t generalizing skip pos prev hash l ls i with
  | nil => rfl
  | cons c cs ih =>
    have here : f pos = (leftAt skip prev (c :: cs)).isSome := agree 0 _ rfl
    have next : ∀ j x, (shadesFrom ((leftAt skip prev (c :: cs)).getD 1 - 1) (some c)
        (hashAt skip prev hash (c :: cs)) cs)[j]? = some x → f (pos + 1 + j) = x.delimited := by
      intro j x found
      rw [Nat.add_assoc, Nat.add_comm 1]
      exact agree (j + 1) x found
    obtain ⟨rest, parts⟩ := exists_lines cs
    rw [lines_cons, parts] at split
    by_cases feed : c = '\n'
    · obtain ⟨rfl, rfl⟩ := List.cons.inj ((if_pos feed).symm.trans split)
      cases i with
      | zero =>
        have first : inside ((hashLinesFrom (pos + 1) (cs.takeWhile (· != '\n') :: rest)).filter
            fun s => !f s.start) pos = false := by
          refine inside_eq_false fun s mem => ?_
          have bounds := hashLinesFrom_bounds (List.mem_filter.1 mem).1
          omega
        simp [shadesFrom, feed, first]
      | succ i =>
        have place : pos + (i + 1) = pos + 1 + i := by omega
        have starts : startsLine (some c) = true := by simp [startsLine, feed]
        rw [place]
        refine (ih parts next i).trans ?_
        rw [starts, if_pos rfl]
        exact congrArg (Option.map · cs[i]?) (funext fun _ =>
          (inside_hashLinesFrom_cons f (pos + 1) (cs.takeWhile (· != '\n')) rest i).symm)
    · obtain ⟨rfl, rfl⟩ := List.cons.inj ((if_neg feed).symm.trans split)
      cases i with
      | zero => simp [shadesFrom, hashAt, feed, here]
      | succ i =>
        have place : pos + (i + 1) = pos + 1 + i := by omega
        have length : pos + (c :: cs.takeWhile (· != '\n')).length + 1 =
            pos + 1 + (cs.takeWhile (· != '\n')).length + 1 := by
          simp only [List.length_cons]
          omega
        rw [place, length]
        refine (ih parts next i).trans ?_
        have inner : startsLine (some c) = false := by simp [startsLine, feed]
        simp [inner, hashAt, here]

/-- The shade of a character says in which comments of the text it lies. -/
lemma getElem?_shades (t : Text) (i : Nat) :
    (shades t)[i]? = t[i]?.map fun _ => ⟨inside (delimited t) i, inside (freeHashLines t) i⟩ := by
  have inner : ∀ j,
      (shades t)[j]?.map Shade.delimited = t[j]?.map fun _ => inside (delimited t) j := by
    intro j
    rw [shades, delimited_shadesFrom 0 0 none false t j]
    simp [inside, delimited, Text.hits, Span.covers, Function.comp_def]
  have agree : ∀ j x, (shades t)[j]? = some x → inside (delimited t) (0 + j) = x.delimited := by
    intro j x found
    have same := inner j
    rw [found, Nat.zero_add] at *
    cases char : t[j]? with
    | none => simp [char] at same
    | some c => simpa [char] using same.symm
  have hashed : (shades t)[i]?.map Shade.hashed = t[i]?.map fun _ => inside (freeHashLines t) i := by
    obtain ⟨ls, split⟩ := exists_lines t
    have lines := inside_hashLinesFrom_cons (inside (delimited t)) 0 (t.takeWhile (· != '\n')) ls i
    have free : inside (freeHashLines t) i = inside ((hashLinesFrom 0 (Text.lines t)).filter
        fun s => !inside (delimited t) s.start) (0 + i) := by
      rw [Nat.zero_add]
      rfl
    rw [shades, hashed_shadesFrom split agree i, free, split]
    exact congrArg (Option.map · t[i]?) (funext fun _ => lines.symm)
  have both := inner i
  cases char : t[i]? with
  | none => simpa [char] using both
  | some c =>
    rw [char] at both hashed
    obtain ⟨x, found, left⟩ := Option.map_eq_some_iff.1 both
    rw [found] at hashed ⊢
    exact congrArg some (Shade.ext_iff.2 ⟨left, Option.some.inj hashed⟩)

lemma inside_spans (t : Text) (i : Nat) :
    inside (spans t) i = (inside (delimited t) i || inside (freeHashLines t) i) := by
  unfold inside
  rw [(spans_perm t).any_eq, List.any_append]

/-- A text is separate exactly if no character lies in comments of both kinds. -/
lemma separate_iff_shades (t : Text) :
    Separate t ↔ ∀ x ∈ shades t, x.delimited = true → x.hashed = false := by
  constructor
  · intro sep x mem inner
    obtain ⟨i, found⟩ := List.mem_iff_getElem?.1 mem
    rw [getElem?_shades] at found
    obtain ⟨c, -, rfl⟩ := Option.map_eq_some_iff.1 found
    refine Bool.eq_false_iff.2 fun outer => ?_
    obtain ⟨d, dmem, dcovers⟩ := List.any_eq_true.1 inner
    obtain ⟨h, hmem, hcovers⟩ := List.any_eq_true.1 outer
    simp only [Span.covers, Bool.and_eq_true, decide_eq_true_eq] at dcovers hcovers
    have apart := (List.pairwise_append.1 ((pairwise_apart_iff t).2 sep)).2.2 d dmem h hmem
    unfold Span.Apart at apart
    omega
  · intro apart h hmem d dmem opens
    have inBounds := delimited_bounds dmem
    have found : (shades t)[d.start]? = some ⟨inside (delimited t) d.start,
        inside (freeHashLines t) d.start⟩ := by
      rw [getElem?_shades, List.getElem?_eq_getElem (by omega)]
      rfl
    have inner : inside (delimited t) d.start = true :=
      List.any_eq_true.2 ⟨d, dmem, by simp [Span.covers, inBounds.1]⟩
    have outer : inside (freeHashLines t) d.start = true :=
      List.any_eq_true.2 ⟨h, hmem, by simp [Span.covers]; omega⟩
    have := apart _ (List.mem_of_getElem? found) inner
    rw [outer] at this
    cases this

/-- A character that a separate text shows in its blanked copy as it is lies in no comment, unless
it is a space or a line feed. -/
lemma shade_of_shown {t : Text} (sep : Separate t) {i : Nat} {c : Char} (char : t[i]? = some c)
    (shown : (mask t)[i]? = some c) {x : Shade} (found : (shades t)[i]? = some x)
    (covered : x.delimited = true ∨ x.hashed = true) : c = ' ' ∨ c = '\n' := by
  rw [getElem?_shades, char] at found
  rw [getElem?_mask sep, char, inside_spans] at shown
  cases found
  have both : (inside (delimited t) i || inside (freeHashLines t) i) = true :=
    Bool.or_eq_true_iff.2 covered
  by_cases feed : c = '\n'
  · exact .inr feed
  · simp only [both, Option.map_some, Option.some.injEq, bne_iff_ne, Bool.true_and] at shown
    rw [if_pos feed] at shown
    exact .inl shown.symm

/-! ## Where hash lines open -/

/-- The characters behind the `#` of a hash line, and the end of the line. -/
def followsHash (c : Char) : Bool :=
  c == ' ' || c == '\t' || c == '!' || c == '#' || c == '\n'

lemma opensHashLine_blank {c : Char} (blank : c = ' ' ∨ c = '\t') (t : Text) :
    opensHashLine (c :: t) = opensHashLine t := by
  unfold opensHashLine isHashLine
  rcases blank with rfl | rfl <;> simp

lemma opensHashLine_hash (t : Text) : opensHashLine ('#' :: t) = t.head?.all followsHash := by
  unfold opensHashLine isHashLine
  cases t with
  | nil => rfl
  | cons d ds =>
    by_cases feed : d = '\n'
    · simp [feed, followsHash]
    · simp [feed, followsHash]

lemma opensHashLine_other {c : Char} (space : c ≠ ' ') (tab : c ≠ '\t') (hash : c ≠ '#') (t : Text) :
    opensHashLine (c :: t) = false := by
  unfold opensHashLine isHashLine
  by_cases feed : c = '\n'
  · simp [feed]
  · simp [feed, space, tab, hash]

/-- Whether a character at the front of a line, or behind the `#` there, makes the line no hash
line. -/
def settles (c : Char) : Bool :=
  !followsHash c

lemma opensHashLine_settles {d : Char} (plain : settles d = true) (t : Text) :
    opensHashLine (d :: t) = false := by
  simp only [settles, followsHash, Bool.not_eq_true', Bool.or_eq_false_iff,
    beq_eq_false_iff_ne] at plain
  exact opensHashLine_other plain.1.1.1.1 plain.1.1.1.2 plain.1.2 t

/-- If a line is a hash line although a character stands in it that could have settled otherwise,
it is one whatever stands from there on. -/
lemma opensHashLine_of_settled {d : Char} (plain : settles d = true) {x y : Text}
    (opens : opensHashLine (x ++ d :: y) = true) (z : Text) : opensHashLine (x ++ z) = true := by
  induction x with
  | nil =>
    rw [List.nil_append, opensHashLine_settles plain] at opens
    cases opens
  | cons c x ih =>
    by_cases blank : c = ' ' ∨ c = '\t'
    · rw [List.cons_append, opensHashLine_blank blank] at opens ⊢
      exact ih opens
    by_cases hash : c = '#'
    · subst hash
      rw [List.cons_append, opensHashLine_hash] at opens ⊢
      cases x with
      | nil =>
        have follows : followsHash d = true := opens
        rw [settles, follows] at plain
        cases plain
      | cons e x => exact opens
    · rw [not_or] at blank
      rw [List.cons_append, opensHashLine_other blank.1 blank.2 hash] at opens
      cases opens

/-- Behind the same front, two characters that settle it make no difference. -/
lemma opensHashLine_congr {d e : Char} (first : settles d = true) (second : settles e = true)
    (x y z : Text) : opensHashLine (x ++ d :: y) = opensHashLine (x ++ e :: z) :=
  Bool.eq_iff_iff.2 ⟨fun opens => opensHashLine_of_settled first opens _,
    fun opens => opensHashLine_of_settled second opens _⟩

end Comment

end Phrasebook
