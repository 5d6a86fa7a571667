import Phrasebook.Mapping.Check
import Phrasebook.Proofs.QuotePairs

/-!
# Entries among the pieces between quotes

The check of a locale file finds entries by their quotes alone. Cut at its quotes, a text becomes a row
of pieces, each behind a quote, and the check reads this row: a piece that is not empty, then a piece
of a colon and white space, then any piece with one more behind it are a key, what separates it from
its value, and the value (`entriesAmong`). Where they are found the four quotes are used up; elsewhere
the next quote is tried. `entries_behindQuotes` says that this is what the check finds, on the lines
that it reports.
-/

namespace Phrasebook.Check

/-- A colon and white space. -/
def isColon : Text → Bool
  | ':' :: blanks => blanks.all isBlank
  | _ => false

/-- A row of pieces, each behind a quote. -/
def behindQuotes (ps : List Text) : Text :=
  ps.flatMap ('"' :: ·)

/-- Pieces with the lines of the quotes before them, where the first quote is on the given line. -/
def numbered (line : Nat) : List Text → List (Nat × Text)
  | [] => []
  | p :: ps => (line, p) :: numbered (line + p.count '\n') ps

/-- The entries in a row of pieces, with their lines. -/
def entriesAmong : List (Nat × Text) → List (Nat × Written)
  | a :: b :: c :: d :: ps =>
    if !a.2.isEmpty && isColon b.2 then (a.1, ⟨a.2, c.2⟩) :: entriesAmong ps
    else entriesAmong (b :: c :: d :: ps)
  | _ => []

variable {a b : Text} {ps : List Text}

lemma isColon_of_ne {c : Char} (other : c ≠ ':') (t : Text) : isColon (c :: t) = false := by
  unfold isColon
  split
  · rename_i same
    exact absurd (List.cons.inj same).1 other
  · rfl

lemma behindQuotes_cons (a : Text) (ps : List Text) :
    behindQuotes (a :: ps) = '"' :: (a ++ behindQuotes ps) := by
  rw [behindQuotes, List.flatMap_cons, List.cons_append, behindQuotes]

lemma behindQuotes_append (ps qs : List Text) :
    behindQuotes (ps ++ qs) = behindQuotes ps ++ behindQuotes qs :=
  List.flatMap_append

/-! ## Steps along a row -/

/-- A piece that is no key, or has no colon behind it, is passed over. -/
lemma entriesAmong_pass {p : Nat × Text} {ps : List (Nat × Text)}
    (idle : p.2 = [] ∨ ∀ q ∈ ps.head?, isColon q.2 = false) :
    entriesAmong (p :: ps) = entriesAmong ps := by
  match ps with
  | b :: c :: d :: ps =>
    have unread : (!p.2.isEmpty && isColon b.2) = false := by
      rcases idle with empty | plain
      · rw [empty]
        rfl
      · rw [plain b rfl, Bool.and_false]
    rw [entriesAmong, if_neg (by simp [unread])]
  | [] => rw [entriesAmong, entriesAmong] <;> simp
  | [b] => rw [entriesAmong, entriesAmong] <;> simp
  | [b, c] => rw [entriesAmong, entriesAmong] <;> simp

lemma entriesAmong_read {p q r s : Nat × Text} {ps : List (Nat × Text)} (named : p.2 ≠ [])
    (colon : isColon q.2 = true) :
    entriesAmong (p :: q :: r :: s :: ps) = (p.1, ⟨p.2, r.2⟩) :: entriesAmong ps := by
  have reads : (!p.2.isEmpty && isColon q.2) = true := by
    rw [colon, List.isEmpty_eq_false_iff.2 named]
    rfl
  rw [entriesAmong, if_pos reads]

/-- Pieces of which none but the first may be a colon are passed over. -/
lemma entriesAmong_run {p : Nat × Text} {fs ps : List (Nat × Text)}
    (plain : ∀ q ∈ (fs ++ [p]).tail, isColon q.2 = false) :
    entriesAmong (fs ++ p :: ps) = entriesAmong (p :: ps) := by
  induction fs with
  | nil => rfl
  | cons f fs ih =>
    have rest : ∀ q ∈ (fs ++ [p]).tail, isColon q.2 = false :=
      fun q mem => plain q (List.mem_of_mem_tail mem)
    have next : ∀ q ∈ (fs ++ p :: ps).head?, isColon q.2 = false := by
      intro q head
      apply plain q
      cases fs with
      | nil => exact List.mem_singleton.2 (Option.some.inj head).symm
      | cons g fs =>
        obtain rfl : g = q := Option.some.inj head
        exact List.mem_cons_self
    rw [List.cons_append, entriesAmong_pass (.inr next), ih rest]

/-! ## The check of a text -/

/-- A piece with a quote behind it is enclosed in quotes. -/
lemma enclosed?_pair (free : '"' ∉ a) (b : Text) (ps : List Text) :
    Text.enclosed? (· == '"') (· == '"') (behindQuotes (a :: b :: ps)) =
      some (a, b ++ behindQuotes ps) := by
  have inside : ∀ c ∈ a, (!(c == '"')) = true := by
    intro c mem
    simpa using ne_of_mem_of_not_mem mem free
  rw [behindQuotes_cons, behindQuotes_cons, Text.enclosed?, if_pos (beq_self_eq_true _),
    List.dropWhile_append_of_pos inside, List.takeWhile_append_of_pos inside,
    List.dropWhile_cons_of_neg (by simp), List.takeWhile_cons_of_neg (by simp), List.append_nil]

lemma enclosed?_last (free : '"' ∉ a) :
    Text.enclosed? (· == '"') (· == '"') (behindQuotes [a]) = none := by
  have inside : ∀ c ∈ a, (!(c == '"')) = true := by
    intro c mem
    simpa using ne_of_mem_of_not_mem mem free
  have empty : a.dropWhile (fun c => !(c == '"')) = [] := List.dropWhile_eq_nil_iff.2 inside
  rw [behindQuotes_cons, behindQuotes, List.flatMap_nil, List.append_nil, Text.enclosed?,
    if_pos (beq_self_eq_true _), empty]

/-- White space in front of a row is passed over, anything else is not. -/
lemma enclosed?_blanks (plain : '"' ∉ b) (ps : List Text) :
    Text.enclosed? (· == '"') (· == '"') ((b ++ behindQuotes ps).dropWhile isBlank) =
      if b.all isBlank then Text.enclosed? (· == '"') (· == '"') (behindQuotes ps) else none := by
  induction b with
  | nil =>
    rw [List.nil_append, List.all_nil, if_pos rfl]
    cases ps with
    | nil => rfl
    | cons p ps => rw [behindQuotes_cons, List.dropWhile_cons_of_neg (by decide)]
  | cons c b ih =>
    obtain ⟨first, rest⟩ := not_or.1 (mt List.mem_cons.2 plain)
    by_cases blank : isBlank c = true
    · rw [List.cons_append, List.dropWhile_cons_of_pos blank, ih rest, List.all_cons, blank, Bool.true_and]
    · have other : (c == '"') = false := beq_false_of_ne (Ne.symm first)
      have solid : isBlank c = false := Bool.eq_false_iff.2 blank
      rw [List.cons_append, List.dropWhile_cons_of_neg blank, List.all_cons, solid]
      simp [Text.enclosed?, other]

/-- The entry at the front of a row, and how many characters it takes. -/
def entryIn : List Text → Option (Nat × Written)
  | a :: b :: c :: _ :: _ =>
    if !a.isEmpty && isColon b then some (a.length + b.length + c.length + 4, ⟨a, c⟩) else none
  | _ => none

lemma entryIn_of_not_isColon (plain : isColon b = false) (a : Text) (ps : List Text) :
    entryIn (a :: b :: ps) = none := by
  rcases ps with _ | ⟨c, _ | ⟨d, ps⟩⟩
  · rfl
  · rfl
  · rw [entryIn, plain, Bool.and_false]
    rfl

lemma entryIn_eq_some {found : Nat × Written} (read : entryIn ps = some found) :
    ∃ a b c d qs, ps = a :: b :: c :: d :: qs ∧ a ≠ [] ∧ isColon b = true := by
  match ps with
  | a :: b :: c :: d :: qs =>
    rw [entryIn, Option.ite_none_right_eq_some, Bool.and_eq_true, Bool.not_eq_true',
      List.isEmpty_eq_false_iff] at read
    exact ⟨a, b, c, d, qs, rfl, read.1⟩

lemma entryShape_of_colon {t key r : Text} (prev : Option Char)
    (opened : Text.enclosed? (· == '"') (· == '"') t = some (key, ':' :: r)) (named : key ≠ []) :
    entryShape prev t = (Text.enclosed? (· == '"') (· == '"') (r.dropWhile isBlank)).map fun found =>
      (t.length - found.2.length, ⟨key, found.1⟩) := by
  obtain ⟨c, cs, rfl⟩ := List.exists_cons_of_ne_nil named
  simp only [entryShape, opened]
  cases Text.enclosed? (· == '"') (· == '"') (r.dropWhile isBlank) <;> rfl

lemma entryShape_of_other {t key rest : Text} (prev : Option Char)
    (opened : Text.enclosed? (· == '"') (· == '"') t = some (key, rest))
    (other : key = [] ∨ rest.head? ≠ some ':') : entryShape prev t = none := by
  rw [entryShape, opened]
  dsimp only
  split
  · simp at other
  · rfl

/-- What the check reads at the front of a row. -/
lemma entryShape_behindQuotes (free : ∀ p ∈ ps, '"' ∉ p) (prev : Option Char) :
    entryShape prev (behindQuotes ps) = entryIn ps := by
  match ps with
  | [] => rfl
  | [a] => rw [entryShape, enclosed?_last (free a List.mem_cons_self)]; rfl
  | a :: b :: ps =>
    obtain ⟨first, second, rest⟩ :
        '"' ∉ a ∧ '"' ∉ b ∧ ∀ p ∈ ps, '"' ∉ p := by simpa using free
    have opened := enclosed?_pair first b ps
    by_cases empty : a = []
    · subst empty
      rw [entryShape_of_other prev opened (.inl rfl)]
      rcases ps with _ | ⟨c, _ | ⟨d, ps⟩⟩ <;> rfl
    by_cases colon : b.head? = some ':'
    · obtain ⟨blanks, rfl⟩ := List.head?_eq_some_iff.1 colon
      obtain ⟨-, plain⟩ := not_or.1 (mt List.mem_cons.2 second)
      have all : isColon (':' :: blanks) = blanks.all isBlank := rfl
      rw [List.cons_append] at opened
      rw [entryShape_of_colon prev opened empty, enclosed?_blanks plain, ← all]
      by_cases blank : isColon (':' :: blanks) = true
      · rw [if_pos blank]
        rcases ps with _ | ⟨c, _ | ⟨d, ps⟩⟩
        · rfl
        · rw [enclosed?_last (rest c List.mem_cons_self)]
          rfl
        · rw [enclosed?_pair (rest c List.mem_cons_self), entryIn, blank,
            List.isEmpty_eq_false_iff.2 empty]
          simp only [behindQuotes_cons, Bool.not_false, Bool.and_true, if_true, Option.map_some,
            Option.some.injEq, Prod.mk.injEq, and_true, List.length_cons, List.length_append]
          omega
      · rw [if_neg blank, entryIn_of_not_isColon (Bool.eq_false_iff.2 blank)]
        rfl
    · have head : (b ++ behindQuotes ps).head? ≠ some ':' := by
        cases b with
        | nil => cases ps <;> simp [behindQuotes]
        | cons c b => exact colon
      have plain : isColon b = false := by
        cases b with
        | nil => rfl
        | cons c b => exact isColon_of_ne (by simpa using colon) b
      rw [entryShape_of_other prev opened (.inr head), entryIn_of_not_isColon plain]

/-- Characters other than quotes are passed over. -/
lemma hitsFrom_pass (free : '"' ∉ a) (pos : Nat) (prev : Option Char) (t : Text) :
    ∃ last, Text.hitsFrom entryShape 0 pos prev (a ++ t) =
      Text.hitsFrom entryShape 0 (pos + a.length) last t := by
  induction a generalizing pos prev with
  | nil => exact ⟨prev, rfl⟩
  | cons c a ih =>
    obtain ⟨first, rest⟩ := not_or.1 (mt List.mem_cons.2 free)
    have other : (c == '"') = false := beq_false_of_ne (Ne.symm first)
    have unread : entryShape prev (c :: (a ++ t)) = none := by
      simp [entryShape, Text.enclosed?, other]
    obtain ⟨last, passed⟩ := ih rest (pos + 1) (some c)
    refine ⟨last, ?_⟩
    rw [List.cons_append, Text.hitsFrom, unread, List.length_cons, ← Nat.add_assoc, Nat.add_right_comm]
    exact passed

/-- Where no entry is read the check goes on behind the first piece. -/
lemma hits_of_unread (free : ∀ p ∈ a :: ps, '"' ∉ p) (unread : entryIn (a :: ps) = none) (pos : Nat)
    (prev : Option Char) :
    ∃ last, Text.hitsFrom entryShape 0 pos prev (behindQuotes (a :: ps)) =
      Text.hitsFrom entryShape 0 (pos + (behindQuotes [a]).length) last (behindQuotes ps) := by
  have read := entryShape_behindQuotes free prev
  obtain ⟨last, passed⟩ := hitsFrom_pass (free a List.mem_cons_self) (pos + 1) (some '"')
    (behindQuotes ps)
  refine ⟨last, ?_⟩
  rw [behindQuotes_cons] at read
  rw [behindQuotes_cons, Text.hitsFrom, read, unread]
  dsimp only
  rw [passed]
  simp only [behindQuotes, List.flatMap_cons, List.flatMap_nil, List.append_nil, List.length_cons,
    Nat.add_assoc, Nat.add_comm 1]

/-- Where an entry is read the check goes on behind the piece that follows it. -/
lemma hits_of_read {c d : Text} (free : ∀ p ∈ a :: b :: c :: d :: ps, '"' ∉ p) (named : a ≠ [])
    (colon : isColon b = true) (pos : Nat) (prev : Option Char) :
    ∃ stop last, Text.hitsFrom entryShape 0 pos prev (behindQuotes (a :: b :: c :: d :: ps)) =
      ⟨pos, stop, ⟨a, c⟩⟩ ::
        Text.hitsFrom entryShape 0 (pos + (behindQuotes [a, b, c, d]).length) last (behindQuotes ps) := by
  have read := entryShape_behindQuotes free prev
  have named' : a.isEmpty = false := List.isEmpty_eq_false_iff.2 named
  have found : entryIn (a :: b :: c :: d :: ps) =
      some (a.length + b.length + c.length + 4, ⟨a, c⟩) := by
    rw [entryIn, colon, named']
    rfl
  -- the characters of the entry behind its first one
  let taken : Text := a ++ '"' :: (b ++ '"' :: (c ++ ['"']))
  have whole : behindQuotes (a :: b :: c :: d :: ps) = '"' :: (taken ++ (d ++ behindQuotes ps)) := by
    simp [behindQuotes, taken]
  have length : a.length + b.length + c.length + 4 - 1 = taken.length := by
    simp only [taken, List.length_append, List.length_cons, List.length_nil]
    omega
  obtain ⟨before, skipped⟩ := Text.hitsFrom_skip entryShape (pos + 1) (some '"') taken
    (d ++ behindQuotes ps)
  obtain ⟨last, passed⟩ := hitsFrom_pass (free d (by simp)) (pos + 1 + taken.length) before
    (behindQuotes ps)
  refine ⟨pos + (a.length + b.length + c.length + 4), last, ?_⟩
  rw [whole, found] at read
  rw [whole, Text.hitsFrom, read]
  dsimp only
  rw [length, skipped, passed]
  have end_ : pos + 1 + taken.length + d.length = pos + (behindQuotes [a, b, c, d]).length := by
    simp only [taken, behindQuotes, List.flatMap_cons, List.flatMap_nil, List.append_nil,
      List.length_append, List.length_cons, List.length_nil]
    omega
  rw [end_]

/-- A hit of the check with the line it is on in a text. -/
def located (text : Text) (h : Hit Written) : Nat × Written :=
  ((text.take h.start).count '\n' + 1, h.value)

lemma entriesAmong_of_unread (unread : entryIn (a :: ps) = none) (line : Nat) :
    entriesAmong (numbered line (a :: ps)) =
      entriesAmong (numbered (line + a.count '\n') ps) := by
  match ps with
  | b :: c :: d :: ps =>
    have idle : ¬(!a.isEmpty && isColon b) = true := by
      intro reads
      rw [entryIn, if_pos reads] at unread
      cases unread
    rw [numbered, numbered, numbered, numbered, entriesAmong, if_neg idle]
  | [] => simp [numbered, entriesAmong]
  | [b] => simp [numbered, entriesAmong]
  | [b, c] => simp [numbered, entriesAmong]

lemma numbered_append (line : Nat) (ps qs : List Text) :
    numbered line (ps ++ qs) =
      numbered line ps ++ numbered (line + (behindQuotes ps).count '\n') qs := by
  induction ps generalizing line with
  | nil => rfl
  | cons p ps ih =>
    rw [List.cons_append, numbered, ih, numbered, List.cons_append, behindQuotes_cons,
      List.count_cons_of_ne (by decide), List.count_append, Nat.add_assoc]

/-- Behind any text, the check finds in a row of pieces the entries among them. -/
def FindsAmong (ps : List Text) : Prop :=
  ∀ (front : Text) (prev : Option Char),
    (Text.hitsFrom entryShape 0 front.length prev (behindQuotes ps)).map
        (located (front ++ behindQuotes ps)) =
      entriesAmong (numbered (front.count '\n' + 1) ps)

lemma FindsAmong.behind (later : FindsAmong ps) (front : Text) (qs : List Text) (last : Option Char) :
    (Text.hitsFrom entryShape 0 (front.length + (behindQuotes qs).length) last (behindQuotes ps)).map
        (located (front ++ behindQuotes (qs ++ ps))) =
      entriesAmong (numbered (front.count '\n' + 1 + (behindQuotes qs).count '\n') ps) := by
  have found := later (front ++ behindQuotes qs) last
  rwa [List.length_append, List.count_append, List.append_assoc, ← behindQuotes_append,
    Nat.add_right_comm] at found

lemma FindsAmong.unread (free : ∀ p ∈ a :: ps, '"' ∉ p) (unread : entryIn (a :: ps) = none)
    (later : FindsAmong ps) : FindsAmong (a :: ps) := by
  intro front prev
  obtain ⟨last, hits⟩ := hits_of_unread free unread front.length prev
  rw [hits]
  refine (later.behind front [a] last).trans ?_
  rw [entriesAmong_of_unread unread, behindQuotes_cons, List.count_cons_of_ne (by decide)]
  simp [behindQuotes]

lemma FindsAmong.read {c d : Text} (free : ∀ p ∈ a :: b :: c :: d :: ps, '"' ∉ p) (named : a ≠ [])
    (colon : isColon b = true) (later : FindsAmong ps) : FindsAmong (a :: b :: c :: d :: ps) := by
  intro front prev
  obtain ⟨stop, last, hits⟩ := hits_of_read free named colon front.length prev
  have found := later.behind front [a, b, c, d] last
  rw [hits, List.map_cons]
  refine (congrArg _ found).trans ?_
  rw [show a :: b :: c :: d :: ps = [a, b, c, d] ++ ps from rfl, numbered_append]
  refine Eq.trans ?_ (entriesAmong_read named colon).symm
  rw [located, List.take_left]
  rfl

/-- The check finds the entries among the pieces between the quotes of a text. -/
lemma findsAmong (ps : List Text) (free : ∀ p ∈ ps, '"' ∉ p) : FindsAmong ps := by
  match read : entryIn ps with
  | some found =>
    obtain ⟨a, b, c, d, qs, rfl, named, colon⟩ := entryIn_eq_some read
    exact .read free named colon (findsAmong qs (by grind))
  | none =>
    cases ps with
    | nil => exact fun _ _ => rfl
    | cons a ps => exact .unread free read (findsAmong ps (by grind))
termination_by ps.length

end Phrasebook.Check
