import Phrasebook.Proofs.JsonText
import Phrasebook.Proofs.QuotedPieces

/-!
# Written mappings cut at their quotes

A quote in a text is written with a backslash, so the quotes of a written text cut it into pieces of
which all but the last end with a backslash (`pieces_eq_concat`). Only the last can be taken for the
colon of an entry. The text of a mapping becomes a row of such pieces with separators between
(`behindQuotes_row`, `numbered_row`), and where the check reads along this row it comes to the last
piece of each key and value: either with a key in front of it, so that the piece is read as a colon
(`entriesAmong_colon`), or without (`entriesAmong_stretch`).
-/

namespace Phrasebook.Check

variable {t : Text}

/-! ## Pieces of a text -/

/-- A text as it is written between its quotes. -/
def written (t : Text) : Text :=
  t.flatMap Json.escapeChar

/-- The pieces between the quotes of a written text. -/
def pieces : Text → List Text
  | [] => [[]]
  | c :: t => if c = '"' then ['\\'] :: pieces t else (pieces t).modifyHead (Json.escapeChar c ++ ·)

/-- A written text up to its first quote. -/
def firstPiece (t : Text) : Text :=
  (pieces t).headD []

/-- A written text behind its last quote. -/
def lastPiece (t : Text) : Text :=
  (pieces t).getLastD []

lemma written_cons (c : Char) (t : Text) : written (c :: t) = Json.escapeChar c ++ written t :=
  List.flatMap_cons

lemma written_eq_nil_iff : written t = [] ↔ t = [] := by
  have nonempty : ∀ c, Json.escapeChar c ≠ [] := by
    intro c
    unfold Json.escapeChar
    split_ifs <;> simp
  cases t with
  | nil => exact iff_of_true rfl rfl
  | cons c t => simp [written_cons, nonempty]

lemma quote_mem_written (quote : '"' ∈ t) : '"' ∈ written t :=
  List.mem_flatMap.2 ⟨'"', quote, by decide⟩

/-- A character other than a quote is written without quotes and line feeds. -/
lemma escapeChar_clean {c : Char} (other : c ≠ '"') :
    '"' ∉ Json.escapeChar c ∧ '\n' ∉ Json.escapeChar c := by
  rcases Json.escapeChar_cases c with ⟨itself, -, feed, -⟩ | ⟨-, signs⟩
  · rw [itself, List.mem_singleton, List.mem_singleton]
    exact ⟨Ne.symm other, Ne.symm feed⟩
  · refine ⟨fun mem => other ((signs _ mem).2 rfl), fun mem => ?_⟩
    exact absurd (signs _ mem).1 (by decide)

lemma pieces_quote (t : Text) : pieces ('"' :: t) = ['\\'] :: pieces t :=
  if_pos rfl

/-- A character other than a quote is written in front of the first piece. -/
lemma pieces_other {c : Char} (other : c ≠ '"') {first : Text} {more : List Text}
    (split : pieces t = first :: more) :
    pieces (c :: t) = (Json.escapeChar c ++ first) :: more := by
  rw [pieces, if_neg other, split, List.modifyHead_cons]

lemma pieces_eq_cons (t : Text) : ∃ more, pieces t = firstPiece t :: more := by
  have nonempty : pieces t ≠ [] := by
    induction t with
    | nil => simp [pieces]
    | cons c t ih =>
      unfold pieces
      split
      · simp
      · simpa [List.modifyHead_eq_nil_iff] using ih
  obtain ⟨first, more, split⟩ := List.exists_cons_of_ne_nil nonempty
  exact ⟨more, by rw [firstPiece, split, List.headD_cons]⟩

lemma behindQuotes_pieces (t : Text) : behindQuotes (pieces t) = '"' :: written t := by
  induction t with
  | nil => rfl
  | cons c t ih =>
    by_cases quote : c = '"'
    · subst quote
      rw [pieces_quote, behindQuotes_cons, ih]
      rfl
    · obtain ⟨more, split⟩ := pieces_eq_cons t
      rw [split, behindQuotes_cons, List.cons.injEq] at ih
      rw [pieces_other quote split, behindQuotes_cons, written_cons, List.append_assoc, ih.2]

/-- No piece has a quote or a line feed. -/
lemma clean_of_mem_pieces {p : Text} (mem : p ∈ pieces t) : '"' ∉ p ∧ '\n' ∉ p := by
  induction t generalizing p with
  | nil =>
    rw [List.mem_singleton.1 mem]
    simp
  | cons c t ih =>
    by_cases quote : c = '"'
    · subst quote
      rw [pieces_quote, List.mem_cons] at mem
      rcases mem with rfl | mem
      · decide
      · exact ih mem
    · obtain ⟨more, split⟩ := pieces_eq_cons t
      rw [pieces_other quote split, List.mem_cons] at mem
      rcases mem with rfl | mem
      · have first := ih (split ▸ List.mem_cons_self)
        have escape := escapeChar_clean quote
        simp only [List.mem_append, not_or]
        exact ⟨⟨escape.1, first.1⟩, escape.2, first.2⟩
      · exact ih (split ▸ List.mem_cons_of_mem _ mem)

/-- All pieces but the last end with the backslash of a written quote. -/
lemma pieces_eq_concat (t : Text) :
    ∃ closed, pieces t = closed ++ [lastPiece t] ∧ closed.length = t.count '"' ∧
      ∀ p ∈ closed, p.getLast? = some '\\' := by
  suffices split : ∃ closed last, pieces t = closed ++ [last] ∧ closed.length = t.count '"' ∧
      ∀ p ∈ closed, p.getLast? = some '\\' by
    obtain ⟨closed, last, split, length, slashes⟩ := split
    have same : lastPiece t = last := by rw [lastPiece, split, List.getLastD_concat]
    exact ⟨closed, same ▸ split, length, slashes⟩
  induction t with
  | nil => exact ⟨[], [], rfl, rfl, by simp⟩
  | cons c t ih =>
    obtain ⟨closed, last, split, length, slashes⟩ := ih
    by_cases quote : c = '"'
    · subst quote
      refine ⟨['\\'] :: closed, last, by rw [pieces_quote, split]; rfl, ?_, ?_⟩
      · rw [List.length_cons, length, List.count_cons_self]
      · rintro p (_ | ⟨_, mem⟩)
        · rfl
        · exact slashes p mem
    · rw [List.count_cons_of_ne quote]
      cases closed with
      | nil => exact ⟨[], _, pieces_other quote split, length, by simp⟩
      | cons q closed =>
        refine ⟨(Json.escapeChar c ++ q) :: closed, last, pieces_other quote split, length, ?_⟩
        rintro p (_ | ⟨_, mem⟩)
        · rw [List.getLast?_append, slashes q List.mem_cons_self]
          rfl
        · exact slashes p (List.mem_cons_of_mem q mem)

lemma firstPiece_free (t : Text) : '"' ∉ firstPiece t := by
  obtain ⟨more, split⟩ := pieces_eq_cons t
  have mem : firstPiece t ∈ pieces t := by
    rw [split]
    exact List.mem_cons_self
  exact (clean_of_mem_pieces mem).1

lemma lastPiece_free (t : Text) : '"' ∉ lastPiece t := by
  obtain ⟨closed, split, -⟩ := pieces_eq_concat t
  have mem : lastPiece t ∈ pieces t := by
    rw [split]
    exact List.mem_append_right closed List.mem_cons_self
  exact (clean_of_mem_pieces mem).1

/-- A text without quotes is in one piece. -/
lemma pieces_of_free (free : '"' ∉ t) : pieces t = [firstPiece t] := by
  obtain ⟨closed, split, length, -⟩ := pieces_eq_concat t
  rw [List.count_eq_zero.2 free, List.length_eq_zero_iff] at length
  rw [firstPiece, split, length]
  rfl

lemma pieces_of_quote (quote : '"' ∈ t) : ∃ p ps, pieces t = firstPiece t :: p :: ps := by
  obtain ⟨more, split⟩ := pieces_eq_cons t
  obtain ⟨closed, whole, length, -⟩ := pieces_eq_concat t
  cases more with
  | nil =>
    have short := congrArg List.length (split.symm.trans whole)
    have pos := List.count_pos_iff.2 quote
    simp only [List.length_append, List.length_cons, List.length_nil] at short
    omega
  | cons p ps => exact ⟨p, ps, split⟩

lemma prefix_firstPiece (t : Text) : firstPiece t <+: written t := by
  obtain ⟨more, split⟩ := pieces_eq_cons t
  have whole := behindQuotes_pieces t
  rw [split, behindQuotes_cons, List.cons.injEq] at whole
  exact ⟨_, whole.2⟩

lemma suffix_lastPiece (t : Text) : lastPiece t <:+ written t := by
  obtain ⟨closed, split, -⟩ := pieces_eq_concat t
  have whole := behindQuotes_pieces t
  rw [split, behindQuotes_append, behindQuotes_cons] at whole
  have behind : lastPiece t <:+ '"' :: written t := by
    rw [← whole]
    exact ⟨behindQuotes closed ++ ['"'], by simp [behindQuotes]⟩
  rcases List.suffix_cons_iff.1 behind with all | inner
  · exact absurd (all ▸ List.mem_cons_self) (lastPiece_free t)
  · exact inner

lemma firstPiece_eq_written_iff : firstPiece t = written t ↔ '"' ∉ t := by
  constructor
  · intro same quote
    exact firstPiece_free t (same ▸ quote_mem_written quote)
  · intro free
    have whole := behindQuotes_pieces t
    rw [pieces_of_free free, behindQuotes_cons, List.cons.injEq] at whole
    simpa [behindQuotes] using whole.2

lemma lastPiece_eq_written_iff : lastPiece t = written t ↔ '"' ∉ t := by
  constructor
  · intro same quote
    exact lastPiece_free t (same ▸ quote_mem_written quote)
  · intro free
    rw [← firstPiece_eq_written_iff.2 free, lastPiece, pieces_of_free free]
    rfl

/-! ## The row of a mapping -/

/-- What parts a member from the one before. -/
def memberSep : Text :=
  [',', '\n', ' ', ' ']

/-- What parts a key and its value. -/
def valueSep : Text :=
  [':', ' ']

/-- A piece and those of a written text behind it, which are on the given line. -/
def stretch (line : Nat) (s : Nat × Text) (t : Text) : List (Nat × Text) :=
  s :: (pieces t).map (line, ·)

/-- The pieces behind the value of a member: for every further member what parts it from the one
before, its key, what parts key and value, and its value. -/
def row : List (Text × Text) → List Text
  | [] => [['\n', '\x7d']]
  | e :: es => memberSep :: (pieces e.1 ++ valueSep :: (pieces e.2 ++ row es))

/-- Whether the last piece of a text is read as a colon, where `taken` quotes are used up from the one
in front of the text's own on. -/
def endsAsColon (taken : Nat) (t : Text) : Bool :=
  taken ≤ t.count '"' && isColon (lastPiece t)

variable {taken : Nat} {s : Nat × Text}

lemma behindQuotes_row (es : List (Text × Text)) :
    behindQuotes (row es) = '"' :: Json.remainder es := by
  induction es with
  | nil => rfl
  | cons e es ih =>
    simp only [row, Json.remainder, Json.member, Json.quoted_append, behindQuotes_cons,
      behindQuotes_append, behindQuotes_pieces, ih, written, memberSep, valueSep, List.cons_append,
      List.nil_append]

lemma row_free (es : List (Text × Text)) : ∀ p ∈ row es, '"' ∉ p := by
  have texts : ∀ t, ∀ p ∈ pieces t, '"' ∉ p := fun t p mem => (clean_of_mem_pieces mem).1
  induction es with
  | nil => simp [row]
  | cons e es ih =>
    simp only [row, List.mem_cons, List.mem_append]
    rintro p (rfl | key | rfl | value | later)
    · decide
    · exact texts e.1 p key
    · decide
    · exact texts e.2 p value
    · exact ih p later

lemma row_eq_cons (es : List (Text × Text)) :
    ∃ p ps, row es = p :: ps ∧ isColon p = false ∧ ∀ c ∈ p, c.toNat < 0x80 := by
  cases es with
  | nil => exact ⟨_, _, rfl, rfl, by simp⟩
  | cons e es => exact ⟨_, _, rfl, rfl, by simp [memberSep]⟩

lemma numbered_pieces (line : Nat) (t : Text) (ps : List Text) :
    numbered line (pieces t ++ ps) = (pieces t).map (line, ·) ++ numbered line ps := by
  suffices unbroken : ∀ qs : List Text, (∀ q ∈ qs, '\n' ∉ q) →
      numbered line (qs ++ ps) = qs.map (line, ·) ++ numbered line ps from
    unbroken (pieces t) fun q mem => (clean_of_mem_pieces mem).2
  intro qs unbroken
  induction qs with
  | nil => rfl
  | cons q qs ih =>
    rw [List.cons_append, numbered, List.count_eq_zero.2 (unbroken q List.mem_cons_self), Nat.add_zero,
      ih fun p mem => unbroken p (List.mem_cons_of_mem q mem), List.map_cons, List.cons_append]

lemma numbered_row (line : Nat) (e : Text × Text) (es : List (Text × Text)) :
    numbered line (row (e :: es)) =
      stretch (line + 1) (line, memberSep) e.1 ++
        (stretch (line + 1) (line + 1, valueSep) e.2 ++ numbered (line + 1) (row es)) := by
  have feeds : List.count '\n' memberSep = 1 := rfl
  have feedless : List.count '\n' valueSep = 0 := rfl
  simp only [row, numbered, numbered_pieces, stretch, feeds, feedless, Nat.add_zero, List.cons_append]

lemma length_stretch (line : Nat) (s : Nat × Text) (t : Text) :
    (stretch line s t).length = t.count '"' + 2 := by
  obtain ⟨closed, split, length, -⟩ := pieces_eq_concat t
  rw [stretch, List.length_cons, List.length_map, split, List.length_append, length]
  rfl

lemma not_isColon_of_backslash {p : Text} (slash : p.getLast? = some '\\') : isColon p = false := by
  match p with
  | [] => rfl
  | c :: blanks =>
    by_cases colon : c = ':'
    · subst colon
      have mem : '\\' ∈ blanks := by
        have := List.mem_of_getLast? slash
        simpa using this
      apply Bool.eq_false_iff.2
      intro all
      exact absurd (List.all_eq_true.1 all _ mem) (by decide)
    · exact isColon_of_ne colon blanks

/-- What is left of a stretch ends with the last piece, and no piece in between is a colon. -/
lemma drop_stretch (line : Nat) (solid : s.2 ≠ []) (inside : taken ≤ t.count '"' + 1) :
    ∃ fs, (stretch line s t).drop taken = fs ++ [(line, lastPiece t)] ∧
      (fs = [] ↔ ¬taken ≤ t.count '"') ∧ (∀ q ∈ fs, q.2 ≠ []) ∧ ∀ q ∈ fs.tail, isColon q.2 = false := by
  obtain ⟨closed, split, length, slashes⟩ := pieces_eq_concat t
  refine ⟨(s :: closed.map (line, ·)).drop taken, ?_, ?_, ?_, ?_⟩
  · rw [stretch, split, List.map_append, ← List.cons_append, List.drop_append_of_le_length]
    · rfl
    · simpa [length] using inside
  · rw [List.drop_eq_nil_iff, List.length_cons, List.length_map, length]
    omega
  · intro q mem
    rcases List.mem_cons.1 (List.mem_of_mem_drop mem) with rfl | mem
    · exact solid
    · obtain ⟨p, closes, rfl⟩ := List.mem_map.1 mem
      intro empty
      have slash := slashes p closes
      rw [show p = [] from empty] at slash
      cases slash
  · intro q mem
    rw [List.tail_drop, List.drop_succ_cons] at mem
    obtain ⟨p, closes, rfl⟩ := List.mem_map.1 (List.mem_of_mem_drop mem)
    exact not_isColon_of_backslash (slashes p closes)

/-- Where the last piece of a stretch is read as a colon, a key stands before it. -/
lemma entriesAmong_colon (line : Nat) (solid : s.2 ≠ []) (colon : endsAsColon taken t = true) :
    ∃ a : Nat × Text, a.2 ≠ [] ∧ ∀ ps, entriesAmong ((stretch line s t).drop taken ++ ps) =
      entriesAmong (a :: (line, lastPiece t) :: ps) := by
  rw [endsAsColon, Bool.and_eq_true, decide_eq_true_eq] at colon
  obtain ⟨fs, left, empty, named, plain⟩ :=
    drop_stretch line solid (Nat.le_succ_of_le colon.1)
  rcases List.eq_nil_or_concat fs with nil | ⟨gs, a, rfl⟩
  · exact absurd colon.1 (empty.1 nil)
  · rw [List.concat_eq_append] at left named plain
    refine ⟨a, named a (by simp), fun ps => ?_⟩
    rw [left, List.append_assoc, List.append_assoc]
    exact entriesAmong_run plain

/-- Elsewhere a stretch is passed over up to its last piece. -/
lemma entriesAmong_stretch (line : Nat) (solid : s.2 ≠ []) (inside : taken ≤ t.count '"' + 1)
    (plain : endsAsColon taken t = false) (ps : List (Nat × Text)) :
    entriesAmong ((stretch line s t).drop taken ++ ps) =
      entriesAmong ((line, lastPiece t) :: ps) := by
  obtain ⟨fs, left, empty, -, between⟩ := drop_stretch line solid inside
  rw [left, List.append_assoc]
  apply entriesAmong_run
  intro q mem
  cases fs with
  | nil => cases mem
  | cons f fs =>
    have before : taken ≤ t.count '"' := by
      apply Decidable.not_not.1
      intro beyond
      cases empty.2 beyond
    rw [endsAsColon, decide_eq_true before, Bool.true_and] at plain
    rw [List.cons_append, List.tail_cons, List.mem_append, List.mem_singleton] at mem
    rcases mem with mem | rfl
    · exact between q mem
    · exact plain

end Phrasebook.Check
