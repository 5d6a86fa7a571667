import Mathlib.Data.List.TakeWhile
import Phrasebook.Proofs.MarkupRun

/-!
# Logs of edits

A text that comes from another one by edits in bounds (`Edits`) holds every character that no edit
touched, at the place to which the log carries it (`getElem?_of_carry?`), and in the old order
(`lt_of_carry?`). This holds whatever the edits put in; what they may put in is said by a rule.

`Exchange` is the rule of the work on terms: a range makes way only if it holds the span of a term,
or a plain attribute up to the end of its value. Every run follows it (`edits_localize`).
-/

namespace Phrasebook

/-- What may take the place of the characters from `start` up to `stop` of a text. -/
abbrev EditRule := Text → Nat → Nat → Text → Prop

/-- How a text comes from another one by edits in bounds under a rule, and the log of the edits. -/
inductive Edits (rule : EditRule) : Text → List Edit → Text → Prop where
  | nil (t : Text) : Edits rule t [] t
  | snoc {t u r : Text} {es : List Edit} {start stop : Nat} :
    Edits rule t es u →
    start ≤ stop →
    stop ≤ u.length →
    rule u start stop r →
    Edits rule t (es ++ [⟨start, stop, r.length⟩]) (u.take start ++ r ++ u.drop stop)

/-- An edit of a text, seen in a longer text with `n` characters before it. -/
def Edit.behind (n : Nat) (e : Edit) : Edit :=
  ⟨n + e.start, n + e.stop, e.inserted⟩

namespace Edit

variable {es : List Edit} {e : Edit} {i j k l n : Nat}

/-- The last edit carries what those before it have carried. -/
lemma carry?_snoc (es : List Edit) (e : Edit) (i n : Nat) :
    carry? (es ++ [e]) i n = (carry? es i n).bind (e.shift? n) := by
  simp [carry?, Buffer.locate?]

/-- A shift keeps the order of characters. -/
lemma shift?_lt (order : i < j) (first : e.shift? 1 i = some k) (second : e.shift? 1 j = some l) :
    k < l := by
  unfold shift? at first second
  split at first
  · cases first
    rw [if_pos (by omega)] at second
    cases second
    omega
  · split at first
    · cases first
    · cases first
      split at second
      · cases second
        omega
      · split at second
        · cases second
        · cases second
          exact order

/-- The log keeps the order of the characters that it carries along. -/
lemma lt_of_carry? (order : i < j) (first : carry? es i 1 = some k) (second : carry? es j 1 = some l) :
    k < l := by
  induction es using List.reverseRecOn generalizing k l with
  | nil =>
    cases first
    cases second
    exact order
  | append_singleton es e ih =>
    rw [carry?_snoc] at first second
    obtain ⟨k', early, late⟩ := Option.bind_eq_some_iff.1 first
    obtain ⟨l', early', late'⟩ := Option.bind_eq_some_iff.1 second
    exact shift?_lt (ih early early') late late'

/-- The characters of a shifted piece are shifted with it. -/
lemma shift?_within (order : e.start ≤ e.stop) (inner : j < n) (shifted : e.shift? n i = some k) :
    e.shift? 1 (i + j) = some (k + j) := by
  unfold shift? at shifted ⊢
  split at shifted
  · cases shifted
    rw [if_pos (by omega)]
    congr 1
    omega
  · split at shifted
    · cases shifted
    · cases shifted
      rw [if_neg (by omega), if_neg (by omega)]

end Edit

namespace Edits

variable {rule rule' : EditRule} {t u v r : Text} {es fs : List Edit} {start stop i j k : Nat}

/-- Edits in a row. -/
lemma trans (first : Edits rule t es u) (second : Edits rule u fs v) : Edits rule t (es ++ fs) v := by
  induction second with
  | nil => rwa [List.append_nil]
  | snoc _ order inside allowed ih =>
    rw [← List.append_assoc]
    exact ih.snoc order inside allowed

/-- Edits of a rule are edits of each weaker rule. -/
lemma mono (edits : Edits rule t es u) (weaker : ∀ {v i j r}, rule v i j r → rule' v i j r) :
    Edits rule' t es u := by
  induction edits with
  | nil => exact .nil _
  | snoc _ order inside allowed ih => exact ih.snoc order inside (weaker allowed)

/-- The edits of a text are edits of every longer text around it. -/
lemma embed (edits : Edits rule t es u) (a b : Text)
    (wider : ∀ {v i j r}, rule v i j r → rule' (a ++ v ++ b) (a.length + i) (a.length + j) r) :
    Edits rule' (a ++ t ++ b) (es.map (Edit.behind a.length)) (a ++ u ++ b) := by
  induction edits with
  | nil => exact .nil _
  | @snoc u r es start stop _ order inside allowed ih =>
    have next := ih.snoc (Nat.add_le_add_left order a.length) (by simp; omega) (wider allowed)
    have front : (a ++ u ++ b).take (a.length + start) = a ++ u.take start := by
      rw [List.append_assoc, List.take_length_add_append, List.take_append_of_le_length (by omega)]
    have back : (a ++ u ++ b).drop (a.length + stop) = u.drop stop ++ b := by
      rw [List.append_assoc, List.drop_length_add_append, List.drop_append_of_le_length inside]
    rw [front, back] at next
    simpa only [List.map_append, List.map_cons, List.map_nil, Edit.behind, List.append_assoc]
      using next

/-- A shifted character is the same one. -/
lemma getElem?_of_shift? {α : Type} {u r : List α} (order : start ≤ stop) (inside : stop ≤ u.length)
    (shifted : (⟨start, stop, r.length⟩ : Edit).shift? 1 i = some k) :
    (u.take start ++ r ++ u.drop stop)[k]? = u[i]? := by
  have size : (u.take start).length = start := by
    rw [List.length_take]
    omega
  unfold Edit.shift? at shifted
  dsimp only at shifted
  split at shifted
  · cases shifted
    have front : (u.take start ++ r).length = start + r.length := by
      rw [List.length_append, size]
    rw [List.getElem?_append_right (by omega), List.getElem?_drop, front]
    congr 1
    omega
  · split at shifted
    · cases shifted
    · cases shifted
      rw [List.append_assoc, List.getElem?_append_left (by omega), List.getElem?_take,
        if_pos (by omega)]

/-- An untouched character stands where the log carries it. -/
lemma getElem?_of_carry? (edits : Edits rule t es u) (carried : Edit.carry? es i 1 = some k) :
    u[k]? = t[i]? := by
  induction edits generalizing k with
  | nil =>
    cases carried
    rfl
  | snoc _ order inside _ ih =>
    rw [Edit.carry?_snoc] at carried
    obtain ⟨l, early, late⟩ := Option.bind_eq_some_iff.1 carried
    exact (getElem?_of_shift? order inside late).trans (ih early)

/-- With a range, the log carries each of its characters along. -/
lemma carry?_within {n : Nat} (edits : Edits rule t es u) (inner : j < n)
    (carried : Edit.carry? es i n = some k) : Edit.carry? es (i + j) 1 = some (k + j) := by
  induction edits generalizing k with
  | nil =>
    cases carried
    rfl
  | snoc _ order _ _ ih =>
    rw [Edit.carry?_snoc] at carried ⊢
    obtain ⟨k', early, late⟩ := Option.bind_eq_some_iff.1 carried
    rw [ih early]
    exact Edit.shift?_within order inner late

/-- What the log carries is there with all its characters. -/
lemma slice_of_carry? {n : Nat} (edits : Edits rule t es u) (carried : Edit.carry? es i n = some k) :
    Text.slice u k (k + n) = Text.slice t i (i + n) := by
  refine List.ext_getElem? fun m => ?_
  rw [Text.getElem?_slice, Text.getElem?_slice, Nat.add_sub_cancel_left, Nat.add_sub_cancel_left]
  split
  · rename_i inner
    exact edits.getElem?_of_carry? (edits.carry?_within inner carried)
  · rfl

end Edits

namespace Localize

/-- What the work on terms may put in place of a range. -/
inductive Exchange (method : Text) (terms : List Term) (u : Text) (start stop : Nat) : Text → Prop where
  /-- The span of a term makes way for its call. -/
  | call {t : Term} (avoid : Option Quote) :
    t ∈ terms → Text.slice u start stop = t.span →
    Exchange method terms u start stop (fieldLabel t ++ t.call method avoid)
  /-- The span of a term makes way for its call in double braces. -/
  | interpolation {t : Term} :
    t ∈ terms → Text.slice u start stop = t.span →
    Exchange method terms u start stop (interpolated (t.call method none))
  /-- A copy of a body makes way for the same tags around the call. -/
  | body {t : Term} (dialect : Dialect) :
    t ∈ terms → t.isBody = true → Text.slice u start stop = t.span →
    Exchange method terms u start stop (bodyReplacement t (t.call method none) dialect)
  /-- An attribute makes way with the literal that is its value, and is bound from then on. Between
  its name and the literal stand an equals sign and white space, comments aside. -/
  | binding {t : Term} {name gap value : Text} {pos : Nat} {q : Quote} :
    t ∈ terms → start ≤ pos → pos ≤ stop → Text.slice u pos stop = t.span →
    Text.slice (Comment.mask u) start pos = name ++ gap ++ '=' :: value →
    (∀ c ∈ gap ++ value, isBlank c = true) →
    Exchange method terms u start stop (separator u start ++ ':' :: name ++
      '=' :: q.char :: t.call method (some q) ++ [q.char])

variable {style : Style} {terms : List Term} {text : Text} {s s' : State} {t : Term} {pos : Nat}

/-- Where a range is after one more edit depends on where it was before. -/
lemma locate?_splice (b : Buffer) (start stop : Nat) (r : Text) (i n : Nat) :
    (b.splice start stop r).locate? i n =
      (b.locate? i n).bind ((⟨start, stop, r.length⟩ : Edit).shift? n) :=
  Edit.carry?_snoc ..

/-- Before a literal that is the value of a plain attribute stands the attribute, comments aside. -/
lemma slice_of_plainAttribute {name : Text} {start : Nat} {q : Quote} (literal : t.isField = false)
    (site : siteOf? s t pos = some (.plainAttribute name start q)) :
    ∃ gap value, Text.slice s.buffer.masked start pos = name ++ gap ++ '=' :: value ∧
      ∀ c ∈ gap ++ value, isBlank c = true := by
  obtain ⟨h, tail, rfl, rfl⟩ := attributeTail?_of_site? literal site
  obtain ⟨before, read⟩ := Text.hits_read (List.mem_of_head? tail)
  split at read
  · rename_i name head
    obtain ⟨-, same⟩ := Prod.mk.inj (Option.some.inj read)
    rw [List.drop_take] at head
    exact same ▸ (Markup.attributeHead?_eq_some_iff.1 head).split
  · cases read

/-- A literal that is found again makes way under the rule. -/
lemma exchange_insertion {start : Nat} {r : Text} (mem : t ∈ terms)
    (held : s.buffer.holdsAt t.span pos = true) (ins : Insertion style.method s t pos start r) :
    start ≤ pos ∧ Exchange style.method terms s.buffer.text start (pos + t.span.length) r := by
  have copy : Text.slice s.buffer.text pos (pos + t.span.length) = t.span := beq_iff_eq.1 held
  cases ins with
  | call avoid => exact ⟨Nat.le_refl _, .call avoid mem copy⟩
  | interpolation => exact ⟨Nat.le_refl _, .interpolation mem copy⟩
  | binding plain site =>
    have before := start_of_plainAttribute plain site
    obtain ⟨gap, value, reads, blank⟩ := slice_of_plainAttribute plain site
    exact ⟨by omega, .binding mem (by omega) (Nat.le_add_right _ _) copy reads blank⟩

/-- One step only makes edits under the rule. -/
lemma edits_step (mem : t ∈ terms) (nonempty : t.span ≠ []) (done : step style s t = .ok s')
    (edits : Edits (Exchange style.method terms) text s.buffer.edits s.buffer.text) :
    Edits (Exchange style.method terms) text s'.buffer.edits s'.buffer.text := by
  refine step_induct (P := fun b => Edits (Exchange style.method terms) text b.edits b.text) edits done
    (fun body _ pos edits shows => ?_) fun _ pos start r _ held ins _ => ?_
  · exact edits.snoc (Nat.le_add_right _ _) (shows.inside nonempty)
      (.body style.dialect mem body shows.slices.1)
  · obtain ⟨before, allowed⟩ := exchange_insertion mem held ins
    have inside : pos + t.span.length ≤ s.buffer.text.length := by
      apply Text.le_length_of_length_slice (i := pos)
      · have := List.length_pos_iff.2 nonempty
        omega
      · rw [show Text.slice _ _ _ = t.span from beq_iff_eq.1 held]
        omega
    exact edits.snoc (by omega) inside allowed

/-- The work on a text with its terms only makes edits under the rule. -/
lemma edits_localize (style : Style) (registry : Registry) (text : Text) (dialect : Dialect)
    (o : Term.Options) :
    let terms := Term.extract text dialect o
    let s := (localize style registry text terms).1
    Edits (Exchange style.method terms) text s.buffer.edits s.buffer.text := by
  intro terms s
  exact run_induct (P := fun s => Edits (Exchange style.method terms) text s.buffer.edits s.buffer.text)
    (.nil text) fun mem edits done => edits_step mem (Term.span_ne_nil_of_mem_extract mem) done edits

end Localize

end Phrasebook
