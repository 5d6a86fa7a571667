import Mathlib.Algebra.Group.Nat.Even
import Phrasebook.Proofs.KeptComments

/-!
# Tiled texts

Under the work, the blanked copy of a text becomes a row of tiles: characters that stay, and grafts,
each a text that has taken the place of another one (`Tiled`). Read by their old texts the tiles are
the first text, read by their new ones the text of the buffer, and the log tells of each tile where it
is. An edit of characters that stay makes them one more graft (`Tiled.splice`).

Grafts start and end whole: they take out and put in each quote an even number of times and they end
with seals. So before a tile there is an even number of quotes exactly if there was one at first
(`even_news_iff`), and a text without seals before it is one of characters that stay
(`split_of_loose`).
-/

namespace Phrasebook

namespace Buffer

variable {b : Buffer} {start stop p n : Nat} {r : Text}

/-- What the edits wrote and left alone since: where it is, and how long. -/
def written (b : Buffer) : List (Nat × Nat) :=
  b.edits.foldl (fun ws e => (e.start, e.inserted) ::
    ws.filterMap fun w => (e.shift? w.2 w.1).map fun p => (p, w.2)) []

/-- A splice writes its text and shifts what it leaves whole. -/
lemma written_splice (b : Buffer) (start stop : Nat) (r : Text) :
    (b.splice start stop r).written = (start, r.length) :: b.written.filterMap fun w =>
      ((⟨start, stop, r.length⟩ : Edit).shift? w.2 w.1).map fun p => (p, w.2) := by
  rw [written, splice, List.foldl_append]
  rfl

/-- What was written moves along with the text around it. -/
lemma mem_written_splice {o : Nat} (wrote : (p, n) ∈ b.written)
    (shifted : (⟨start, stop, r.length⟩ : Edit).shift? n p = some o) :
    (o, n) ∈ (b.splice start stop r).written := by
  rw [written_splice]
  exact List.mem_cons_of_mem _ (List.mem_filterMap.2 ⟨(p, n), wrote, by rw [shifted]; rfl⟩)

end Buffer

namespace Localize

open Comment

/-- The quotes between which scanners look for terms. -/
def quoteMarks : List Char := ['"', '\'', '\x60']

/-- What holds of the three quotes holds of each. -/
lemma forall_quoteMarks {P : Char → Prop} :
    (∀ q ∈ quoteMarks, P q) ↔ P '"' ∧ P '\'' ∧ P '\x60' := by
  simp [quoteMarks]

/-- A tile of a text under the work: a character that stays, or a graft. -/
inductive Tile where
  | kept (c : Char)
  | graft (old new : Text)

/-- What stands at a tile in the first text. -/
def Tile.old : Tile → Text
  | kept c => [c]
  | graft old _ => old

/-- What stands at a tile now. -/
def Tile.new : Tile → Text
  | kept c => [c]
  | graft _ new => new

/-- The first text of a row of tiles. -/
def olds (ts : List Tile) : Text :=
  ts.flatMap Tile.old

/-- The present text of a row of tiles. -/
def news (ts : List Tile) : Text :=
  ts.flatMap Tile.new

/-- How the log of a buffer tells of tiles, the first of which was at `i` and is at `k`: characters
that stay are carried there, of what grafts replaced nothing is left, and what they put in is
untouched. -/
def Lies (b : Buffer) : Nat → Nat → List Tile → Prop
  | _, _, [] => True
  | i, k, .kept _ :: ts => b.locate? i 1 = some k ∧ Lies b (i + 1) (k + 1) ts
  | i, k, .graft old new :: ts =>
    (∀ j < old.length, b.locate? (i + j) 1 = none) ∧ (k, new.length) ∈ b.written ∧
      Lies b (i + old.length) (k + new.length) ts

/-- How a call takes the place of a text: what comes before it, the quote that it avoids, and what
comes behind it. -/
structure Dress (old lead : Text) (avoid : Option Quote) (trail : Text) : Prop where
  even : ∀ q ∈ quoteMarks, Even (old.count q)
  /-- Around the call there are no quotes, unless it is the value of an attribute. -/
  quotes : ∀ q ∈ quoteMarks, (q ∉ lead ∧ q ∉ trail) ∨
    ∃ a x, avoid = some a ∧ q = a.char ∧ lead = x ++ [q] ∧ trail = [q] ∧ q ∉ x
  boundary : lead = [] ∨ lead ≠ [] ∧ Lookup.mayStart lead.getLast? = true

/-- A graft: an old text and the call of a term in its dress. -/
structure Graft (method : Text) (terms : List Term) (old new : Text) : Prop where
  call : ∃ t ∈ terms, ∃ lead avoid trail,
    new = lead ++ t.call method avoid ++ trail ∧ Dress old lead avoid trail
  /-- Tags that it opens or closes are apart from each other by a quote. -/
  flat : ∃ x y q, new = x ++ q :: y ∧ Prose.isQuote q = true ∧ '<' ∉ x ∧ '>' ∉ y
  ends : (∃ c, old.getLast? = some c ∧ isSeal c = true) ∧ ∃ c, new.getLast? = some c ∧ isSeal c = true

/-- A buffer whose blanked copy is a row of tiles. -/
structure Tiled (method : Text) (terms : List Term) (text : Text) (b : Buffer) (ts : List Tile) :
    Prop where
  edits : Edits Keeps text b.edits b.text
  old : olds ts = mask text
  new : news ts = b.masked
  lies : Lies b 0 0 ts
  grafts : ∀ old new, .graft old new ∈ ts → Graft method terms old new

variable {method text r x : Text} {terms : List Term} {b : Buffer} {t : Term} {ts fs bs : List Tile}
  {start stop i k n : Nat} {q : Char} {cs : List Char}

/-- Rows joined stand for first texts joined. -/
lemma olds_append (fs bs : List Tile) : olds (fs ++ bs) = olds fs ++ olds bs :=
  List.flatMap_append

/-- Rows joined stand for results joined. -/
lemma news_append (fs bs : List Tile) : news (fs ++ bs) = news fs ++ news bs :=
  List.flatMap_append

/-- Characters that stay were there. -/
lemma olds_kept (cs : Text) : olds (cs.map .kept) = cs := by
  induction cs with
  | nil => rfl
  | cons c cs ih => exact congrArg (c :: ·) ih

/-- Characters that stay are there. -/
lemma news_kept (cs : Text) : news (cs.map .kept) = cs := by
  induction cs with
  | nil => rfl
  | cons c cs ih => exact congrArg (c :: ·) ih

/-! ## What the log tells of tiles -/

/-- A row lies as its two parts lie, one behind the other. -/
lemma lies_append : Lies b i k (fs ++ bs) ↔
    Lies b i k fs ∧ Lies b (i + (olds fs).length) (k + (news fs).length) bs := by
  induction fs generalizing i k with
  | nil => exact ⟨fun lies => ⟨trivial, lies⟩, fun lies => lies.2⟩
  | cons t fs ih =>
    have size : (olds (t :: fs)).length = t.old.length + (olds fs).length ∧
        (news (t :: fs)).length = t.new.length + (news fs).length :=
      ⟨List.length_append, List.length_append⟩
    rw [size.1, size.2, ← Nat.add_assoc, ← Nat.add_assoc]
    cases t with
    | kept c => simp only [List.cons_append, Lies, ih, and_assoc]; rfl
    | graft old new => simp only [List.cons_append, Lies, ih, and_assoc]; rfl

/-- Characters that stay are carried one behind the other. -/
lemma locate?_of_lies {j : Nat} (lies : Lies b i k (cs.map .kept)) (early : j < cs.length) :
    b.locate? (i + j) 1 = some (k + j) := by
  induction cs generalizing i k j with
  | nil => cases early
  | cons c cs ih =>
    cases j with
    | zero => exact lies.1
    | succ j =>
      have later := ih lies.2 (Nat.lt_of_succ_lt_succ early)
      rwa [Nat.add_assoc, Nat.add_assoc, Nat.add_comm 1] at later

/-- An edit leaves the tiles before it where they are. -/
lemma lies_before (lies : Lies b i k ts) (order : start < stop) (front : k + (news ts).length ≤ start) :
    Lies (b.splice start stop r) i k ts := by
  induction ts generalizing i k with
  | nil => trivial
  | cons t ts ih =>
    have size : (news (t :: ts)).length = t.new.length + (news ts).length := List.length_append
    have stays : ∀ n, k + n ≤ start → (⟨start, stop, r.length⟩ : Edit).shift? n k = some k := by
      intro n before
      rw [Edit.shift?, if_neg (by simp only; omega), if_neg (by simp only; omega)]
    cases t with
    | kept c =>
      simp only [Tile.new, List.length_singleton] at size
      refine ⟨?_, ih lies.2 (by omega)⟩
      rw [locate?_splice, lies.1]
      exact stays 1 (by omega)
    | graft old new =>
      simp only [Tile.new] at size
      refine ⟨fun j early => ?_, Buffer.mem_written_splice lies.2.1 (stays _ (by omega)), ih lies.2.2 (by omega)⟩
      rw [locate?_splice, lies.1 j early]
      rfl

/-- An edit moves the tiles behind it. -/
lemma lies_behind (start : Nat) (r : Text) (lies : Lies b i k ts) (back : stop ≤ k) :
    Lies (b.splice start stop r) i (k + start + r.length - stop) ts := by
  induction ts generalizing i k with
  | nil => trivial
  | cons t ts ih =>
    have moves : ∀ n, (⟨start, stop, r.length⟩ : Edit).shift? n k =
        some (k + start + r.length - stop) := fun n => if_pos back
    cases t with
    | kept c =>
      have later := ih lies.2 (by omega)
      rw [show k + 1 + start + r.length - stop = k + start + r.length - stop + 1 by omega] at later
      refine ⟨?_, later⟩
      rw [locate?_splice, lies.1]
      exact moves 1
    | graft old new =>
      have later := ih lies.2.2 (by omega)
      rw [show k + new.length + start + r.length - stop =
        k + start + r.length - stop + new.length by omega] at later
      refine ⟨fun j early => ?_, Buffer.mem_written_splice lies.2.1 (moves _), later⟩
      rw [locate?_splice, lies.1 j early]
      rfl

/-- Characters that the log carries are tiles of their own. -/
lemma split_of_lies {y z : Text} (lies : Lies b i k ts)
    (solid : ∀ old new, .graft old new ∈ ts → old ≠ []) (same : olds ts = y ++ (x ++ z)) (filled : x ≠ [])
    (alive : ∀ j < x.length, (b.locate? (i + y.length + j) 1).isSome = true) :
    ∃ fs bs, ts = fs ++ (x.map .kept ++ bs) ∧ y = olds fs := by
  induction ts generalizing i k y x with
  | nil =>
    have empty := List.append_eq_nil_iff.1 same.symm
    exact absurd (List.append_eq_nil_iff.1 empty.2).1 filled
  | cons t ts ih =>
    have rest := fun old new mem => solid old new (List.mem_cons_of_mem t mem)
    cases t with
    | kept c =>
      have split : c :: olds ts = y ++ (x ++ z) := same
      cases y with
      | cons d y =>
        obtain ⟨rfl, tail⟩ := List.cons.inj split
        obtain ⟨fs, bs, rfl, rfl⟩ := ih lies.2 rest tail filled fun j early => by
          have here := alive j early
          rwa [List.length_cons, Nat.add_comm y.length, ← Nat.add_assoc] at here
        exact ⟨.kept c :: fs, bs, rfl, rfl⟩
      | nil =>
        cases x with
        | nil => exact absurd rfl filled
        | cons d x =>
          obtain ⟨rfl, tail⟩ := List.cons.inj split
          cases x with
          | nil => exact ⟨[], ts, rfl, rfl⟩
          | cons e x =>
            obtain ⟨fs, bs, rfl, joined⟩ := ih (y := []) lies.2 rest tail (List.cons_ne_nil e x)
              fun j early => by
                have here := alive (j + 1) (Nat.succ_lt_succ early)
                rwa [List.length_nil, Nat.add_zero, Nat.add_comm j, ← Nat.add_assoc] at here
            cases fs with
            | nil => exact ⟨[], bs, rfl, rfl⟩
            | cons f fs =>
              have nothing : f.old = [] := (List.append_eq_nil_iff.1 joined.symm).1
              cases f with
              | kept _ => cases nothing
              | graft old new => exact absurd nothing (rest old new List.mem_cons_self)
    | graft old new =>
      have split : old ++ olds ts = y ++ (x ++ z) := same
      rcases Nat.lt_or_ge y.length old.length with within | behind
      · have here := alive 0 (List.length_pos_iff.2 filled)
        rw [Nat.add_zero, lies.1 y.length within] at here
        cases here
      · obtain ⟨m, rfl⟩ : old <+: y :=
          List.prefix_of_prefix_length_le ⟨_, split⟩ (List.prefix_append y _) behind
        rw [List.append_assoc, List.append_cancel_left_eq] at split
        obtain ⟨fs, bs, rfl, rfl⟩ := ih lies.2.2 rest split filled fun j early => by
          have here := alive j early
          rwa [List.length_append, ← Nat.add_assoc] at here
        exact ⟨.graft old new :: fs, bs, rfl, rfl⟩

namespace Tiled

/-- A tiled text keeps its comments apart if the first text does. -/
lemma separate (tiled : Tiled method terms text b ts) (sep : Separate text) : Separate b.text :=
  separate_of_edits tiled.edits sep

/-- The tiles are as long as the text. -/
lemma length_news (tiled : Tiled method terms text b ts) (sep : Separate text) :
    (news ts).length = b.text.length := by
  rw [tiled.new]
  exact length_mask (tiled.separate sep)

/-- A text before any work is tiled by its own characters. -/
lemma ofText (method : Text) (terms : List Term) (text : Text) :
    Tiled method terms text (.ofText text) ((mask text).map .kept) where
  edits := .nil text
  old := olds_kept _
  new := news_kept _
  lies := by
    generalize mask text = u
    have lies : ∀ i, Lies (.ofText text) i i (u.map .kept) := by
      induction u with
      | nil => exact fun _ => trivial
      | cons c u ih => exact fun i => ⟨rfl, ih (i + 1)⟩
    exact lies 0
  grafts := fun old new mem => by
    obtain ⟨c, -, other⟩ := List.mem_map.1 mem
    cases other

/-- A part of the first text that the log carries whole is a row of tiles of its own. -/
lemma split_of_located (tiled : Tiled method terms text b ts) (filled : x ≠ [])
    (stands : Text.slice (mask text) i (i + x.length) = x)
    (located : b.locate? i x.length = some k) :
    ∃ fs bs, ts = fs ++ (x.map .kept ++ bs) ∧ (olds fs).length = i ∧ (news fs).length = k := by
  have size := List.length_pos_iff.2 filled
  have bound : i + x.length ≤ (mask text).length := by
    apply Text.le_length_of_length_slice (i := i)
    · omega
    · rw [stands]
      omega
  have same : olds ts = (mask text).take i ++ (x ++ (mask text).drop (i + x.length)) := by
    have tail := Text.drop_eq_slice_append (mask text) (Nat.le_add_right i x.length)
    rw [stands] at tail
    rw [tiled.old, ← tail, List.take_append_drop]
  have length : ((mask text).take i).length = i := by
    rw [List.length_take]
    omega
  obtain ⟨fs, bs, rfl, front⟩ := split_of_lies tiled.lies (fun old new mem => by
    obtain ⟨⟨c, last, -⟩, -⟩ := (tiled.grafts old new mem).ends
    rintro rfl
    cases last) same filled fun j early => by
      rw [Nat.zero_add, length]
      exact Option.isSome_iff_exists.2 ⟨_, tiled.edits.carry?_within early located⟩
  have place := (lies_append.1 (lies_append.1 tiled.lies).2).1
  have first := locate?_of_lies place (j := 0) size
  have there : b.locate? i 1 = some k := tiled.edits.carry?_within (j := 0) size located
  rw [← front, length, Nat.zero_add, Nat.zero_add, Nat.add_zero, there] at first
  exact ⟨fs, bs, rfl, by rw [← front, length], (Option.some.inj first).symm⟩

/-- An edit of characters that stay makes them a graft. -/
lemma splice (tiled : Tiled method terms text b (fs ++ (cs.map .kept ++ bs))) (sep : Separate text)
    (graft : Graft method terms cs r)
    (keeps : Keeps b.text (news fs).length ((news fs).length + cs.length) r)
    (openers : ∀ k ∈ brackets, ¬ k.1 <:+: r) :
    Tiled method terms text (b.splice (news fs).length ((news fs).length + cs.length) r)
      (fs ++ .graft cs r :: bs) := by
  have total := tiled.length_news sep
  rw [news_append, news_append, news_kept, List.length_append, List.length_append] at total
  have inside : (news fs).length + cs.length ≤ b.text.length := by omega
  obtain ⟨front, place, back⟩ : Lies b 0 0 fs ∧ Lies b (olds fs).length (news fs).length (cs.map .kept) ∧
      Lies b ((olds fs).length + cs.length) ((news fs).length + cs.length) bs := by
    have lies := tiled.lies
    rwa [lies_append, lies_append, olds_kept, news_kept, Nat.zero_add, Nat.zero_add] at lies
  refine ⟨tiled.edits.snoc (Nat.le_add_right _ _) inside keeps, ?_, ?_, ?_, fun old new mem => ?_⟩
  · rw [← tiled.old, olds_append, olds_append, olds_append, olds_kept]
    rfl
  · have masked := keeps.mask (tiled.separate sep) inside openers
    rw [show (b.splice _ _ r).masked = _ from masked, show mask b.text = _ from tiled.new.symm,
      news_append, news_append, news_append, news_kept, List.take_left, ← List.append_assoc,
      List.drop_left' (List.length_append ..), List.append_assoc]
    rfl
  · rw [lies_append]
    refine ⟨lies_before front keeps.old.1 (by omega), fun j early => ?_, ?_, ?_⟩
    · have carried := locate?_of_lies place early
      rw [Nat.zero_add, locate?_splice, carried]
      exact Edit.shift?_eq_none_iff.2 ⟨by simp only; omega, by simp only; omega⟩
    · rw [Nat.zero_add, Buffer.written_splice]
      exact List.mem_cons_self
    · have behind := lies_behind (news fs).length r back (Nat.le_refl _)
      rw [Nat.zero_add, Nat.zero_add]
      rwa [show (news fs).length + cs.length + (news fs).length + r.length -
        ((news fs).length + cs.length) = (news fs).length + r.length by omega] at behind
  · rcases List.mem_append.1 mem with early | late
    · exact tiled.grafts old new (List.mem_append_left _ early)
    · rcases List.mem_cons.1 late with same | later
      · cases same
        exact graft
      · exact tiled.grafts old new (List.mem_append_right _ (List.mem_append_right _ later))

end Tiled

/-! ## Whole grafts -/

/-- Terms, no fields among them, that open no comments and whose calls hold no quotes but the two of
their literals. -/
structure Tame (method : Text) (terms : List Term) : Prop where
  plain : ∀ t ∈ terms, t.isField = false
  openers : ∀ t ∈ terms, ∀ k ∈ brackets, ¬ k.1 <:+: t.span
  even : ∀ t ∈ terms, ∀ q ∈ quoteMarks, Even (t.span.count q)
  calls : ∀ t ∈ terms, ∀ avoid, ∀ q ∈ quoteMarks,
    (t.call method avoid).count q = if q = (Quote.delimiter avoid).char then 2 else 0
  flat : ∀ t ∈ terms, ∀ avoid, ∃ x y q, t.call method avoid = x ++ q :: y ∧ Prose.isQuote q = true ∧
    '<' ∉ x ∧ '>' ∉ y

/-- A graft takes out and puts in each quote an even number of times. -/
lemma Graft.even {old new : Text} (graft : Graft method terms old new) (tame : Tame method terms)
    (quote : q ∈ quoteMarks) : Even (old.count q) ∧ Even (new.count q) := by
  obtain ⟨t, mem, lead, avoid, trail, rfl, dress⟩ := graft.call
  refine ⟨dress.even q quote, ?_⟩
  have call : Even ((t.call method avoid).count q) := by
    rw [tame.calls t mem avoid q quote]
    split <;> decide
  have outer : Even (lead.count q + trail.count q) := by
    rcases dress.quotes q quote with ⟨front, back⟩ | ⟨a, x, -, -, rfl, rfl, front⟩
    · rw [List.count_eq_zero_of_not_mem front, List.count_eq_zero_of_not_mem back]
      exact Even.zero
    · rw [List.count_append, List.count_eq_zero_of_not_mem front, Nat.zero_add]
      exact Even.add_self _
  rw [List.count_append, List.count_append, Nat.add_right_comm]
  exact outer.add call

/-- Grafts change the number of quotes by an even number. -/
lemma even_news_iff (grafts : ∀ old new, .graft old new ∈ ts → Graft method terms old new)
    (tame : Tame method terms) (quote : q ∈ quoteMarks) :
    Even ((news ts).count q) ↔ Even ((olds ts).count q) := by
  induction ts with
  | nil => rfl
  | cons t ts ih =>
    have rest := ih fun old new mem => grafts old new (List.mem_cons_of_mem t mem)
    show Even ((t.new ++ news ts).count q) ↔ Even ((t.old ++ olds ts).count q)
    rw [List.count_append, List.count_append, Nat.even_add, Nat.even_add, rest]
    cases t with
    | kept c => rfl
    | graft old new =>
      have even := (grafts old new List.mem_cons_self).even tame quote
      simp only [Tile.new, Tile.old, even]

/-- A text without seals before a tile, in the first text or the present one, is of characters that
stay. -/
lemma split_of_loose {g : Tile → Text} {y : Text} (kept : ∀ c, g (.kept c) = [c])
    (ends : ∀ old new, .graft old new ∈ ts →
      ∃ c, (g (.graft old new)).getLast? = some c ∧ isSeal c = true)
    (same : ts.flatMap g = y ++ x) (loose : ∀ c ∈ x, isSeal c = false) :
    ∃ fs, ts = fs ++ x.map .kept ∧ y = fs.flatMap g := by
  induction x using List.reverseRecOn generalizing ts with
  | nil => exact ⟨ts, by simp, by rw [same, List.append_nil]⟩
  | append_singleton x c ih =>
    rcases List.eq_nil_or_concat ts with rfl | ⟨ts, t, rfl⟩
    · simp at same
    rw [List.concat_eq_append] at *
    rw [List.flatMap_append, List.flatMap_singleton, ← List.append_assoc] at same
    cases t with
    | kept d =>
      rw [kept] at same
      obtain ⟨front, last⟩ := List.append_inj' same rfl
      obtain rfl := (List.cons.inj last).1
      obtain ⟨fs, rfl, rfl⟩ := ih (fun old new mem => ends old new (List.mem_append_left _ mem)) front
        fun e mem => loose e (List.mem_append_left _ mem)
      exact ⟨fs, by simp, rfl⟩
    | graft old new =>
      obtain ⟨e, last, sealed⟩ := ends old new (by simp)
      have final := congrArg List.getLast? same
      rw [List.getLast?_append, last, Option.some_or, List.getLast?_concat] at final
      obtain rfl := Option.some.inj final
      rw [loose e (by simp)] at sealed
      cases sealed

/-- A name may start behind a tile exactly if it might at first. -/
lemma mayStart_news (grafts : ∀ old new, .graft old new ∈ ts → Graft method terms old new) :
    Lookup.mayStart (news ts).getLast? = Lookup.mayStart (olds ts).getLast? := by
  have free : ∀ {u v : Text}, (∃ c, v.getLast? = some c ∧ isSeal c = true) →
      Lookup.mayStart (u ++ v).getLast? = true := by
    rintro u v ⟨c, last, sealed⟩
    rw [List.getLast?_append, last, Option.some_or]
    rcases isSeal_iff.1 sealed with rfl | rfl | rfl | rfl | rfl | rfl | rfl <;> decide
  rcases List.eq_nil_or_concat ts with rfl | ⟨ts, t, rfl⟩
  · rfl
  rw [List.concat_eq_append] at *
  rw [news_append, olds_append]
  cases t with
  | kept c => simp [olds, news, Tile.old, Tile.new]
  | graft old new =>
    have ends := (grafts old new (by simp)).ends
    have same : news [.graft old new] = new ∧ olds [.graft old new] = old := by
      simp [olds, news, Tile.old, Tile.new]
    rw [same.1, same.2, free ends.1, free ends.2]

end Localize

end Phrasebook
