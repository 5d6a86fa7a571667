import Phrasebook.Proofs.EncodedLiterals
import Phrasebook.Proofs.QuotePairs
import Phrasebook.Proofs.Tiles

/-!
# Pieces of a tiled text

A scanner that reads a tiled text finds pairs of quotes and texts between tags. Most of them are rows
of characters that stay. The others meet a graft, and as long as grafts can be told from what was there
(`Clear`) a pair that meets one holds its call as a whole or is the literal of it (`pair_origin`).
-/

namespace Phrasebook.Localize

open Comment

/-- A buffer where everything that edits wrote can be told from what was there: before its quotes there
is an even number of their kind, and a call at its front stands behind a boundary. -/
structure Clear (method : Text) (b : Buffer) : Prop where
  closed : ∀ w ∈ b.written, ∀ q ∈ quoteMarks, q ∈ Text.slice b.masked w.1 (w.1 + w.2) →
    Even ((b.masked.take w.1).count q)
  bounded : ∀ w ∈ b.written, method <+: b.masked.drop w.1 →
    Lookup.mayStart (b.masked.take w.1).getLast? = true

/-- A text with a call of a term in it, behind a boundary. -/
def HoldsTerm (method : Text) (terms : List Term) (u : Text) : Prop :=
  ∃ t ∈ terms, ∃ avoid x y, u = x ++ (t.call method avoid ++ y) ∧ x ≠ [] ∧
    Lookup.mayStart x.getLast? = true

/-- A place where the literal of a call stands, with a boundary before the call. -/
def IsLiteralAt (method : Text) (b : Buffer) (pos : Nat) : Prop :=
  ∃ (t : Term) (avoid : Option Quote) (f g : Text), b.masked = f ++ t.call method avoid ++ g ∧
    pos = f.length + method.length + 1 ∧ Lookup.mayStart f.getLast? = true

variable {method text before inner rest old new : Text} {terms : List Term} {b : Buffer}
  {ts fs bs : List Tile} {q : Char}

/-- The tile that holds a character. -/
lemma exists_tile {y : Text} (same : news ts = before ++ q :: y) :
    ∃ fs t bs x z, ts = fs ++ t :: bs ∧ t.new = x ++ q :: z ∧ before = news fs ++ x ∧
      y = z ++ news bs := by
  induction ts generalizing before with
  | nil => simp [news] at same
  | cons t ts ih =>
    have split : t.new ++ news ts = before ++ q :: y := same
    have later : ∀ m, before = t.new ++ m → news ts = m ++ q :: y → ∃ fs t' bs x z,
        t :: ts = fs ++ t' :: bs ∧ t'.new = x ++ q :: z ∧ before = news fs ++ x ∧ y = z ++ news bs := by
      rintro m rfl tail
      obtain ⟨fs, t', bs, x, z, rfl, inside, rfl, rfl⟩ := ih tail
      exact ⟨t :: fs, t', bs, x, z, rfl, inside, (List.append_assoc ..).symm, rfl⟩
    rcases List.append_eq_append_iff.1 split with ⟨m, rfl, tail⟩ | ⟨m, here, tail⟩
    · exact later m rfl tail
    · cases m with
      | nil => exact later [] (by simp [here]) tail.symm
      | cons d m =>
        obtain ⟨rfl, rfl⟩ := List.cons.inj tail
        exact ⟨[], t, ts, before, m, rfl, here, rfl, rfl⟩

/-- Tiles are all characters that stay, or there is a graft among them. -/
lemma kept_or_graft (ts : List Tile) :
    (∃ cs : Text, ts = cs.map .kept) ∨ ∃ fs old new bs, ts = fs ++ .graft old new :: bs := by
  induction ts with
  | nil => exact .inl ⟨[], rfl⟩
  | cons t ts ih =>
    cases t with
    | graft old new => exact .inr ⟨[], old, new, ts, rfl⟩
    | kept c =>
      rcases ih with ⟨cs, rfl⟩ | ⟨fs, old, new, bs, rfl⟩
      · exact .inl ⟨c :: cs, rfl⟩
      · exact .inr ⟨.kept c :: fs, old, new, bs, rfl⟩

/-- The text around a graft. -/
lemma Tiled.around (tiled : Tiled method terms text b (fs ++ .graft old new :: bs))
    (clear : Clear method b) :
    (∀ q ∈ quoteMarks, q ∈ new → Even ((news fs).count q)) ∧
      ∃ t ∈ terms, ∃ lead avoid trail, new = lead ++ t.call method avoid ++ trail ∧
        Dress old lead avoid trail ∧ Lookup.mayStart (news fs ++ lead).getLast? = true := by
  have wrote := (lies_append.1 tiled.lies).2.2.1
  rw [Nat.zero_add] at wrote
  have whole : b.masked = news fs ++ (new ++ news bs) := by
    rw [← tiled.new, news_append]
    rfl
  have closed := clear.closed _ wrote
  have bounded := clear.bounded _ wrote
  rw [whole, List.take_left, Text.slice, Nat.add_sub_cancel_left, List.drop_left, List.take_left] at closed
  rw [whole, List.take_left, List.drop_left] at bounded
  obtain ⟨t, mem, lead, avoid, trail, rfl, dress⟩ := (tiled.grafts old new (by simp)).call
  refine ⟨closed, t, mem, lead, avoid, trail, rfl, dress, ?_⟩
  rcases dress.boundary with rfl | ⟨filled, boundary⟩
  · rw [List.append_nil]
    obtain ⟨tail, call⟩ := t.call_eq_literal method avoid
    refine bounded ?_
    rw [call, List.nil_append, List.append_assoc, List.append_assoc]
    exact List.prefix_append ..
  · rwa [List.getLast?_append_of_ne_nil _ filled]

/-- A quote that a graft puts in comes twice: around its literal, or around its call. -/
lemma Dress.two {t : Term} {lead trail : Text} {avoid : Option Quote}
    (dress : Dress old lead avoid trail) (tame : Tame method terms) (mem : t ∈ terms)
    (quote : q ∈ quoteMarks) (inside : q ∈ lead ++ t.call method avoid ++ trail) :
    ∃ x y z, lead ++ t.call method avoid ++ trail = x ++ q :: (y ++ q :: z) ∧ q ∉ x ∧ q ∉ y ∧ q ∉ z ∧
      (x = lead ++ method ++ ['('] ∨ lead = x ++ [q] ∧ y = t.call method avoid) := by
  have count := tame.calls t mem avoid q quote
  obtain ⟨tail, call⟩ := t.call_eq_literal method avoid
  rcases dress.quotes q quote with ⟨early, late⟩ | ⟨a, x, rfl, rfl, rfl, rfl, early⟩
  · split at count
    · rename_i delimiter
      have parts : lead ++ t.call method avoid ++ trail = (lead ++ method ++ ['(']) ++
          q :: (Literal.body t.key avoid ++ q :: (tail ++ trail)) := by
        rw [call, Literal.quote, ← delimiter]
        simp
      have total := congrArg (List.count q) parts
      have first := List.count_eq_zero_of_not_mem early
      have last := List.count_eq_zero_of_not_mem late
      simp only [List.count_append, List.count_cons_self] at total
      refine ⟨_, _, _, parts, List.count_eq_zero.1 ?_, List.count_eq_zero.1 ?_,
        List.count_eq_zero.1 ?_, .inl rfl⟩
      · simp only [List.count_append]
        omega
      · omega
      · simp only [List.count_append]
        omega
    · simp [early, List.count_eq_zero.1 count, late] at inside
  · rw [if_neg (Literal.delimiter_ne_avoided rfl).symm] at count
    exact ⟨x, _, [], by simp, early, List.count_eq_zero.1 count, List.not_mem_nil, .inr ⟨rfl, rfl⟩⟩

/-- A pair of quotes that starts in a graft holds its call or is the literal of it. -/
lemma Tiled.pair_of_graft {x z : Text} (tiled : Tiled method terms text b (fs ++ .graft old new :: bs))
    (tame : Tame method terms) (clear : Clear method b) (quote : q ∈ quoteMarks) (here : new = x ++ q :: z)
    (even : Even ((news fs ++ x).count q)) (free : q ∉ inner)
    (tail : inner ++ q :: rest = z ++ news bs) :
    HoldsTerm method terms (q :: inner ++ [q]) ∨ IsLiteralAt method b (news fs ++ x).length := by
  obtain ⟨closed, t, mem, lead, avoid, trail, same, dress, boundary⟩ := tiled.around clear
  have inside : q ∈ new := by
    rw [here]
    simp
  rw [List.count_append, Nat.even_add] at even
  have first := even.1 (closed q quote inside)
  rw [same] at inside
  obtain ⟨x', y, z', parts, left, middle, right, which⟩ := dress.two tame mem quote inside
  have both : x ++ q :: z = x' ++ q :: (y ++ q :: z') := by rw [← parts, ← same, here]
  -- the quote is the first of the two
  have total := congrArg (List.count q) both
  simp only [List.count_append, List.count_cons_self, List.count_eq_zero_of_not_mem left,
    List.count_eq_zero_of_not_mem middle, List.count_eq_zero_of_not_mem right] at total
  have absent : q ∉ x := by
    refine List.count_eq_zero.1 ?_
    obtain ⟨m, half⟩ := first
    omega
  obtain ⟨rfl, rfl⟩ : x' = x ∧ z = y ++ q :: z' := by
    rcases Text.split_first left both.symm with ⟨rfl, rfl⟩ | ⟨m, rfl, -⟩
    · exact ⟨rfl, rfl⟩
    · simp at absent
  obtain rfl : y = inner := by
    rw [List.append_assoc, List.cons_append] at tail
    rcases Text.split_first middle tail.symm with ⟨rfl, -⟩ | ⟨m, rfl, -⟩
    · rfl
    · exact absurd free (by simp)
  rcases which with rfl | ⟨rfl, rfl⟩
  · refine .inr ⟨t, avoid, news fs ++ lead, trail ++ news bs, ?_, ?_, boundary⟩
    · rw [← tiled.new, news_append, show news (.graft old new :: bs) = new ++ news bs from rfl, same]
      simp only [List.append_assoc]
    · simp only [List.length_append, List.length_singleton]
      omega
  · refine .inl ⟨t, mem, avoid, [q], [q], by simp, by simp, ?_⟩
    rwa [← List.append_assoc, List.getLast?_concat] at boundary

/-- A pair of quotes stays as it is, or it holds a call, or it is the literal of one. -/
lemma pair_origin (tiled : Tiled method terms text b ts) (tame : Tame method terms)
    (clear : Clear method b) (quote : q ∈ quoteMarks)
    (pair : QuotePair q b.masked before inner rest) :
    (∃ fs bs, ts = fs ++ ((q :: inner ++ [q]).map .kept ++ bs) ∧ before = news fs) ∨
      HoldsTerm method terms (q :: inner ++ [q]) ∨ IsLiteralAt method b before.length := by
  have split := pair.split
  rw [← tiled.new, List.cons_append] at split
  obtain ⟨fs, t, bs, x, z, rfl, here, rfl, tail⟩ := exists_tile split
  have single : ∀ {c x z}, (Tile.kept c).new = x ++ q :: z → x = [] ∧ z = [] ∧ c = q := by
    intro c x z same
    cases x with
    | nil => exact ⟨rfl, (List.cons.inj same).2.symm, (List.cons.inj same).1⟩
    | cons d x => simp [Tile.new] at same
  cases t with
  | kept c =>
    obtain ⟨rfl, rfl, rfl⟩ := single here
    obtain ⟨gs, t, hs, x, z, rfl, there, rfl, -⟩ := exists_tile tail.symm
    simp only [List.append_nil] at *
    cases t with
    | kept d =>
      obtain ⟨rfl, -, rfl⟩ := single there
      rw [List.append_nil]
      rcases kept_or_graft gs with ⟨cs, rfl⟩ | ⟨g, old, new, g', rfl⟩
      · exact .inl ⟨fs, hs, by simp [news_kept], rfl⟩
      · -- the call of a graft between the quotes
        have row : fs ++ .kept d :: (g ++ .graft old new :: g' ++ .kept d :: hs) =
            (fs ++ .kept d :: g) ++ .graft old new :: (g' ++ .kept d :: hs) := by simp
        rw [row] at tiled
        obtain ⟨-, t, mem, lead, avoid, trail, rfl, -, boundary⟩ := tiled.around clear
        refine .inr (.inl ⟨t, mem, avoid, d :: news g ++ lead, trail ++ news g' ++ [d], ?_, by simp, ?_⟩)
        · simp [news, Tile.new]
        · rwa [news_append, List.append_assoc, List.getLast?_append_of_ne_nil] at boundary
          simp [news, Tile.new]
    | graft old new =>
      -- the number of quotes before the graft would be odd
      exfalso
      have row : fs ++ .kept c :: (gs ++ .graft old new :: hs) =
          (fs ++ .kept c :: gs) ++ .graft old new :: hs := by simp
      rw [row] at tiled
      have even := (tiled.around clear).1 c quote (by rw [show new = _ from there]; simp)
      have free : (news gs).count c = 0 :=
        List.count_eq_zero.2 fun mem => pair.free (List.mem_append_left x mem)
      rw [news_append, List.count_append, show news (.kept c :: gs) = c :: news gs from rfl,
        List.count_cons_self, free, Nat.even_add] at even
      simp [pair.even] at even
  | graft old new => exact .inr (tiled.pair_of_graft tame clear quote here pair.even pair.free tail)

/-! ## Texts between tags -/

/-- A quote before the next tag opens cannot be in a text free of quotes. -/
lemma ne_of_unquoted {u y : Text} (quote : Prose.isQuote q = true) (shut : '<' ∉ u)
    (free : inner.any Prose.isQuote = false) : u ++ q :: y ≠ inner ++ '<' :: rest := by
  intro same
  rcases List.append_eq_append_iff.1 same with ⟨m, rfl, tail⟩ | ⟨m, rfl, tail⟩
  · cases m with
    | nil =>
      cases (List.cons.inj tail).1
      cases quote
    | cons c m =>
      cases (List.cons.inj tail).1
      simp [quote] at free
  · cases m with
    | nil =>
      cases (List.cons.inj tail).1
      cases quote
    | cons c m =>
      cases (List.cons.inj tail).1
      simp at shut

/-- Up to the bracket that closes it, a text without quotes is of characters that stay. -/
lemma split_of_unquoted (grafts : ∀ old new, .graft old new ∈ ts → Graft method terms old new)
    (same : news ts = inner ++ '<' :: rest) (free : inner.any Prose.isQuote = false) :
    ∃ bs, ts = (inner ++ ['<']).map .kept ++ bs := by
  induction ts generalizing inner with
  | nil => simp [news] at same
  | cons t ts ih =>
    have split : t.new ++ news ts = inner ++ '<' :: rest := same
    cases t with
    | graft old new =>
      obtain ⟨x, y, q, rfl, quote, shut, -⟩ := (grafts old new List.mem_cons_self).flat
      rw [Tile.new, List.append_assoc, List.cons_append] at split
      exact absurd split (ne_of_unquoted quote shut free)
    | kept c =>
      cases inner with
      | nil =>
        obtain ⟨rfl, -⟩ := List.cons.inj split
        exact ⟨ts, rfl⟩
      | cons d inner =>
        obtain ⟨rfl, tail⟩ := List.cons.inj split
        rw [List.any_cons, Bool.or_eq_false_iff] at free
        obtain ⟨bs, rfl⟩ := ih (fun old new mem => grafts old new (List.mem_cons_of_mem _ mem)) tail free.2
        exact ⟨bs, rfl⟩

/-- A text without quotes between two tags is of characters that stay, with its brackets. -/
lemma body_origin (grafts : ∀ old new, .graft old new ∈ ts → Graft method terms old new)
    (same : news ts = before ++ '>' :: (inner ++ '<' :: rest)) (free : inner.any Prose.isQuote = false) :
    ∃ fs bs, ts = fs ++ (('>' :: inner ++ ['<']).map .kept ++ bs) ∧ before = news fs := by
  obtain ⟨fs, t, bs, x, z, rfl, here, rfl, tail⟩ := exists_tile same
  have later := fun old new mem => grafts old new (List.mem_append_right fs (List.mem_cons_of_mem t mem))
  cases t with
  | kept c =>
    cases x with
    | nil =>
      obtain ⟨rfl, rfl⟩ := List.cons.inj here
      obtain ⟨bs, rfl⟩ := split_of_unquoted later tail.symm free
      exact ⟨fs, bs, rfl, List.append_nil _⟩
    | cons d x => simp [Tile.new] at here
  | graft old new =>
    -- the bracket would be apart from the next one by a quote
    obtain ⟨u, y, q, rfl, quote, shut, closed⟩ := (grafts old new (by simp)).flat
    exfalso
    rcases List.append_eq_append_iff.1 here with ⟨m, rfl, behind⟩ | ⟨m, rfl, behind⟩
    · cases m with
      | nil =>
        cases (List.cons.inj behind).1
        cases quote
      | cons c m =>
        obtain ⟨-, rfl⟩ := List.cons.inj behind
        simp at closed
    · cases m with
      | nil =>
        cases (List.cons.inj behind).1
        cases quote
      | cons c m =>
        obtain ⟨rfl, rfl⟩ := List.cons.inj behind
        have split : m ++ q :: (y ++ news bs) = inner ++ '<' :: rest := by
          rw [tail]
          simp
        refine ne_of_unquoted quote (fun mem => shut ?_) free split
        exact List.mem_append_right _ (List.mem_cons_of_mem _ mem)

end Phrasebook.Localize
