import Phrasebook.Proofs.Soundness
import Phrasebook.Proofs.TiledPieces

/-!
# Runs over tiled texts

Each step of the work on a text keeps it tiled: what it takes out is of characters that stay, and what
it puts in is a graft. For a literal the log says so (`Tiled.split_of_located`), for the attribute before
it that no seal stands between them (`split_of_loose`), and for a copy of a text between tags that no
quote stands in it (`body_origin`). The copies of an element may reach over grafts, so a run is asked to
find no element when its turn comes (`passesElements`).
-/

namespace Phrasebook

namespace Term

/-- Whether a term is an element with its body. -/
def isElement (t : Term) : Bool :=
  match t.kind with
  | .elementBody .. => true
  | _ => false

/-- An element is a body. -/
lemma isBody_of_isElement {t : Term} (element : t.isElement = true) : t.isBody = true := by
  unfold isElement at element
  unfold isBody
  split at element
  · rename_i kind
    rw [kind]
  · cases element

/-- Around the words of a text there are no quotes. -/
lemma unquoted_of_strip {u : Text} (free : (Text.strip u).any Prose.isQuote = false) :
    u.any Prose.isQuote = false := by
  obtain ⟨a, b, parts, front, back⟩ := Text.strip_split u
  have blank : ∀ {v : Text}, (∀ c ∈ v, isBlank c = true) → v.any Prose.isQuote = false := by
    refine fun blank => List.any_eq_false.2 fun c mem quote => ?_
    simp only [Prose.isQuote, Bool.or_eq_true, beq_iff_eq] at quote
    rcases quote with rfl | rfl <;> exact absurd (blank _ mem) (by decide)
  rw [parts, List.any_append, List.any_append, blank front, free, blank back]
  rfl

/-- A text between tags and the two characters around it. -/
lemma span_of_tagBodyShape {prev : Option Char} {t inner : Text} {n : Nat}
    (read : tagBodyShape prev t = some (n, inner)) :
    t.take n = '>' :: inner ++ ['<'] ∧ '<' ∉ inner ∧ '>' ∉ inner := by
  have frames := frames_tagBodyShape read
  generalize t.take n = u at frames
  cases frames with
  | tagBody opens closes => exact ⟨rfl, opens, closes⟩

/-- A text between tags holds no quotes. -/
lemma Candidate.unquoted {s : Source} {o : Options} {t : Term} (cand : Candidate s o t)
    (plain : o.jsx = false) (body : t.isBody = true) (between : t.isElement = false) :
    ∃ inner, t.kind = .tagBody ∧ t.span = '>' :: inner ++ ['<'] ∧ inner.any Prose.isQuote = false := by
  cases cand with
  | @tagBody h _ hit free _ _ _ _ =>
    obtain ⟨prev, rest, read, span⟩ := Source.spanOf_eq hit
    exact ⟨h.value, rfl, span.trans (span_of_tagBodyShape read).1, unquoted_of_strip free⟩
  | elementBody => cases between
  | jsxBody jsx => rw [plain] at jsx; cases jsx
  | _ => cases body

end Term

namespace Localize

open Comment

variable {style : Style} {o : Term.Options} {method text r lead trail name : Text} {terms : List Term}
  {b : Buffer} {s s' : State} {t : Term} {ts fs bs : List Tile} {cs : List Char} {avoid : Option Quote}
  {pos start : Nat} {q : Char}

/-- Quotes are seals. -/
lemma isSeal_quoteMarks : ∀ q ∈ quoteMarks, isSeal q = true :=
  forall_quoteMarks.2 ⟨rfl, rfl, rfl⟩

/-- No seal is in a loose text. -/
lemma not_mem_of_loose {u : Text} (loose : ∀ c ∈ u, isSeal c = false) (sealed : isSeal q = true) :
    q ∉ u := by
  intro mem
  rw [loose q mem] at sealed
  cases sealed

/-- Characters that stay may make way for a call in its dress. -/
lemma Tiled.put (tiled : Tiled method terms text b (fs ++ (cs.map .kept ++ bs))) (sep : Separate text)
    (tame : Tame method terms) (mem : t ∈ terms) (dress : Dress cs lead avoid trail)
    (shut : '<' ∉ lead) (closed : '>' ∉ trail) (old : ∃ c, cs.getLast? = some c ∧ isSeal c = true)
    (keeps : Keeps b.text (news fs).length ((news fs).length + cs.length)
      (lead ++ t.call method avoid ++ trail) ∧
      ∀ k ∈ brackets, k.1 <:+: lead ++ t.call method avoid ++ trail → k.1 <:+: t.span) :
    ∃ ts, Tiled method terms text (b.splice (news fs).length ((news fs).length + cs.length)
      (lead ++ t.call method avoid ++ trail)) ts := by
  obtain ⟨x, y, q, call, quote, front, back⟩ := tame.flat t mem avoid
  refine ⟨_, tiled.splice sep ⟨⟨t, mem, lead, avoid, trail, rfl, dress⟩, ⟨lead ++ x, y ++ trail, q, ?_,
    quote, ?_, ?_⟩, old, keeps.1.sealed⟩ keeps.1 fun k known opens => ?_⟩
  · rw [call]
    simp only [List.append_assoc, List.cons_append]
  · rw [List.mem_append, not_or]
    exact ⟨shut, front⟩
  · rw [List.mem_append, not_or]
    exact ⟨back, closed⟩
  · exact tame.openers t mem k known (keeps.2 k known opens)

/-- An attribute with a literal as its value may make way for the bound one. -/
lemma Tiled.bind {p : Quote} (tiled : Tiled method terms text s.buffer (fs ++ (t.span.map .kept ++ bs)))
    (sep : Separate text) (tame : Tame method terms) (neutral : isNeutral method = true) (mem : t ∈ terms)
    (ready : Ready text t) (bare : Bare s.buffer.text t.span (news fs).length)
    (site : siteOf? s t (news fs).length = some (.plainAttribute name start p)) :
    ∃ ts, Tiled method terms text (s.buffer.splice start ((news fs).length + t.span.length)
      (separator s.buffer.text start ++ ':' :: name ++
        '=' :: p.char :: t.call method (some p) ++ [p.char])) ts := by
  obtain ⟨inner, framed⟩ := ready.framed
  have literal := tame.plain t mem
  have before := start_of_plainAttribute literal site
  have keeps := keeps_binding neutral (tiled.separate sep) framed ready.firm bare literal site
  obtain ⟨head, -⟩ := attributeHead_of_site literal site
  obtain ⟨x, loose, parts⟩ : ∃ x, (∀ c ∈ x, isSeal c = false) ∧
      separator s.buffer.text start ++ ':' :: name ++ '=' :: p.char :: t.call method (some p) ++
        [p.char] = (x ++ [p.char]) ++ t.call method (some p) ++ [p.char] := by
    refine ⟨separator s.buffer.text start ++ ':' :: name ++ ['='], fun c found => ?_, by simp⟩
    simp only [List.mem_append, List.mem_cons, List.not_mem_nil, or_false] at found
    rcases found with (gap | rfl | named) | rfl
    · rcases separator_eq s.buffer.text start with nothing | one
      · rw [nothing] at gap
        cases gap
      · rw [one, List.mem_singleton] at gap
        subst gap
        rfl
    · rfl
    · exact loose_of_isAttributeChar (head.named.2 c named)
    · rfl
  -- the attribute up to its value is of characters that stay
  have front : Text.slice s.buffer.masked start (news fs).length = (news fs).drop start := by
    rw [← tiled.new, news_append, Text.slice, List.drop_append_of_le_length (by omega),
      List.take_left' (by rw [List.length_drop])]
  obtain ⟨u, cut⟩ : ∃ u, (news fs).drop start = u := ⟨_, rfl⟩
  have length : ((news fs).take start).length = start := by
    rw [List.length_take]
    omega
  rw [front, cut] at head
  obtain ⟨fs, rfl, place⟩ := split_of_loose (g := Tile.new) (fun _ => rfl)
    (fun old new found => (tiled.grafts old new (List.mem_append_left _ found)).ends.2)
    (cut ▸ (List.take_append_drop start (news fs)).symm) head.loose
  rw [place, show fs.flatMap Tile.new = news fs from rfl] at length
  dsimp only at keeps
  rw [parts] at keeps ⊢
  have stop : (news (fs ++ u.map .kept)).length + t.span.length =
      (news fs).length + (u ++ t.span).length := by
    rw [news_append, news_kept, List.length_append, List.length_append, Nat.add_assoc]
  rw [List.append_assoc, ← List.append_assoc (u.map _), ← List.map_append] at tiled
  rw [← length, stop] at keeps ⊢
  refine tiled.put sep tame mem ⟨fun q quote => ?_, fun q quote => ?_, .inr ⟨by simp, ?_⟩⟩ ?_ ?_ ?_ keeps
  · rw [List.count_append, List.count_eq_zero_of_not_mem
      (not_mem_of_loose head.loose (isSeal_quoteMarks q quote)), Nat.zero_add]
    exact tame.even t mem q quote
  · have free := not_mem_of_loose loose (isSeal_quoteMarks q quote)
    by_cases same : q = p.char
    · exact .inr ⟨p, x, rfl, same, by rw [same], by rw [same], free⟩
    · exact .inl ⟨by simp [free, same], by simp [same]⟩
  · rw [List.getLast?_concat]
    cases p <;> decide
  · rw [List.mem_append, List.mem_singleton, not_or]
    exact ⟨not_mem_of_loose loose rfl, by cases p <;> decide⟩
  · cases p <;> decide
  · rw [List.getLast?_append_of_ne_nil _ ready.firm.ne_nil]
    exact ready.firm.last

/-- What takes the place of a literal keeps a text tiled. -/
lemma Tiled.insert (tiled : Tiled method terms text s.buffer ts) (sep : Separate text)
    (tame : Tame method terms) (neutral : isNeutral method = true) (mem : t ∈ terms) (ready : Ready text t)
    (stands : Text.slice (mask text) t.offset t.stop = t.span)
    (located : s.buffer.locate? t.offset t.span.length = some pos)
    (held : s.buffer.holdsAt t.span pos = true) (ins : Insertion method s t pos start r) :
    ∃ ts, Tiled method terms text (s.buffer.splice start (pos + t.span.length) r) ts := by
  obtain ⟨fs, bs, rfl, -, rfl⟩ := tiled.split_of_located ready.firm.ne_nil stands located
  have bare := bare_of_located tiled.edits ready located held
  cases ins with
  | call avoid =>
    have label : fieldLabel t = [] := by
      have literal := tame.plain t mem
      unfold fieldLabel
      split
      · rename_i kind
        simp [Term.isField, kind] at literal
      · rfl
    have keeps := keeps_of_bare ready bare fun _ _ orderly => fits_call orderly neutral ready.named avoid
    rw [label, List.nil_append, ← List.nil_append (t.call method avoid), ← List.append_nil ([] ++ _)]
      at keeps ⊢
    exact tiled.put sep tame mem ⟨tame.even t mem, fun q _ => .inl ⟨List.not_mem_nil, List.not_mem_nil⟩,
      .inl rfl⟩ List.not_mem_nil List.not_mem_nil ready.firm.last keeps
  | interpolation =>
    have keeps := keeps_of_bare ready bare fun _ _ orderly => fits_interpolated orderly neutral
    have free : ∀ q ∈ quoteMarks, q ∉ ['\x7b', '\x7b', ' '] ∧ q ∉ [' ', '\x7d', '\x7d'] :=
      forall_quoteMarks.2 (by decide)
    exact tiled.put sep tame mem ⟨tame.even t mem, fun q quote => .inl (free q quote),
      .inr ⟨by decide, by decide⟩⟩ (by decide) (by decide) ready.firm.last keeps
  | binding _ site => exact tiled.bind sep tame neutral mem ready bare site

/-- What takes the place of a text between tags keeps a text tiled. -/
lemma Tiled.copy {inner : Text} (tiled : Tiled method terms text b ts) (sep : Separate text)
    (tame : Tame method terms) (neutral : isNeutral method = true) (mem : t ∈ terms) (ready : Ready text t)
    (kind : t.kind = .tagBody) (span : t.span = '>' :: inner ++ ['<'])
    (free : inner.any Prose.isQuote = false) (shows : b.Shows t.span pos) :
    ∃ ts, Tiled method terms text (b.splice pos (pos + t.span.length)
      (bodyReplacement t (t.call method none) .markup)) ts := by
  have inside := shows.inside ready.firm.ne_nil
  have bare := bare_of_shown (tiled.separate sep) ready.firm shows.slices.1 shows.slices.2
  have keeps := keeps_of_bare ready bare fun _ _ orderly =>
    fits_body orderly (by simp [Term.isBody, kind]) neutral .markup
  obtain ⟨rest, behind⟩ := shows.2
  have length : (b.masked.take pos).length = pos := by
    rw [List.length_take, show b.masked.length = _ from length_mask (tiled.separate sep)]
    omega
  have same : news ts = b.masked.take pos ++ '>' :: (inner ++ '<' :: rest) := by
    rw [tiled.new]
    conv_lhs => rw [← List.take_append_drop pos b.masked, ← behind, span]
    simp
  obtain ⟨fs, bs, rfl, front⟩ := body_origin tiled.grafts same free
  rw [← span] at tiled
  obtain ⟨-, -, first, last⟩ := padding_bounds inner
  have parts : bodyReplacement t (t.call method none) .markup =
      ('>' :: (padding inner).1 ++ ['\x7b', '\x7b', ' ']) ++ t.call method none ++
        ([' ', '\x7d', '\x7d'] ++ (padding inner).2 ++ ['<']) := by
    have core : t.span.dropLast.drop 1 = inner := by
      rw [span, List.dropLast_concat]
      rfl
    simp [bodyReplacement, kind, ← core, embedded, interpolated]
  have unsealed : ∀ {u : Text}, (∀ c ∈ u, isBlank c = true) → ∀ {q}, isSeal q = true → q ∉ u :=
    fun blank => not_mem_of_loose fun c found => loose_of_isBlank (blank c found)
  rw [parts] at keeps ⊢
  rw [front] at length
  subst length
  refine tiled.put sep tame mem ⟨tame.even t mem, fun q quote => .inl ?_, .inr ⟨by simp, ?_⟩⟩
    ?_ ?_ ready.firm.last keeps
  · have sealed := isSeal_quoteMarks q quote
    have marks : ∀ q ∈ quoteMarks, q ∉ ['>', '\x7b', ' ', '\x7d', '<'] := forall_quoteMarks.2 (by decide)
    have other := marks q quote
    simp only [List.mem_cons, List.not_mem_nil, or_false, not_or] at other
    simp [other, unsealed first sealed, unsealed last sealed]
  · rw [List.getLast?_append]
    rfl
  · simp [unsealed first (q := '<') rfl]
  · simp [unsealed last (q := '>') rfl]

/-- A text, a style and options for which calls can be told from what was there. -/
structure Regular (style : Style) (o : Term.Options) (text : Text) : Prop where
  separate : Separate text
  neutral : isNeutral style.method = true
  known : style.method ∈ Lookup.knownNames o.lookupNames
  short : style.method.length < Lookup.window
  fields : ∀ name ∈ o.fieldNames, isNeutral name = true
  loose : ∀ name ∈ Lookup.knownNames o.lookupNames, ∀ c ∈ name, isSeal c = false
  jsx : o.jsx = false
  tame : Tame style.method (Term.extract text style.dialect o)

/-- Whether no element is found when its turn comes. -/
def passesElements (style : Style) : State → List Term → Bool
  | _, [] => true
  | s, t :: ts => (!t.isElement || (s.buffer.findFrom? t.span 0).isNone) &&
    match step style s t with
    | .ok s' => passesElements style s' ts
    | .error _ => true

/-- A script has no elements. -/
lemma Regular.not_isElement {u : Text} (regular : Regular style o text) (script : style.dialect = .script)
    (mem : t ∈ Term.extract u style.dialect o) : t.isElement = false := by
  have body := (Term.mem_extract_iff.1 mem).1.not_isBody script regular.jsx
  refine Bool.eq_false_iff.2 fun element => ?_
  rw [Term.isBody_of_isElement element] at body
  cases body

/-- Where there are no elements, none is found. -/
lemma passesElements_of_plain (plain : ∀ t ∈ terms, t.isElement = false) :
    passesElements style s terms = true := by
  induction terms generalizing s with
  | nil => rfl
  | cons t terms ih =>
    rw [passesElements, plain t List.mem_cons_self]
    cases step style s t with
    | error _ => rfl
    | ok s' => exact ih fun u mem => plain u (List.mem_cons_of_mem t mem)

/-- A body that is not found changes nothing. -/
lemma buffer_step_of_unfound (body : t.isBody = true) (unfound : s.buffer.findFrom? t.span 0 = none)
    (done : step style s t = .ok s') : s'.buffer = s.buffer := by
  rw [step_body body, unfound] at done
  split at done
  · cases done
    rfl
  · cases done
    rfl

/-- A step keeps a text tiled. -/
lemma tiled_step (regular : Regular style o text) (mem : t ∈ Term.extract text style.dialect o)
    (tiled : ∃ ts, Tiled style.method (Term.extract text style.dialect o) text s.buffer ts)
    (passes : t.isElement = true → s.buffer.findFrom? t.span 0 = none) (done : step style s t = .ok s') :
    ∃ ts, Tiled style.method (Term.extract text style.dialect o) text s'.buffer ts := by
  have ready := ready_of_mem regular.separate regular.fields mem
  have cand := (Term.mem_extract_iff.1 mem).1
  cases element : t.isElement with
  | true =>
    rw [buffer_step_of_unfound (Term.isBody_of_isElement element) (passes element) done]
    exact tiled
  | false =>
    refine step_induct (P := fun b => ∃ ts, Tiled style.method (Term.extract text style.dialect o) text b ts)
      tiled done (fun body b pos tiled shows => ?_) fun _ pos start r located held ins _ => ?_
    · obtain ⟨ts, tiled⟩ := tiled
      cases dialect : style.dialect with
      | script =>
        rw [cand.not_isBody dialect regular.jsx] at body
        cases body
      | markup =>
        obtain ⟨inner, kind, span, free⟩ := cand.unquoted regular.jsx body element
        rw [dialect] at tiled mem
        have tame := regular.tame
        rw [dialect] at tame
        exact tiled.copy regular.separate tame regular.neutral mem ready kind span free shows
    · obtain ⟨ts, tiled⟩ := tiled
      exact tiled.insert regular.separate regular.tame regular.neutral mem ready cand.holds.masked located
        held ins

/-- A run keeps a text tiled. -/
lemma tiled_run {us : List Term} (regular : Regular style o text)
    (known : ∀ t ∈ us, t ∈ Term.extract text style.dialect o)
    (tiled : ∃ ts, Tiled style.method (Term.extract text style.dialect o) text s.buffer ts)
    (passes : passesElements style s us = true) :
    ∃ ts, Tiled style.method (Term.extract text style.dialect o) text (run style s us).1.buffer ts := by
  induction us generalizing s with
  | nil => exact tiled
  | cons t us ih =>
    unfold run
    rw [passesElements, Bool.and_eq_true, Bool.or_eq_true, Bool.not_eq_true', Option.isNone_iff_eq_none]
      at passes
    cases done : step style s t with
    | error _ => exact tiled
    | ok s' =>
      rw [done] at passes
      have passed : t.isElement = true → s.buffer.findFrom? t.span 0 = none := fun element =>
        passes.1.resolve_left (by simp [element])
      exact ih (fun u mem => known u (List.mem_cons_of_mem t mem))
        (tiled_step regular (known t List.mem_cons_self) tiled passed done) passes.2

end Localize

end Phrasebook
