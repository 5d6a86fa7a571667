import Phrasebook.Proofs.SkippedPlaces
import Phrasebook.Proofs.TiledRuns
import Phrasebook.Proofs.WrittenCalls

/-!
# Runs over their own results

A second run over a result finds the literals of the calls that the first one wrote, and literals that
hold such calls: it knows all of them again (`pair_stays`). What else it finds are characters that stay.
They were between quotes or tags in the text, and in no call there that is gone now
(`isLocalizedAt_carried`), so they are terms that the first run left in place (`carried_of_again`). A run
over a script leaves none (`gone_of_script`).
-/

namespace Phrasebook

/-- What the log carries character by character, it carries as a whole. -/
lemma Edits.carry?_whole {t u : Text} {es : List Edit} {i n : Nat} (edits : Edits Comment.Keeps t es u)
    (size : 0 < n) (each : ∀ j < n, (Edit.carry? es (i + j) 1).isSome = true) :
    (Edit.carry? es i n).isSome = true := by
  induction edits with
  | nil => rfl
  | @snoc u r es start stop edits _ inside keeps ih =>
    obtain ⟨k, carried⟩ := Option.isSome_iff_exists.1 (ih fun j early => by
      have here := each j early
      rw [Edit.carry?_snoc, Option.isSome_bind] at here
      exact Option.isSome_of_any here)
    rw [Edit.carry?_snoc, carried, Option.bind_some, ← Option.ne_none_iff_isSome]
    intro lost
    obtain ⟨early, late⟩ := Edit.shift?_eq_none_iff.1 lost
    have order := keeps.old.1
    simp only at early late
    -- the edit takes out one of the characters
    have here := each (max start k - k) (by omega)
    rw [Edit.carry?_snoc, edits.carry?_within (by omega) carried, Option.bind_some,
      ← Option.ne_none_iff_isSome] at here
    exact here (Edit.shift?_eq_none_iff.2 ⟨by simp only; omega, by simp only; omega⟩)

namespace Term

/-- Texts between tags are read where a tag closes only. -/
lemma tagBodyShape_opensOnce : tagBodyShape.OpensOnce '>' := by
  intro prev t n inner read
  obtain ⟨span, -, free⟩ := span_of_tagBodyShape read
  exact ⟨inner ++ ['<'], span, by simp [free]⟩

/-- What stands between the marks of two tags is read. -/
lemma tagBodyShape_of_split {prev : Option Char} {inner rest : Text} (opens : '<' ∉ inner)
    (closes : '>' ∉ inner) :
    tagBodyShape prev ('>' :: (inner ++ '<' :: rest)) = some (inner.length + 2, inner) := by
  have run : (inner ++ '<' :: rest).takeWhile (fun c => c != '<' && c != '>') = inner := by
    rw [List.takeWhile_append_of_pos]
    · simp
    · intro c mem
      simp [ne_of_mem_of_not_mem mem opens, ne_of_mem_of_not_mem mem closes]
  simp [tagBodyShape, run]

end Term

namespace Localize

open Comment

variable {style : Style} {dialect : Dialect} {o : Term.Options} {method text before inner rest span x y : Text}
  {names : List Text} {terms : List Term} {b : Buffer} {s s' : State} {t u : Term}
  {ts fs bs : List Tile} {cs : List Char} {q : Char} {i n : Nat}

/-! ## Calls around characters that stay -/

/-- A literal of characters that stay is known to stand in a call if it was known to. -/
lemma isLocalizedAt_carried (grafts : ∀ old new, .graft old new ∈ fs → Graft method terms old new)
    (loose : ∀ name ∈ Lookup.knownNames names, ∀ c ∈ name, isSeal c = false)
    (known : Lookup.isLocalizedAt names (olds fs ++ span ++ x) (olds fs).length span = true) :
    Lookup.isLocalizedAt names (news fs ++ span ++ y) (news fs).length span = true := by
  rw [Lookup.isLocalizedAt_occurrence_iff] at known ⊢
  refine known.imp_right ?_
  rintro ⟨before, name, blanks, rest, opening, blank⟩
  obtain ⟨z, call⟩ : ∃ z, name ++ (blanks ++ '(' :: rest) = z := ⟨_, rfl⟩
  have free : ∀ c ∈ z, isSeal c = false := by
    rw [← call]
    simp only [List.forall_mem_append, List.forall_mem_cons]
    exact ⟨loose name opening.known, fun c mem => loose_of (by decide) (opening.blank c mem), rfl,
      fun c mem => loose_of (by decide) (blank c mem)⟩
  obtain ⟨a, whole, size, cut⟩ : ∃ a, olds fs = (a ++ before) ++ z ∧ z.length ≤ Lookup.window ∧
      (z.length < Lookup.window → before = [] → a = []) := by
    have split := opening.split
    rw [call] at split
    have size := congrArg List.length split
    rw [List.length_drop, List.length_append] at size
    refine ⟨(olds fs).take ((olds fs).length - Lookup.window), ?_, by omega, fun short empty => ?_⟩
    · rw [List.append_assoc, ← split, List.take_append_drop]
    · rw [empty, List.length_nil] at size
      rw [show (olds fs).length - Lookup.window = 0 by omega, List.take_zero]
  obtain ⟨fs, rfl, front⟩ := split_of_loose (g := Tile.old) (fun _ => rfl)
    (fun old new mem => (grafts old new mem).ends.1) whole free
  rw [news_append, news_kept, List.length_append, List.drop_append_of_le_length (by omega), ← call]
  refine ⟨_, name, blanks, rest, ⟨rfl, opening.known, fun c last => ?_, opening.blank⟩, blank⟩
  -- what stands before the name is cut off, or it is as good a boundary as it was
  rw [call, List.getLast?_drop] at last
  split at last
  · cases last
  refine Lookup.mayStart_iff.1 ?_ c last
  rw [mayStart_news fun old new mem => grafts old new (List.mem_append_left _ mem),
    show olds fs = _ from front.symm, List.getLast?_append]
  cases ends : before.getLast? with
  | some d => exact Lookup.mayStart_iff.2 fun c same => opening.boundary c (ends.trans same)
  | none =>
    rw [cut (by omega) (List.getLast?_eq_none_iff.1 ends)]
    rfl

/-- Between quotes that a second run does not know to be in a call, all characters stay. -/
lemma pair_stays (tiled : Tiled method terms text b ts) (tame : Tame method terms)
    (clear : Clear method b) (known : method ∈ Lookup.knownNames names)
    (short : method.length < Lookup.window) (quote : q ∈ quoteMarks)
    (pair : QuotePair q b.masked before inner rest)
    (unknown : Lookup.isLocalizedAt names b.masked before.length (q :: inner ++ [q]) = false) :
    ∃ fs bs, ts = fs ++ ((q :: inner ++ [q]).map .kept ++ bs) ∧ before = news fs := by
  rcases pair_origin tiled tame clear quote pair with
    stays | ⟨t, -, avoid, x, y, span, -, boundary⟩ | ⟨t, avoid, f, g, split, offset, boundary⟩
  · exact stays
  · obtain ⟨z, call⟩ := t.call_eq_literal method avoid
    have holds : Lookup.holdsCall names (q :: inner ++ [q]) = true :=
      Lookup.holdsCall_iff.2 ⟨x, method, [], Literal.quote t.key avoid ++ z ++ y, by simp [span, call],
        known, Lookup.mayStart_iff.1 boundary, nofun⟩
    rw [Lookup.isLocalizedAt, holds] at unknown
    cases unknown
  · obtain ⟨z, call⟩ := t.call_eq_literal method avoid
    have found := Lookup.isLocalizedAt_call (Literal.quote t.key avoid ++ z ++ g) (q :: inner ++ [q])
      known short boundary
    rw [← offset, show f ++ method ++ '(' :: (Literal.quote t.key avoid ++ z ++ g) = b.masked by
      rw [split, call]
      simp] at found
    rw [found] at unknown
    cases unknown

/-! ## Back to the text -/

/-- Whether places of a text that are to be left alone still are, where the log carries them. -/
def KeepsSkipped (dialect : Dialect) (o : Term.Options) (text : Text) (b : Buffer) : Prop :=
  ∀ i k, b.locate? i 1 = some k → (Term.sourceOf text dialect o).isSkipped i = true →
    (Term.sourceOf b.text dialect o).isSkipped k = true

/-- A hit of the result and the place `i` where the text has the same one. -/
structure Returns (dialect : Dialect) (o : Term.Options) (text : Text) (b : Buffer) (h : Hit Text)
    (i : Nat) : Prop where
  located : b.locate? i (h.stop - h.start) = some h.start
  span : (Term.sourceOf text dialect o).spanOf ⟨i, i + (h.stop - h.start), h.value⟩ =
    (Term.sourceOf b.text dialect o).spanOf h
  intact : (Term.sourceOf b.text dialect o).isIntact h = true →
    (Term.sourceOf text dialect o).isIntact ⟨i, i + (h.stop - h.start), h.value⟩ = true
  kept : (Term.sourceOf b.text dialect o).isSkipped h.start = false →
    (Term.sourceOf text dialect o).isSkipped i = false
  unknown : (Term.sourceOf b.text dialect o).isLocalized h = false →
    (Term.sourceOf text dialect o).isLocalized ⟨i, i + (h.stop - h.start), h.value⟩ = false

/-- Characters that stay are where they were. -/
lemma Tiled.returns (tiled : Tiled method terms text b (fs ++ (cs.map .kept ++ bs))) (filled : cs ≠ [])
    (steady : KeepsSkipped dialect o text b)
    (loose : ∀ name ∈ Lookup.knownNames o.lookupNames, ∀ c ∈ name, isSeal c = false) (v : Text) :
    Returns dialect o text b ⟨(news fs).length, (news fs).length + cs.length, v⟩
      (olds fs).length := by
  have size := List.length_pos_iff.2 filled
  have place := (lies_append.1 (lies_append.1 tiled.lies).2).1
  rw [Nat.zero_add, Nat.zero_add] at place
  have each := fun j early => locate?_of_lies (j := j) place early
  have here : b.locate? (olds fs).length 1 = some (news fs).length := each 0 size
  have old : mask text = olds fs ++ cs ++ olds bs := by
    rw [← tiled.old, olds_append, olds_append, olds_kept, List.append_assoc]
  have new : b.masked = news fs ++ cs ++ news bs := by
    rw [← tiled.new, news_append, news_append, news_kept, List.append_assoc]
  have located : b.locate? (olds fs).length cs.length = some (news fs).length := by
    obtain ⟨k, carried⟩ := Option.isSome_iff_exists.1 (tiled.edits.carry?_whole size fun j early =>
      Option.isSome_iff_exists.2 ⟨_, each j early⟩)
    have first : b.locate? (olds fs).length 1 = some k := tiled.edits.carry?_within size carried
    rw [here] at first
    exact first ▸ carried
  have slices : ∀ u z : Text, Text.slice (u ++ cs ++ z) u.length (u.length + cs.length) = cs := by
    intro u z
    rw [Text.slice, List.append_assoc, List.drop_left, Nat.add_sub_cancel_left, List.take_left]
  have stood : Text.slice (mask text) (olds fs).length ((olds fs).length + cs.length) = cs := by
    rw [old, slices]
  have stands : Text.slice b.masked (news fs).length ((news fs).length + cs.length) = cs := by
    rw [new, slices]
  have texts := tiled.edits.slice_of_carry? located
  refine ⟨?_, ?_, ?_, fun kept => ?_, fun unknown => ?_⟩
  · rwa [Nat.add_sub_cancel_left]
  · rw [Nat.add_sub_cancel_left]
    exact stood.trans stands.symm
  · rw [Nat.add_sub_cancel_left]
    intro intact
    rw [Term.Source.isIntact, beq_iff_eq] at intact ⊢
    exact texts.symm.trans (intact.trans (stands.trans stood.symm))
  · refine Bool.eq_false_iff.2 fun skipped => ?_
    rw [steady _ _ here skipped] at kept
    cases kept
  · refine Bool.eq_false_iff.2 fun known => ?_
    rw [Nat.add_sub_cancel_left] at known
    have found : Lookup.isLocalizedAt o.lookupNames (mask text) (olds fs).length cs = true := by
      rw [← stood]
      exact known
    rw [old] at found
    have again := isLocalizedAt_carried (y := news bs)
      (fun o n mem => tiled.grafts o n (List.mem_append_left _ mem)) loose found
    rw [← new, ← stands] at again
    exact absurd (unknown.symm.trans again) Bool.false_ne_true

variable {h : Hit Text}

/-- A candidate of the text is a term where the result has the same one and does not know it. -/
lemma Returns.term {content : Text} {kind : TermKind} (back : Returns dialect o text b h i)
    (inside : h.stop ≤ b.masked.length)
    (unknown : (Term.sourceOf b.text dialect o).isLocalized h = false)
    (cand : Term.Candidate (Term.sourceOf text dialect o) o
      ((Term.sourceOf text dialect o).term ⟨i, i + (h.stop - h.start), h.value⟩ content kind)) :
    ∃ i, { (Term.sourceOf b.text dialect o).term h content kind with offset := i } ∈
        Term.extract text dialect o ∧
      b.locate? i ((Term.sourceOf b.text dialect o).spanOf h).length = some h.start := by
  have term := Term.mem_extract_of_candidate cand (.inr (back.unknown unknown))
  rw [Term.Source.term, back.span] at term
  refine ⟨i, term, ?_⟩
  rw [show ((Term.sourceOf b.text dialect o).spanOf h).length = _ from Text.length_slice inside]
  exact back.located

/-- A literal of the result that is not known to stand in a call was one of the text. -/
lemma quoted_back (regular : Regular style o text)
    (tiled : Tiled style.method (Term.extract text style.dialect o) text b ts)
    (clear : Clear style.method b) (steady : KeepsSkipped style.dialect o text b) (quote : q ∈ quoteMarks)
    (hit : h ∈ Text.hits (Term.quotedShape q) b.masked)
    (unknown : (Term.sourceOf b.text style.dialect o).isLocalized h = false) :
    ∃ i, Returns style.dialect o text b h i ∧
      ⟨i, i + (h.stop - h.start), h.value⟩ ∈ Text.hits (Term.quotedShape q) (mask text) := by
  obtain ⟨before, inner, rest, pair, rfl⟩ := Term.mem_hits_quotedShape_iff.1 hit
  have length : (q :: inner ++ [q]).length = inner.length + 2 := by simp
  obtain ⟨fs, bs, rfl, rfl⟩ := pair_stays tiled regular.tame clear regular.known regular.short quote pair
    (by rw [← pair.slice]; exact unknown)
  have back := tiled.returns (by simp) steady regular.loose inner
  rw [length, ← Nat.add_assoc] at back
  refine ⟨_, back, Term.mem_hits_quotedShape_iff.2 ⟨olds fs, inner, olds bs, ⟨?_, pair.free, ?_⟩, ?_⟩⟩
  · rw [← tiled.old, olds_append, olds_append, olds_kept, List.append_assoc]
    rfl
  · exact (even_news_iff (fun o n mem => tiled.grafts o n (List.mem_append_left _ mem)) regular.tame
      quote).1 pair.even
  · simp only [Hit.mk.injEq, true_and, and_true]
    omega

/-- A text between tags of the result was one of the text. -/
lemma body_back (regular : Regular style o text)
    (tiled : Tiled style.method (Term.extract text style.dialect o) text b ts)
    (steady : KeepsSkipped style.dialect o text b) (hit : h ∈ Text.hits Term.tagBodyShape b.masked)
    (free : h.value.any Prose.isQuote = false) :
    ∃ i, Returns style.dialect o text b h i ∧
      ⟨i, i + (h.stop - h.start), h.value⟩ ∈ Text.hits Term.tagBodyShape (mask text) := by
  obtain ⟨start, stop, v⟩ := h
  obtain ⟨order, inside⟩ := Text.hits_bounds Term.tagBodyShape_fits hit
  obtain ⟨prev, read⟩ := Text.hits_read hit
  obtain ⟨span, opens, closes⟩ := Term.span_of_tagBodyShape read
  dsimp only at order inside span opens closes free
  have length : (b.masked.take start).length = start ∧ stop = start + ('>' :: v ++ ['<']).length := by
    rw [← span, List.length_take, List.length_take, List.length_drop]
    omega
  have split : news ts = b.masked.take start ++ '>' :: (v ++ '<' :: b.masked.drop stop) := by
    rw [tiled.new]
    conv_lhs => rw [← List.take_append_drop start b.masked,
      ← List.take_append_drop (stop - start) (b.masked.drop start), span, List.drop_drop,
      Nat.add_sub_cancel' (Nat.le_of_lt order)]
    simp
  obtain ⟨fs, bs, rfl, front⟩ := body_origin tiled.grafts split free
  obtain ⟨place, rfl⟩ := length
  rw [front] at place
  subst place
  have old : mask text = olds fs ++ '>' :: (v ++ '<' :: olds bs) := by
    rw [← tiled.old, olds_append, olds_append, olds_kept]
    simp
  refine ⟨_, tiled.returns (by simp) steady regular.loose v, ?_⟩
  rw [Nat.add_sub_cancel_left]
  refine Text.mem_hits_of_opensOnce Term.tagBodyShape_opensOnce (by rw [old]; simp) ?_
  rw [old, List.drop_left, Term.tagBodyShape_of_split opens closes]
  simp

/-- What a second run finds and does not know is a term that the first run left in place. -/
lemma carried_of_again (regular : Regular style o text)
    (tiled : Tiled style.method (Term.extract text style.dialect o) text b ts)
    (clear : Clear style.method b) (steady : KeepsSkipped style.dialect o text b)
    (mem : t ∈ Term.extract b.text style.dialect o) (literal : t.isField = false)
    (between : t.isElement = false) :
    ∃ i, { t with offset := i } ∈ Term.extract text style.dialect o ∧
      b.locate? i t.span.length = some t.offset := by
  obtain ⟨cand, free⟩ := Term.mem_extract_iff.1 mem
  have unknown := free.resolve_left (by rw [literal]; exact Bool.false_ne_true)
  cases cand with
  | doubleQuoted hit bare plain intact kept prose =>
    obtain ⟨i, back, found⟩ := quoted_back regular tiled clear steady (by decide) hit unknown
    exact back.term (Text.hits_bounds (Term.quotedShape_fits _) hit).2 unknown
      (.doubleQuoted found bare plain (back.intact intact) (back.kept kept) prose)
  | field => cases literal
  | singleQuoted hit outside bare intact kept prose =>
    obtain ⟨i, back, found⟩ := quoted_back regular tiled clear steady (by decide) hit unknown
    refine back.term (Text.hits_bounds (Term.quotedShape_fits _) hit).2 unknown
      (.singleQuoted found (fun f field => ?_) bare (back.intact intact) (back.kept kept) prose)
    -- the text has no fields
    have plain := regular.tame.plain f (by
      simp only [Term.extract, List.mem_append]
      exact .inl (.inl (.inl (.inl (.inr field)))))
    obtain ⟨g, -, -, rfl⟩ := Term.mem_filterMap_ite.1 field
    cases plain
  | backtick hit target noPath intact kept =>
    obtain ⟨i, back, found⟩ := quoted_back regular tiled clear steady (by decide) hit unknown
    exact back.term (Text.hits_bounds (Term.quotedShape_fits _) hit).2 unknown
      (.backtick found target noPath (back.intact intact) (back.kept kept))
  | tagBody markup hit unquoted unopened unclosed intact prose =>
    obtain ⟨i, back, found⟩ := body_back regular tiled steady hit (Term.unquoted_of_strip unquoted)
    exact back.term (Text.hits_bounds Term.tagBodyShape_fits hit).2 unknown
      (.tagBody markup found unquoted unopened unclosed (back.intact intact) prose)
  | elementBody => cases between
  | jsxBody jsx =>
    rw [regular.jsx] at jsx
    cases jsx

/-! ## Scripts -/

/-- What is gone does not come back. -/
lemma lost_step (lost : s.buffer.locate? i n = none) (done : step style s t = .ok s') :
    s'.buffer.locate? i n = none := by
  refine step_induct (P := fun b => b.locate? i n = none) lost done (fun _ _ _ lost _ => ?_)
    fun _ _ _ _ _ _ _ _ => ?_
  · rw [locate?_splice, lost]
    rfl
  · rw [locate?_splice, lost]
    rfl

/-- A literal that makes way for a call is gone. -/
lemma gone_of_step (literal : t.isBody = false) (filled : t.span ≠ [])
    (edits : Edits (Exchange style.method terms) text s.buffer.edits s.buffer.text)
    (stands : Text.slice text t.offset t.stop = t.span) (script : style.dialect = .script)
    (done : step style s t = .ok s') : s'.buffer.locate? t.offset t.span.length = none := by
  have size := List.length_pos_iff.2 filled
  cases located : s.buffer.locate? t.offset t.span.length with
  | none => exact lost_step located done
  | some pos =>
    have held : s.buffer.holdsAt t.span pos = true :=
      beq_iff_eq.2 ((edits.slice_of_carry? located).trans stands)
    rcases step_literal style literal located held with ⟨idle, -⟩ | ⟨-, start, r, ins, moves⟩
    · rw [script] at idle
      cases idle
    · rw [moves] at done
      split at done
      · cases done
      · cases done
        have before := (exchange_insertion (List.mem_singleton_self t) held ins).1
        show (s.buffer.splice start (pos + t.span.length) r).locate? _ _ = none
        rw [locate?_splice, located]
        exact Edit.shift?_eq_none_iff.2 ⟨by simp only; omega, by simp only; omega⟩

/-- A run over a script leaves none of its literals in place. -/
lemma gone_of_script {us : List Term} (script : style.dialect = .script) (plain : o.jsx = false)
    (known : ∀ t ∈ us, t ∈ Term.extract text style.dialect o)
    (edits : Edits (Exchange style.method (Term.extract text style.dialect o)) text s.buffer.edits
      s.buffer.text)
    (done : (run style s us).2 = none) :
    ∀ u ∈ us, (run style s us).1.buffer.locate? u.offset u.span.length = none := by
  induction us generalizing s with
  | nil => exact nofun
  | cons t us ih =>
    have mem := known t List.mem_cons_self
    have cand := (Term.mem_extract_iff.1 mem).1
    have filled := cand.holds.nonempty
    unfold run at done ⊢
    cases moves : step style s t with
    | error e =>
      rw [moves] at done
      cases done
    | ok s' =>
      rw [moves] at done
      rintro u (_ | ⟨_, later⟩)
      · have gone := gone_of_step (cand.not_isBody script plain) filled edits cand.holds.text script moves
        exact run_induct (P := fun s => s.buffer.locate? t.offset t.span.length = none) gone
          fun _ => lost_step
      · exact ih (fun v mem => known v (List.mem_cons_of_mem t mem)) (edits_step mem filled moves edits)
          done u later

/-- What a second run over a result finds, fields and elements aside, are terms that the first run left
in place, as long as the first run wrote its quotes behind an even number of their kind and its calls
behind no word or dollar sign. So the second run changes and counts nothing if the first run left no
term in place, as it does in a script, and nothing of the result looks like a field or an element. -/
theorem localize_again (style : Style) (o : Term.Options) (registry registry' : Registry) (text : Text)
    (regular : Regular style o text) :
    let terms := Term.extract text style.dialect o
    let start : State := { buffer := .ofText text, registry }
    let first := localize style registry text terms
    let b := first.1.buffer
    let again := Term.extract b.text style.dialect o
    let second := localize style registry' b.text again
    (style.dialect = .markup → passesElements style start terms = true) → Clear style.method b →
    KeepsSkipped style.dialect o text b →
    (∀ t ∈ again, t.isField = false → t.isElement = false →
      ∃ u ∈ terms, u = { t with offset := u.offset } ∧
        b.locate? u.offset u.span.length = some t.offset) ∧
    ((∀ t ∈ again, t.isField = false ∧ (style.dialect = .markup → t.isElement = false)) →
      (style.dialect = .script ∧ first.2 = none ∨
        ∀ u ∈ terms, b.locate? u.offset u.span.length = none) →
      second.2 = none ∧ second.1.buffer.text = b.text ∧ second.1.replaced = 0) := by
  intro terms start first b again second passes clear steady
  have passed : passesElements style start terms = true := by
    cases dialect : style.dialect with
    | markup => exact passes dialect
    | script => exact passesElements_of_plain fun t mem => regular.not_isElement dialect mem
  obtain ⟨ts, tiled⟩ := tiled_run regular (fun _ mem => mem) ⟨_, .ofText ..⟩ passed
  have carried := fun t => carried_of_again (t := t) regular tiled clear steady
  refine ⟨fun t mem literal between => ?_, fun plain left => ?_⟩
  · obtain ⟨i, known, located⟩ := carried t mem literal between
    exact ⟨_, known, rfl, located⟩
  have gone : ∀ u ∈ terms, b.locate? u.offset u.span.length = none := by
    rcases left with ⟨script, done⟩ | gone
    · exact gone_of_script script regular.jsx (fun _ mem => mem) (.nil text) done
    · exact gone
  have nothing : again = [] := by
    refine List.eq_nil_iff_forall_not_mem.2 fun t mem => ?_
    have between : t.isElement = false := by
      cases dialect : style.dialect with
      | markup => exact (plain t mem).2 dialect
      | script => exact regular.not_isElement dialect mem
    obtain ⟨i, known, located⟩ := carried t mem (plain t mem).1 between
    cases (gone _ known).symm.trans located
  unfold second
  rw [nothing]
  exact ⟨rfl, rfl, rfl⟩

theorem localize_again_element :
    let style : Style := ⟨.markup, "$t".toList⟩
    let text := "<a title=\"中\">文</a>".toList
    let terms := Term.extract text .markup {}
    let b := (localize style .empty text terms).1.buffer
    let again := localize style .empty b.text (Term.extract b.text .markup {})
    Regular style {} text ∧ passesElements style ⟨.ofText text, .empty, [], 0, []⟩ terms = true ∧
      Clear style.method b ∧ KeepsSkipped .markup {} text b ∧
      (∀ u ∈ terms, b.locate? u.offset u.span.length = none) ∧
      b.text = "<a :title=\"$t('中')\">\x7b\x7b $t('文') \x7d\x7d</a>".toList ∧
      again.2 = none ∧ again.1.buffer.text = b.text ∧ again.1.replaced = 0 := by
  intro style text terms b again
  have found : terms = [⟨"\"中\"".toList, ['中'], .doubleQuoted, 9⟩, ⟨">文<".toList, ['文'], .tagBody, 12⟩,
      ⟨text, ['文'], .elementBody ['a'] " title=\"中\"".toList, 0⟩] := by
    decide +kernel
  have tame : Tame style.method terms := by
    rw [found]
    refine ⟨by decide +kernel, by decide +kernel, ?_, ?_, ?_⟩
    · simp only [forall_quoteMarks]
      decide +kernel
    · intro t mem avoid
      simp only [forall_quoteMarks]
      revert t
      rcases avoid with _ | _ | _ <;> decide +kernel
    · intro t mem avoid
      refine ⟨(t.call style.method avoid).dropLast.dropLast, [')'], (Quote.delimiter avoid).char, ?_⟩
      revert t
      rcases avoid with _ | _ | _ <;> decide +kernel
  have loose : ∀ name ∈ Lookup.knownNames [], name.all (!isSeal ·) = true := by decide
  have regular : Regular style {} text :=
    ⟨by decide +kernel, by decide, by decide, by decide, by decide, by simpa using loose, rfl, tame⟩
  have passes : passesElements style ⟨.ofText text, .empty, [], 0, []⟩ terms = true := by decide +kernel
  have clear : Clear style.method b := by
    refine ⟨?_, by decide +kernel⟩
    simp only [forall_quoteMarks]
    decide +kernel
  have steady : KeepsSkipped .markup {} text b := fun _ _ _ skipped => nomatch skipped
  have gone : ∀ u ∈ terms, b.locate? u.offset u.span.length = none := by decide +kernel
  have plain : ∀ t ∈ Term.extract b.text .markup {}, t.isField = false ∧
      (style.dialect = .markup → t.isElement = false) := by
    decide +kernel
  obtain ⟨-, idle⟩ := localize_again style {} .empty .empty text regular (fun _ => passes) clear steady
  exact ⟨regular, passes, clear, steady, gone, by decide +kernel, idle plain (.inr gone)⟩

end Localize

end Phrasebook
