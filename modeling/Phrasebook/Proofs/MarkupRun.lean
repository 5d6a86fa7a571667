import Phrasebook.Proofs.Patches
import Phrasebook.Proofs.Steps

/-!
# Localizing markup

The literals of markup are found again by the log of the edits, so the work never changes the call
of a literal by that of another one. The bodies of tags and elements are searched for in the text as
it is by then, and so is the attribute whose value a literal is; both may lie in a text that an
earlier edit put there.

`Patched` says that every step replaces ranges of the first text. `KeepsOff` says of the two kinds
of steps above that what they replace was not touched before. The two are the same
(`localize_markup_patched_iff`): literals keep off by themselves (`patched_literal`), and bodies and
attributes that keep off replace ranges of the first text (`replaceFrom_buffer`,
`patched_attribute`).
-/

namespace Phrasebook

/-- Where a range of the first text is after some edits; nothing if one of them touched it. -/
def Edit.carry? (edits : List Edit) (offset length : Nat) : Option Nat :=
  (Buffer.mk [] edits).locate? offset length

namespace Localize

/-- Whether the characters from `start` up to `stop` of an edited text are characters of the first
text, which had `n`, and have not been touched by the edits. -/
def Untouched (n : Nat) (edits : List Edit) (start stop : Nat) : Prop :=
  ∃ o, o + (stop - start) ≤ n ∧ Edit.carry? edits o (stop - start) = some start

/-- Whether every edit with which a log has grown replaced untouched characters. -/
def GrowsUntouched (n : Nat) (edits grown : List Edit) : Prop :=
  ∀ before e after, grown = edits ++ before ++ e :: after →
    Untouched n (edits ++ before) e.start e.stop

/-- Whether the step on a term from `s` to `s'` keeps off the texts that earlier steps inserted. -/
structure KeepsOff (n : Nat) (s s' : State) (t : Term) : Prop where
  /-- The copies of a body that are replaced have not been touched. -/
  body : t.isBody = true → GrowsUntouched n s.buffer.edits s'.buffer.edits
  /-- The attribute with a literal as its value has not been touched, and its name is there. -/
  binding : t.isBody = false → t.isField = false → ∀ pos name start q,
    s.buffer.locate? t.offset t.span.length = some pos →
    siteOf? s t pos = some (.plainAttribute name start q) →
    s.buffer.holdsAt name start = true ∧ Untouched n s.buffer.edits start (pos + t.span.length)

/-- Whether all steps, up to the first overflow, keep off the texts that earlier ones inserted. -/
def RunKeepsOff (n : Nat) (style : Style) : State → List Term → Prop
  | _, [] => True
  | s, t :: ts =>
    match step style s t with
    | .ok s' => KeepsOff n s s' t ∧ RunKeepsOff n style s' ts
    | .error _ => True

/-- How a patch of the first text replaces a term that comes up in the state `s`. -/
inductive Replaces (text method : Text) (s : State) (t : Term) (p : Patch) : Prop where
  /-- The patch replaces the span of the term, for a body any copy of it. -/
  | span (avoid : Option Quote) :
    Text.slice text p.start p.stop = t.span →
    (t.isBody = false → p.start = t.offset) →
    t.call method avoid <:+: p.text →
    Replaces text method s t p
  /-- The patch replaces a plain attribute from its name to the end of the span, its value. -/
  | binding {name : Text} {pos start : Nat} {q : Quote} {blank : Text} :
    s.buffer.locate? t.offset t.span.length = some pos →
    siteOf? s t pos = some (.plainAttribute name start q) →
    Text.slice text p.start (p.start + name.length) = name →
    p.start + name.length ≤ t.offset →
    p.stop = t.stop →
    p.text = blank ++ ':' :: name ++ '=' :: q.char :: t.call method (some q) ++ [q.char] →
    Replaces text method s t p

/-- Whether the step on a term makes the patches `new` of the first text behind the patches `ps`, so
that the buffer is `b` from then on. -/
structure Makes (text method : Text) (s : State) (t : Term) (ps new : List Patch) (b : Buffer) :
    Prop where
  /-- Each patch replaces the term. -/
  replaces : ∀ p ∈ new, Replaces text method s t p
  /-- The ranges of all patches so far lie in the first text, pairwise apart. -/
  fit : Patch.Fit text.length (ps ++ new)
  /-- The buffer is the one in which all patches so far have been made. -/
  buffer : b = Patch.buffer text (ps ++ new)

/-- The steps on terms, from a state in which the patches `ps` of the first text have been made, up
to the first overflow, each make further patches of the first text; at the end they are `qs`. -/
inductive Patched (text : Text) (style : Style) :
    List Patch → State → List Term → List Patch → Prop where
  | done {ps s} : Patched text style ps s [] ps
  | overflow {ps s t ts o} : step style s t = .error o → Patched text style ps s (t :: ts) ps
  | step {ps new qs s s' t ts} :
    step style s t = .ok s' →
    Makes text style.method s t ps new s'.buffer →
    Patched text style (ps ++ new) s' ts qs →
    Patched text style ps s (t :: ts) qs

variable {text : Text} {style : Style} {o : Term.Options} {s s' : State} {t : Term}
  {ps : List Patch} {pos : Nat}

/-! ## What the replacements hold -/

/-- The replacement of a body holds the call. -/
lemma call_infix_bodyReplacement (t : Term) (call : Text) (dialect : Dialect) :
    call <:+: bodyReplacement t call dialect := by
  have inner : call <:+: interpolated call := ⟨_, _, rfl⟩
  have inside : call <:+: embedded dialect call := by
    cases dialect with
    | markup => exact inner
    | script => exact ⟨['\x7b'], ['\x7d'], rfl⟩
  unfold bodyReplacement
  split
  · rename_i tag attributes _
    dsimp only
    generalize padding _ = pad
    exact inner.trans ⟨'<' :: tag ++ attributes ++ ['>'] ++ pad.1,
      pad.2 ++ "</".toList ++ tag ++ ['>'], by simp only [List.append_assoc]⟩
  · dsimp only
    generalize padding _ = pad
    exact inside.trans ⟨'>' :: pad.1, pad.2 ++ ['<'], by simp only [List.append_assoc]⟩

/-! ## Steps that keep off -/

/-- The untouched ranges of a text with patches are the clear ranges of the first text. -/
lemma untouched_buffer {start stop : Nat} (fit : Patch.Fit text.length ps) (size : start < stop) :
    Untouched text.length (Patch.buffer text ps).edits start stop ↔
      ∃ o, o + (stop - start) ≤ text.length ∧ Patch.Clear ps ⟨o, o + (stop - start)⟩ ∧
        Patch.place text ps o = start := by
  refine exists_congr fun o => and_congr_right fun inside => ?_
  exact Patch.locate?_buffer_eq_some fit (by omega) inside

/-- Splicing at the place of a clear range makes one more patch. -/
lemma splice_buffer {offset n : Nat} (fit : Patch.Fit text.length ps) (size : 0 < n)
    (inside : offset + n ≤ text.length) (clear : Patch.Clear ps ⟨offset, offset + n⟩) (r : Text) :
    let q : Patch := ⟨⟨offset, offset + n⟩, r⟩
    Patch.Fit text.length (ps ++ [q]) ∧
      (Patch.buffer text ps).splice (Patch.place text ps offset)
        (Patch.place text ps offset + n) r = Patch.buffer text (ps ++ [q]) := by
  intro q
  have fit' : Patch.Fit text.length (ps ++ [q]) :=
    fit.snoc (show offset < offset + n by omega) inside clear
  have buffer := Patch.buffer_snoc fit'
  rw [show q.stop - q.start = n from Nat.add_sub_cancel_left ..] at buffer
  exact ⟨fit', buffer.symm⟩

/-- What stands at the place of a clear range is what the first text has there. -/
lemma slice_buffer {offset n : Nat} (inside : offset + n ≤ text.length)
    (clear : Patch.Clear ps ⟨offset, offset + n⟩) :
    Text.slice (Patch.buffer text ps).text (Patch.place text ps offset)
      (Patch.place text ps offset + n) = Text.slice text offset (offset + n) := by
  have slice := Patch.slice_substitute (Nat.le_add_right offset n) inside clear
  rwa [Nat.add_sub_cancel_left] at slice

/-- The first edit with which a log has grown replaced untouched characters. -/
lemma GrowsUntouched.head {n : Nat} {edits es : List Edit} {e : Edit}
    (off : GrowsUntouched n edits (edits ++ [e] ++ es)) : Untouched n edits e.start e.stop := by
  have here := off [] e es (by rw [List.append_nil, List.append_assoc, List.singleton_append])
  rwa [List.append_nil] at here

/-- So did the edits behind the first one. -/
lemma GrowsUntouched.tail {n : Nat} {edits grown : List Edit} (off : GrowsUntouched n edits grown)
    (e : Edit) : GrowsUntouched n (edits ++ [e]) grown := by
  intro before e' after same
  rw [List.append_assoc edits [e] before, List.singleton_append] at same ⊢
  exact off (e :: before) e' after same

lemma edits_replaceFrom (b : Buffer) (span r : Text) (start : Nat) :
    ∃ es, (b.replaceFrom span r start).1.edits = b.edits ++ es := by
  fun_induction Buffer.replaceFrom b span r start with
  | case1 => exact ⟨[], (List.append_nil _).symm⟩
  | case2 => exact ⟨[], (List.append_nil _).symm⟩
  | case3 b start nonempty pos found next ih =>
    obtain ⟨es, rest⟩ := ih
    exact ⟨_, rest.trans (List.append_assoc ..)⟩

/-- Copies of a span that have not been touched make way for as many patches. -/
lemma replaceFrom_buffer {b : Buffer} {span r : Text} {start : Nat} (nonempty : span ≠ [])
    (fit : Patch.Fit text.length ps) (inv : b = Patch.buffer text ps)
    (off : GrowsUntouched text.length b.edits (b.replaceFrom span r start).1.edits) :
    ∃ new, Patch.Fit text.length (ps ++ new) ∧
      (b.replaceFrom span r start).1 = Patch.buffer text (ps ++ new) ∧
      ∀ p ∈ new, Text.slice text p.start p.stop = span ∧ p.text = r := by
  revert ps
  fun_induction Buffer.replaceFrom b span r start with
  | case1 _ _ empty => exact absurd empty nonempty
  | case2 =>
    intro ps fit inv
    refine ⟨[], ?_, ?_, fun _ mem => absurd mem List.not_mem_nil⟩ <;> rwa [List.append_nil]
  | case3 b start _ pos found next ih =>
    intro ps fit inv
    -- the copy found first is a clear range, so its splice is one more patch; then the search goes on
    have size : 0 < span.length := List.length_pos_iff.2 nonempty
    obtain ⟨es, rest⟩ :=
      edits_replaceFrom (b.splice pos (pos + span.length) r) span r (pos + r.length)
    have first : Untouched text.length b.edits pos (pos + span.length) := by
      rw [show (next.1, next.2 + 1).1.edits = _ from rest] at off
      exact off.head
    subst inv
    obtain ⟨o, inside, clear, rfl⟩ := (untouched_buffer fit (by omega)).1 first
    rw [Nat.add_sub_cancel_left] at inside clear
    obtain ⟨fit', buffer⟩ := splice_buffer fit size inside clear r
    have held := List.find?_some found
    simp only [Buffer.holdsAt, Bool.and_eq_true, beq_iff_eq] at held
    have copy : Text.slice text o (o + span.length) = span :=
      (slice_buffer inside clear).symm.trans held.2
    obtain ⟨new, fits, result, copies⟩ := ih (off.tail _) fit' buffer
    refine ⟨⟨⟨o, o + span.length⟩, r⟩ :: new, ?_, ?_, ?_⟩
    · rwa [List.append_cons]
    · rw [List.append_cons]
      exact result
    · intro p mem
      rcases List.mem_cons.1 mem with rfl | mem
      · exact ⟨copy, rfl⟩
      · exact copies p mem

/-- A literal that the log finds again is clear of the patches, and found at its place. -/
lemma clear_of_located (fit : Patch.Fit text.length ps) (inv : s.buffer = Patch.buffer text ps)
    (holds : (Term.sourceOf text style.dialect o).Holds t)
    (located : s.buffer.locate? t.offset t.span.length = some pos) :
    0 < t.span.length ∧ t.offset + t.span.length ≤ text.length ∧ Patch.Clear ps t.range ∧
      Patch.place text ps t.offset = pos := by
  have inside : t.offset + t.span.length ≤ text.length := holds.bounds.2
  have size : 0 < t.span.length := List.length_pos_iff.2 holds.nonempty
  rw [inv] at located
  exact ⟨size, inside, (Patch.locate?_buffer_eq_some fit size inside).1 located⟩

/-- A literal that is found again has not been touched, so it makes way for one more patch. -/
lemma patched_literal (fit : Patch.Fit text.length ps) (inv : s.buffer = Patch.buffer text ps)
    (holds : (Term.sourceOf text style.dialect o).Holds t)
    (located : s.buffer.locate? t.offset t.span.length = some pos) (r : Text) :
    Patch.Fit text.length (ps ++ [⟨t.range, r⟩]) ∧
      s.buffer.splice pos (pos + t.span.length) r = Patch.buffer text (ps ++ [⟨t.range, r⟩]) := by
  obtain ⟨size, inside, clear, rfl⟩ := clear_of_located fit inv holds located
  rw [inv]
  exact splice_buffer fit size inside clear r

/-- An attribute that has not been touched makes way, with the literal that is its value, for one
more patch from its name on. -/
lemma patched_attribute {name : Text} {start : Nat} {q : Quote} (fit : Patch.Fit text.length ps)
    (inv : s.buffer = Patch.buffer text ps) (holds : (Term.sourceOf text style.dialect o).Holds t)
    (plain : t.isField = false) (located : s.buffer.locate? t.offset t.span.length = some pos)
    (site : siteOf? s t pos = some (.plainAttribute name start q))
    (held : s.buffer.holdsAt name start = true)
    (off : Untouched text.length s.buffer.edits start (pos + t.span.length)) (r : Text) :
    ∃ p : Patch, Text.slice text p.start (p.start + name.length) = name ∧
      p.start + name.length ≤ t.offset ∧ p.stop = t.stop ∧ p.text = r ∧
      Patch.Fit text.length (ps ++ [p]) ∧
      s.buffer.splice start (pos + t.span.length) r = Patch.buffer text (ps ++ [p]) := by
  have before : start + name.length < pos := start_of_plainAttribute plain site
  have stop : t.stop = t.offset + t.span.length := rfl
  obtain ⟨size, inside, clear, here⟩ := clear_of_located fit inv holds located
  rw [inv] at held off ⊢
  obtain ⟨a, fits, whole, rfl⟩ := (untouched_buffer fit (by omega)).1 off
  generalize length : pos + t.span.length - Patch.place text ps a = n at fits whole
  -- the literal lies as far behind the name in the first text as it does now
  have there : Patch.place text ps (a + (pos - Patch.place text ps a)) = pos := by
    rw [Patch.place_add (Nat.le_add_right _ _) (by omega)
      (whole.mono (Nat.le_refl a) (by omega))]
    omega
  have same : a + (pos - Patch.place text ps a) = t.offset := by
    apply Patch.place_injective _ _ (by omega) (by omega) (there.trans here.symm)
    · exact whole.mono (by omega) (by omega)
    · exact clear.mono (Nat.le_refl _) (by omega)
  obtain ⟨fit', buffer⟩ := splice_buffer fit (by omega) fits whole r
  rw [show Patch.place text ps a + n = pos + t.span.length by omega] at buffer
  refine ⟨⟨⟨a, a + n⟩, r⟩, ?_, ?_, ?_, rfl, fit', buffer⟩
  · have slice := slice_buffer (show a + name.length ≤ text.length by omega)
      (whole.mono (Nat.le_refl a) (by omega))
    exact slice.symm.trans (beq_iff_eq.1 held)
  · show a + name.length ≤ t.offset
    omega
  · show a + n = t.stop
    omega

lemma makes_nil (fit : Patch.Fit text.length ps) (inv : s.buffer = Patch.buffer text ps)
    {method : Text} : Makes text method s t ps [] s.buffer := by
  refine ⟨nofun, ?_, ?_⟩ <;> rwa [List.append_nil]

/-- A step on a body whose copies have not been touched replaces ranges of the first text. -/
lemma makes_body (fit : Patch.Fit text.length ps) (inv : s.buffer = Patch.buffer text ps)
    (holds : (Term.sourceOf text style.dialect o).Holds t) (body : t.isBody = true)
    (done : step style s t = .ok s')
    (off : GrowsUntouched text.length s.buffer.edits s'.buffer.edits) :
    ∃ new, Makes text style.method s t ps new s'.buffer := by
  rw [step_body body] at done
  split at done
  · cases done
    exact ⟨[], makes_nil fit inv⟩
  · split at done
    · cases done
      exact ⟨[], makes_nil fit inv⟩
    · split at done
      · cases done
      · cases done
        obtain ⟨new, fits, result, copies⟩ := replaceFrom_buffer holds.nonempty fit inv off
        refine ⟨new, fun p mem => ?_, fits, result⟩
        obtain ⟨copy, new⟩ := copies p mem
        refine .span none copy (fun literal => ?_) ?_
        · rw [body] at literal
          cases literal
        · rw [new]
          exact call_infix_bodyReplacement t _ _

/-- An insertion in place of a literal, from the name of an untouched attribute on where there is
one, replaces a range of the first text. -/
lemma makes_insertion {start : Nat} {r : Text} (fit : Patch.Fit text.length ps)
    (inv : s.buffer = Patch.buffer text ps) (holds : (Term.sourceOf text style.dialect o).Holds t)
    (literal : t.isBody = false) (located : s.buffer.locate? t.offset t.span.length = some pos)
    (off : KeepsOff text.length s s' t) (ins : Insertion style.method s t pos start r) :
    ∃ new, Makes text style.method s t ps new (s.buffer.splice start (pos + t.span.length) r) := by
  cases ins with
  | call avoid =>
    obtain ⟨fits, result⟩ := patched_literal fit inv holds located (fieldLabel t ++ t.call _ avoid)
    refine ⟨_, fun p mem => ?_, fits, result⟩
    cases List.mem_singleton.1 mem
    exact .span avoid holds.text (fun _ => rfl) (List.suffix_append _ _).isInfix
  | interpolation =>
    obtain ⟨fits, result⟩ := patched_literal fit inv holds located (interpolated (t.call _ none))
    refine ⟨_, fun p mem => ?_, fits, result⟩
    cases List.mem_singleton.1 mem
    exact .span none holds.text (fun _ => rfl) ⟨_, _, rfl⟩
  | binding plain site =>
    obtain ⟨held, untouched⟩ := off.binding literal plain _ _ _ _ located site
    obtain ⟨p, stands, before, stop, new, fits, result⟩ :=
      patched_attribute fit inv holds plain located site held untouched _
    refine ⟨[p], fun p' mem => ?_, fits, result⟩
    cases List.mem_singleton.1 mem
    exact .binding located site stands before stop new

/-- A step that keeps off replaces ranges of the first text. -/
lemma makes_of_keepsOff (fit : Patch.Fit text.length ps) (inv : s.buffer = Patch.buffer text ps)
    (holds : (Term.sourceOf text style.dialect o).Holds t) (done : step style s t = .ok s')
    (off : KeepsOff text.length s s' t) : ∃ new, Makes text style.method s t ps new s'.buffer := by
  cases kind : t.isBody with
  | true => exact makes_body fit inv holds kind done (off.body kind)
  | false =>
    rcases step_of_literal style s kind with ⟨l, moves⟩ | ⟨pos, start, r, located, -, ins, moves⟩
    · rw [moves] at done
      cases done
      exact ⟨[], makes_nil fit inv⟩
    · rw [moves] at done
      split at done
      · cases done
      · cases done
        exact makes_insertion fit inv holds kind located off ins

/-! ## Steps that make patches -/

/-- The edits of patches that fit behind others replaced untouched characters. -/
lemma growsUntouched_of_fit {new : List Patch} (fit : Patch.Fit text.length (ps ++ new)) :
    GrowsUntouched text.length (Patch.buffer text ps).edits
      (Patch.buffer text (ps ++ new)).edits := by
  intro before e after grown
  rw [Patch.edits_buffer_append, List.append_assoc] at grown
  have log : Patch.logFrom text ps new = before ++ e :: after := List.append_cancel_left grown
  -- the edit belongs to a patch `q`, made when `early` had been made
  obtain ⟨early, q, late, rfl, rfl, rfl⟩ := Patch.logFrom_eq_append log
  have upTo : Patch.Fit text.length (ps ++ early ++ [q]) := by
    rw [← List.append_assoc, List.append_cons] at fit
    exact fit.init
  obtain ⟨size, inside⟩ := upTo.last_bounds
  have start : Patch.place text (ps ++ early) q.start =
      (Patch.editOf text (ps ++ early) q).start := rfl
  have length : (Patch.editOf text (ps ++ early) q).stop -
      (Patch.editOf text (ps ++ early) q).start = q.stop - q.start := Nat.add_sub_cancel_left ..
  have whole : q.start + (q.stop - q.start) = q.stop := by omega
  rw [← Patch.edits_buffer_append]
  refine (untouched_buffer upTo.init (by omega)).2 ⟨q.start, ?_, ?_, start⟩
  · rwa [length, whole]
  · rw [length, whole]
    exact upTo.clear_last

/-- What a buffer with patches finds again is still there. -/
lemma holdsAt_of_located (fit : Patch.Fit text.length ps) (inv : s.buffer = Patch.buffer text ps)
    (holds : (Term.sourceOf text style.dialect o).Holds t)
    (located : s.buffer.locate? t.offset t.span.length = some pos) :
    s.buffer.holdsAt t.span pos = true := by
  obtain ⟨-, inside, clear, rfl⟩ := clear_of_located fit inv holds located
  rw [inv]
  exact beq_iff_eq.2 ((slice_buffer inside clear).trans holds.text)

/-- A step on a literal that makes patches binds an untouched attribute, if any. -/
lemma binding_of_makes {new : List Patch} {name : Text} {start : Nat} {q : Quote}
    (markup : style.dialect = .markup) (fit : Patch.Fit text.length ps)
    (inv : s.buffer = Patch.buffer text ps) (holds : (Term.sourceOf text style.dialect o).Holds t)
    (done : step style s t = .ok s') (makes : Makes text style.method s t ps new s'.buffer)
    (literal : t.isBody = false) (plain : t.isField = false)
    (located : s.buffer.locate? t.offset t.span.length = some pos)
    (site : siteOf? s t pos = some (.plainAttribute name start q)) :
    s.buffer.holdsAt name start = true ∧
      Untouched text.length s.buffer.edits start (pos + t.span.length) := by
  have before : start + name.length < pos := start_of_plainAttribute plain site
  have here := (clear_of_located fit inv holds located).2.2.2
  have held := holdsAt_of_located fit inv holds located
  rw [step_attribute markup literal plain located held site] at done
  split at done
  · cases done
  · cases done
    have grows := growsUntouched_of_fit makes.fit
    rw [← makes.buffer, ← inv] at grows
    -- the one edit of the step is that of the only new patch
    have log := congrArg Buffer.edits makes.buffer
    rw [Patch.edits_buffer_append, ← inv] at log
    cases new with
    | nil => exact absurd (List.append_cancel_left log) (List.cons_ne_nil _ _)
    | cons p rest =>
      obtain ⟨edit, -⟩ := List.cons.inj (List.append_cancel_left log)
      have placed : start = Patch.place text ps p.start := congrArg Edit.start edit
      have upTo : Patch.Fit text.length (ps ++ [p]) := by
        have fits := makes.fit
        rw [List.append_cons] at fits
        exact fits.init
      refine ⟨?_, (show GrowsUntouched _ _ (_ ++ [_] ++ []) by rwa [List.append_nil]).head⟩
      cases makes.replaces p List.mem_cons_self with
      | span avoid copy same _ =>
        -- the name of the attribute stands before the span
        rw [same literal, here] at placed
        omega
      | binding located' site' stands early stop _ =>
        cases located.symm.trans located'
        cases site.symm.trans site'
        have fits : p.start + name.length ≤ p.stop := by
          rw [stop]
          exact Nat.le_trans early (Nat.le_add_right _ _)
        have slice := slice_buffer (Nat.le_trans fits upTo.last_bounds.2)
          (upTo.clear_last.mono (Nat.le_refl _) fits)
        rw [inv, placed]
        exact beq_iff_eq.2 (slice.trans stands)

/-- A step that makes patches of the first text keeps off what was inserted. -/
lemma keepsOff_of_makes {new : List Patch} (markup : style.dialect = .markup)
    (fit : Patch.Fit text.length ps) (inv : s.buffer = Patch.buffer text ps)
    (holds : (Term.sourceOf text style.dialect o).Holds t) (done : step style s t = .ok s')
    (makes : Makes text style.method s t ps new s'.buffer) : KeepsOff text.length s s' t := by
  constructor
  · intro _
    have grows := growsUntouched_of_fit makes.fit
    rwa [← makes.buffer, ← inv] at grows
  · intro literal plain pos name start q located site
    exact binding_of_makes markup fit inv holds done makes literal plain located site

/-! ## Runs -/

/-- All steps make patches of the first text exactly if they keep off what was inserted. -/
lemma patched_iff_runKeepsOff {ts : List Term} (markup : style.dialect = .markup)
    (fit : Patch.Fit text.length ps) (inv : s.buffer = Patch.buffer text ps)
    (holds : ∀ t ∈ ts, (Term.sourceOf text style.dialect o).Holds t) :
    (∃ qs, Patched text style ps s ts qs) ↔ RunKeepsOff text.length style s ts := by
  induction ts generalizing s ps with
  | nil => exact ⟨fun _ => trivial, fun _ => ⟨ps, .done⟩⟩
  | cons t ts ih =>
    have here := holds t List.mem_cons_self
    have rest := fun u mem => holds u (List.mem_cons_of_mem t mem)
    unfold RunKeepsOff
    cases done : step style s t with
    | error o => exact ⟨fun _ => trivial, fun _ => ⟨ps, .overflow done⟩⟩
    | ok s' =>
      constructor
      · rintro ⟨qs, patched⟩
        cases patched with
        | overflow failed => rw [done] at failed; cases failed
        | step done' makes later =>
          cases done.symm.trans done'
          exact ⟨keepsOff_of_makes markup fit inv here done makes,
            (ih makes.fit makes.buffer rest).1 ⟨qs, later⟩⟩
      · rintro ⟨off, later⟩
        obtain ⟨new, makes⟩ := makes_of_keepsOff fit inv here done off
        obtain ⟨qs, patched⟩ := (ih makes.fit makes.buffer rest).2 later
        exact ⟨qs, .step done makes patched⟩

/-- The patches that a run has made in the end fit the first text, and its buffer is theirs. -/
lemma Patched.result {ts : List Term} {qs : List Patch} (patched : Patched text style ps s ts qs)
    (fit : Patch.Fit text.length ps) (inv : s.buffer = Patch.buffer text ps) :
    Patch.Fit text.length qs ∧ (run style s ts).1.buffer = Patch.buffer text qs := by
  induction patched with
  | done => exact ⟨fit, inv⟩
  | overflow failed =>
    rw [run, failed]
    exact ⟨fit, inv⟩
  | step done makes _ ih =>
    rw [run, done]
    exact ih makes.fit makes.buffer

/-- The work on markup replaces pairwise disjoint ranges of the first text, each the span of its
term or the name and value of a plain attribute, so that every call stands whole in the result,
exactly if no copy of a body and no plain attribute that makes way holds what an earlier step
inserted. -/
theorem localize_markup_patched_iff (text method : Text) (registry : Registry)
    (options : Term.Options) :
    let style : Style := ⟨.markup, method⟩
    let terms := Term.extract text .markup options
    let start : State := { buffer := .ofText text, registry }
    let out := (localize style registry text terms).1.buffer.text
    (∃ ps, Patched text style [] start terms ps ∧ Patch.Fit text.length ps ∧
      out = Patch.substitute ps text ∧ ∀ p ∈ ps, p.text <:+: out) ↔
    RunKeepsOff text.length style start terms := by
  intro style terms start out
  have fit : Patch.Fit text.length [] := .nil _
  have inv : start.buffer = Patch.buffer text [] := (Patch.buffer_nil text).symm
  have holds : ∀ t ∈ terms, (Term.sourceOf text .markup options).Holds t :=
    fun t mem => (Term.mem_extract_iff.1 mem).1.holds
  rw [← patched_iff_runKeepsOff rfl fit inv holds]
  refine exists_congr fun ps => ⟨fun parts => parts.1, fun patched => ?_⟩
  obtain ⟨fits, buffer⟩ := patched.result fit inv
  have result : out = Patch.substitute ps text := congrArg Buffer.text buffer
  refine ⟨patched, fits, result, fun p mem => ?_⟩
  rw [result]
  exact Patch.text_infix_substitute fits mem

end Localize

end Phrasebook
