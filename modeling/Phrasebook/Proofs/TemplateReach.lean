import Phrasebook.Proofs.CountedTerms
import Phrasebook.Proofs.Edits
import Phrasebook.Proofs.Soundness
import Phrasebook.Proofs.Wiring

/-!
# How far the markup of a component reaches

The markup of a component ends at the last end tag of a template, wherever that stands. Behind a
template that is closed, a further end tag in the rest of the component, be it in a literal of the
script, draws the rest up to it into the markup (`overrun?`, `template?_ofTemplate`). The work on the
markup keeps what stands behind its reach (`localizeTemplate_ofTemplate`), so the rest of the
component stays as it is exactly if the new markup still ends with what was drawn in. That it does can
be told from the terms: no literal may end in what was drawn in, and no copy of a body (`StaysBefore`,
`spares_run`).
-/

namespace Phrasebook

namespace Text

variable {p t a b : Text} {n : Nat}

lemma findLast?_eq_none_iff : findLast? p t = none ↔ ¬ p <:+: t := by
  induction t with
  | nil =>
    rw [List.infix_nil, findLast?]
    cases p <;> simp
  | cons c cs ih =>
    rw [List.infix_cons_iff, findLast?, ← List.isPrefixOf_iff_prefix]
    split
    · rename_i found
      have later : p <:+: cs := by
        by_contra missing
        rw [ih.2 missing] at found
        cases found
      simp [later]
    · rename_i missing
      simp [ih.1 missing]

/-- What stands before an occurrence does not change which one is the last. -/
lemma findLast?_append (a : Text) (found : findLast? p b = some n) :
    findLast? p (a ++ b) = some (a.length + n) := by
  induction a with
  | nil => rw [List.nil_append, found, List.length_nil, Nat.zero_add]
  | cons c cs ih =>
    rw [List.cons_append, findLast?, ih, List.length_cons]
    dsimp only
    congr 1
    omega

/-- Characters other than the first of a pattern start no occurrence. -/
lemma not_infix_append {d : Char} (other : d ∉ a) (missing : ¬ d :: p <:+: b) :
    ¬ d :: p <:+: a ++ b := by
  induction a with
  | nil => exact missing
  | cons c cs ih =>
    rw [List.cons_append, List.infix_cons_iff, List.cons_prefix_cons]
    rintro (⟨rfl, -⟩ | inside)
    · exact other List.mem_cons_self
    · exact ih (fun mem => other (List.mem_cons_of_mem c mem)) inside

/-- A pattern whose first character does not come back in it is its own last occurrence before a text
without any. -/
lemma findLast?_self_append {d : Char} (opens : p = d :: a) (other : d ∉ a)
    (missing : findLast? p b = none) : findLast? p (p ++ b) = some 0 := by
  subst opens
  have later := findLast?_eq_none_iff.2 (not_infix_append other (findLast?_eq_none_iff.1 missing))
  rw [List.cons_append, findLast?, later]
  exact if_pos (List.isPrefixOf_iff_prefix.2 (List.prefix_append (d :: a) b))

end Text

namespace Edits

variable {rule : EditRule} {t u : Text} {es : List Edit} {i k n : Nat}

/-- If all edits make characters way, a range at the end of a text that none of them touched stays at
the end. -/
lemma suffix_of_carry? (edits : Edits rule t es u)
    (proper : ∀ {v start stop r}, rule v start stop r → start < stop)
    (last : i + n = t.length) (carried : Edit.carry? es i n = some k) :
    k + n = u.length ∧ u.drop k = t.drop i := by
  induction edits generalizing k with
  | nil =>
    cases carried
    exact ⟨last, rfl⟩
  | @snoc u r es start stop _ order inside allowed ih =>
    rw [Edit.carry?_snoc] at carried
    obtain ⟨k', early, late⟩ := Option.bind_eq_some_iff.1 carried
    obtain ⟨size, same⟩ := ih early
    have moved := proper allowed
    unfold Edit.shift? at late
    dsimp only at late
    split at late
    · cases late
      have front : (u.take start ++ r).length = start + r.length := by
        rw [List.length_append, List.length_take]
        omega
      refine ⟨by rw [List.length_append, front, List.length_drop]; omega, ?_⟩
      rw [List.drop_append, List.drop_eq_nil_of_le (by omega), List.nil_append, List.drop_drop, front,
        ← same]
      congr 1
      omega
    · split at late
      · cases late
      · omega

end Edits

namespace Localize

lemma Exchange.proper {method : Text} {terms : List Term} {u r : Text} {start stop : Nat}
    (nonempty : ∀ t ∈ terms, t.span ≠ []) (exchange : Exchange method terms u start stop r) :
    start < stop := by
  have filled : ∀ {t i}, t ∈ terms → Text.slice u i stop = t.span → i < stop := by
    intro t i mem copy
    by_contra late
    apply nonempty t mem
    rw [← copy, Text.slice, Nat.sub_eq_zero_of_le (Nat.le_of_not_lt late), List.take_zero]
  cases exchange with
  | call _ mem copy => exact filled mem copy
  | interpolation mem copy => exact filled mem copy
  | body _ mem _ copy => exact filled mem copy
  | binding mem before _ copy => exact Nat.lt_of_le_of_lt before (filled mem copy)

/-! ## Work that stays before the end of a text -/

/-- Whether a copy of a span can end in a text that stands behind a closing bracket. -/
def CanReach (span r : Text) : Prop :=
  ∃ front before after, front ++ '>' :: r = before ++ span ++ after ∧ after.length < r.length

/-- Whether a term stays before the last part of a text, which starts at `n`: a literal ends there at
the latest, and no copy of a body can end in that part. -/
def StaysBefore (n : Nat) (r : Text) (t : Term) : Prop :=
  if t.isBody then ¬ CanReach t.span r else t.stop ≤ n

/-- Whether the edits of a buffer have spared the last part of a text, which starts at `n`, and a
closing bracket still stands before it. -/
structure Spares (text : Text) (n : Nat) (r : Text) (b : Buffer) : Prop where
  edits : Edits (fun _ _ _ _ => True) text b.edits b.text
  carried : ∃ k, b.locate? n r.length = some k ∧ k + r.length = b.text.length
  bracket : '>' :: r <:+ b.text

variable {style : Style} {s s' : State} {b : Buffer} {t : Term} {ts : List Term} {text r : Text}
  {n : Nat}

/-- A text that holds a span is split by it. -/
lemma split_of_holdsAt {span : Text} {pos : Nat} (held : b.holdsAt span pos = true) :
    b.text = b.text.take pos ++ span ++ b.text.drop (pos + span.length) := by
  have copy : Text.slice b.text pos (pos + span.length) = span := beq_iff_eq.1 held
  conv_lhs => rw [← List.take_append_drop pos b.text,
    Text.drop_eq_slice_append b.text (Nat.le_add_right pos span.length), copy]
  exact (List.append_assoc _ _ _).symm

/-- An edit before the last part spares it, if it puts a closing bracket where it takes one. -/
lemma Spares.splice (spares : Spares text n r b) {start stop : Nat} {new : Text} (order : start ≤ stop)
    (before : stop + r.length ≤ b.text.length)
    (closes : stop + r.length = b.text.length → ∃ front, new = front ++ ['>']) :
    Spares text n r (b.splice start stop new) where
  edits := spares.edits.snoc order (by omega) trivial
  carried := by
    obtain ⟨k, located, last⟩ := spares.carried
    refine ⟨k + start + new.length - stop, ?_, ?_⟩
    · rw [locate?_splice, located]
      exact if_pos (show stop ≤ k by omega)
    · simp only [Buffer.splice, List.length_append, List.length_take, List.length_drop]
      omega
  bracket := by
    obtain ⟨front, whole⟩ := spares.bracket
    have size := congrArg List.length whole
    simp only [List.length_append, List.length_cons] at size
    by_cases early : stop ≤ front.length
    · have kept : b.text.drop stop = front.drop stop ++ '>' :: r := by
        rw [← whole, List.drop_append_of_le_length early]
      refine ⟨b.text.take start ++ new ++ front.drop stop, ?_⟩
      rw [Buffer.splice, kept, List.append_assoc _ _ ('>' :: r)]
    · obtain ⟨ahead, rfl⟩ := closes (by omega)
      have kept : b.text.drop stop = r := by
        rw [← whole, List.append_cons, List.drop_left' (by simp; omega)]
      refine ⟨b.text.take start ++ ahead, ?_⟩
      rw [Buffer.splice, kept]
      simp only [List.append_assoc, List.singleton_append]

/-- Only the span of an element ends in a closing bracket. -/
lemma isBody_of_getLast? {inner : Text} (frames : t.kind.Frames t.span inner)
    (last : t.span.getLast? = some '>') : ∃ tag attributes, t.kind = .elementBody tag attributes := by
  have other : ∀ (front : Text) {c : Char}, (front ++ [c]).getLast? = some '>' → c = '>' := by
    intro front c ends
    rw [List.getLast?_concat] at ends
    exact Option.some.inj ends
  obtain ⟨span, content, kind, offset⟩ := t
  cases frames with
  | elementBody _ _ _ => exact ⟨_, _, rfl⟩
  | doubleQuoted _ => exact absurd (other ('"' :: inner) last) (by decide)
  | singleQuoted _ => exact absurd (other ('\'' :: inner) last) (by decide)
  | backtick _ => exact absurd (other ('\x60' :: inner) last) (by decide)
  | tagBody _ _ => exact absurd (other ('>' :: inner) last) (by decide)
  | field _ _ _ _ _ _ => exact absurd (other _ last) (by decide)

/-- What takes the place of an element ends in a closing bracket. -/
lemma bodyReplacement_closes {tag attributes : Text} (element : t.kind = .elementBody tag attributes)
    (call : Text) (dialect : Dialect) :
    ∃ front, bodyReplacement t call dialect = front ++ ['>'] := by
  rw [bodyReplacement, element]
  exact ⟨_, rfl⟩

/-- A span that is found before the last part ends in a closing bracket, if it ends right there. -/
lemma Spares.getLast? (spares : Spares text n r b) {span : Text} {pos : Nat} (nonempty : span ≠ [])
    (split : b.text = b.text.take pos ++ span ++ b.text.drop (pos + span.length))
    (last : pos + span.length + r.length = b.text.length) : span.getLast? = some '>' := by
  obtain ⟨front, whole⟩ := spares.bracket
  have size : (b.text.drop (pos + span.length)).length = r.length := by
    rw [List.length_drop]
    omega
  rw [List.append_cons] at whole
  have ends := (List.append_inj' (whole.trans split) size.symm).1
  obtain ⟨first, c, rfl⟩ := (List.eq_nil_or_concat span).resolve_left nonempty
  rw [List.concat_eq_append] at ends ⊢
  rw [← List.append_assoc] at ends
  obtain ⟨-, same⟩ := List.append_inj' ends rfl
  rw [List.getLast?_concat, ← (List.cons.inj same).1]

/-- A literal that is found again is found before the last part, if it stood before it. -/
lemma Spares.stop_le (spares : Spares text n r b) (filled : r ≠ []) (nonempty : t.span ≠ [])
    (before : t.stop ≤ n) {pos : Nat} (located : b.locate? t.offset t.span.length = some pos) :
    pos + t.span.length + r.length ≤ b.text.length := by
  obtain ⟨k, there, last⟩ := spares.carried
  have size := List.length_pos_iff.2 nonempty
  have stop : t.stop = t.offset + t.span.length := rfl
  have final := spares.edits.carry?_within (j := t.span.length - 1) (by omega) located
  have first := spares.edits.carry?_within (j := 0) (List.length_pos_iff.2 filled) there
  have order := Edit.lt_of_carry? (by omega) final first
  omega

/-- A step on a term that stays before the last part leaves it alone. -/
lemma spares_step (spares : Spares text n r s.buffer) (filled : r ≠ []) {inner : Text}
    (frames : t.kind.Frames t.span inner) (nonempty : t.span ≠ []) (stays : StaysBefore n r t)
    (done : step style s t = .ok s') : Spares text n r s'.buffer := by
  refine step_induct spares done (fun body b pos spares shows => ?_)
    fun body pos start new located held ins _ => ?_
  · have short : ¬ CanReach t.span r := by rwa [StaysBefore, if_pos body] at stays
    have split := split_of_holdsAt (Buffer.holdsAt_iff.2 shows.1)
    refine spares.splice (Nat.le_add_right _ _) ?_ fun last => ?_
    · obtain ⟨front, whole⟩ := spares.bracket
      by_contra late
      refine short ⟨front, _, _, whole.trans split, ?_⟩
      have inside := shows.inside nonempty
      rw [List.length_drop]
      omega
    · obtain ⟨tag, attributes, element⟩ :=
        isBody_of_getLast? frames (spares.getLast? nonempty split last)
      exact bodyReplacement_closes element _ _
  · have before : t.stop ≤ n := by rwa [StaysBefore, if_neg (by simp [body])] at stays
    have order := (exchange_insertion (List.mem_singleton_self t) held ins).1
    refine spares.splice (by omega) (spares.stop_le filled nonempty before located) fun last => ?_
    -- the literal does not end in a bracket, so it does not end where the last part starts
    obtain ⟨tag, attributes, element⟩ :=
      isBody_of_getLast? frames (spares.getLast? nonempty (split_of_holdsAt held) last)
    rw [Term.isBody, element] at body
    cases body

/-- Terms that stay before the last part of a text leave it alone. -/
lemma spares_run (spares : Spares text n r s.buffer) (filled : r ≠ [])
    (framed : ∀ t ∈ ts, ∃ inner, t.kind.Frames t.span inner) (nonempty : ∀ t ∈ ts, t.span ≠ [])
    (stays : ∀ t ∈ ts, StaysBefore n r t) : Spares text n r (run style s ts).1.buffer := by
  refine run_induct (P := fun s => Spares text n r s.buffer) spares fun mem spares done => ?_
  obtain ⟨inner, frames⟩ := framed _ mem
  exact spares_step spares filled frames (nonempty _ mem) (stays _ mem) done

end Localize

namespace Component

/-- The start tag of a template. -/
def templateStart : Text :=
  "<template>".toList

/-- The end tag of a template. -/
def templateEnd : Text :=
  endTag "template".toList

/-- A component that starts with a template. -/
def ofTemplate (body rest : Text) : Text :=
  templateStart ++ body ++ templateEnd ++ rest

/-- The part of a text before its last end tag of a template, in any case. -/
def overrun? (rest : Text) : Option Text :=
  (Text.findLast? templateEnd (rest.map Prose.foldCase)).map (rest.take ·)

/-- What is taken for the markup of a component that starts with a template. -/
def reach (body rest : Text) : Text :=
  match overrun? rest with
  | none => body
  | some r => body ++ templateEnd ++ r

/-- What stands behind the markup of a component that starts with a template. -/
def behind (rest : Text) : Text :=
  match overrun? rest with
  | none => templateEnd ++ rest
  | some r => rest.drop r.length

variable {body rest r : Text}

lemma overrun?_eq_none_iff :
    overrun? rest = none ↔ ¬ templateEnd <:+: rest.map Prose.foldCase := by
  rw [overrun?, Option.map_eq_none_iff, Text.findLast?_eq_none_iff]

lemma append_of_overrun? (drawn : overrun? rest = some r) : r ++ rest.drop r.length = rest := by
  obtain ⟨n, -, rfl⟩ := Option.map_eq_some_iff.1 drawn
  exact List.prefix_iff_eq_append.1 (List.take_prefix n rest)

lemma ofTemplate_eq (body rest : Text) :
    ofTemplate body rest = templateStart ++ reach body rest ++ behind rest := by
  unfold ofTemplate reach behind
  cases drawn : overrun? rest with
  | none => simp only [List.append_assoc]
  | some r =>
    dsimp only
    nth_rewrite 1 [← append_of_overrun? drawn]
    simp only [List.append_assoc]

lemma startTag?_template (t : Text) :
    startTag? "template".toList (templateStart ++ t) = some (templateStart, t) := by
  have size : (templateStart ++ t).length - t.length = templateStart.length := by
    rw [List.length_append, Nat.add_sub_cancel]
  have read : startTag? "template".toList (templateStart ++ t) =
      some ((templateStart ++ t).take ((templateStart ++ t).length - t.length), t) := rfl
  rw [read, size, List.take_left]

lemma outermostFrom_of_startTag? {name t tag rest : Text} {pos : Nat}
    (opens : startTag? name t = some (tag, rest)) :
    outermostFrom name pos t =
      (Text.findLast? (endTag name) (rest.map Prose.foldCase)).map fun n =>
        ⟨pos + tag.length, tag, rest.take n⟩ := by
  cases t with
  | nil => simp [startTag?, afterFolded?] at opens
  | cons c cs => rw [outermostFrom, opens]

/-- The last end tag behind a start tag closes the template, unless there is one in the rest. -/
lemma exists_findLast?_templateEnd (body rest : Text) :
    ∃ n, Text.findLast? templateEnd ((body ++ templateEnd ++ rest).map Prose.foldCase) = some n ∧
      (body ++ templateEnd ++ rest).take n = reach body rest := by
  have opener : templateEnd = '<' :: "/template>".toList := by decide
  have folded : templateEnd.map Prose.foldCase = templateEnd := by decide
  unfold reach overrun?
  cases last : Text.findLast? templateEnd (rest.map Prose.foldCase) with
  | none =>
    have closes := Text.findLast?_append (body.map Prose.foldCase)
      (Text.findLast?_self_append opener (by decide) last)
    refine ⟨body.length, ?_, ?_⟩
    · rw [List.append_assoc, List.map_append, List.map_append, folded, closes, List.length_map,
        Nat.add_zero]
    · rw [List.append_assoc, List.take_left]
      rfl
  | some n =>
    have closes := Text.findLast?_append ((body ++ templateEnd).map Prose.foldCase) last
    refine ⟨(body ++ templateEnd).length + n, ?_, ?_⟩
    · rw [List.map_append, closes, List.length_map]
    · rw [List.take_length_add_append]
      rfl

/-- The markup of a component that starts with a template goes up to the last end tag. -/
lemma template?_ofTemplate (body rest : Text) :
    template? (ofTemplate body rest) =
      some ⟨templateStart.length, templateStart, reach body rest⟩ := by
  obtain ⟨n, last, whole⟩ := exists_findLast?_templateEnd body rest
  have split : ofTemplate body rest = templateStart ++ (body ++ templateEnd ++ rest) := by
    simp only [ofTemplate, List.append_assoc]
  rw [split, template?, outermostFrom_of_startTag? (startTag?_template _), ← templateEnd, last,
    Option.map_some, whole, Nat.zero_add]

lemma withBody_ofTemplate (body rest new : Text) :
    withBody (ofTemplate body rest) ⟨templateStart.length, templateStart, reach body rest⟩ new =
      templateStart ++ new ++ behind rest := by
  rw [withBody, ofTemplate_eq]
  dsimp only
  rw [← List.length_append, List.drop_left, List.append_assoc templateStart, List.take_left]

/-- The rest of a component stays behind new markup exactly if this ends with what was drawn in. -/
lemma suffix_behind_iff (front rest : Text) :
    rest <:+ front ++ behind rest ↔ ∀ r, overrun? rest = some r → r <:+ front := by
  unfold behind
  cases drawn : overrun? rest with
  | none =>
    dsimp only
    refine iff_of_true ?_ fun r same => ?_
    · rw [← List.append_assoc]
      exact List.suffix_append _ rest
    · cases same
  | some r =>
    dsimp only
    nth_rewrite 1 [← append_of_overrun? drawn]
    rw [List.suffix_append_inj_of_length_eq rfl]
    constructor
    · rintro ⟨ends, -⟩ r' same
      rwa [← Option.some.inj same]
    · intro ends
      exact ⟨ends r rfl, rfl⟩

end Component

namespace Source

open Component

/-- The work on what is taken for the markup of a component that starts with a template. -/
def markupRun (c : Config) (registry : Registry) (body rest : Text) :
    Localize.State × Option Template.Overflow :=
  Localize.localize ⟨.markup, c.vue.templateMethod⟩ registry (reach body rest)
    (Term.extract (reach body rest) .markup (scanOptions c false))

variable {c : Config} {registry : Registry} {body rest r u : Text}

lemma localizeComponent_markup (c : Config) (parts : Parts) (registry : Registry) (text : Text) :
    localizeComponent c { parts with script := false } registry text =
      if parts.template then localizeTemplate c ⟨text, 0, registry, []⟩
      else .ok ⟨text, 0, registry, []⟩ := by
  unfold localizeComponent
  cases parts.template
  · rfl
  · exact bind_pure _

lemma markupRun_idle (c : Config) (registry : Registry) (body rest : Text)
    (idle : (markupRun c registry body rest).1.replaced = 0) :
    (markupRun c registry body rest).1.buffer.text = reach body rest := by
  have nonempty : ∀ t ∈ Term.extract (reach body rest) .markup (scanOptions c false), t.span ≠ [] :=
    fun _ => Term.span_ne_nil_of_mem_extract
  have accounts := (Localize.accounts_run ⟨.markup, c.vue.templateMethod⟩
    { buffer := .ofText (reach body rest), registry := registry } nonempty).1
  have zero := accounts.replaced.symm.trans idle
  rw [Nat.zero_add] at zero
  exact congrArg Buffer.text (accounts.eq_of_zero zero).1

/-- The work on the markup fails, or puts the new markup before what stands behind its reach. -/
lemma localizeTemplate_ofTemplate :
    (∃ p, localizeTemplate c ⟨ofTemplate body rest, 0, registry, []⟩ = .ok p ∧ p.text = u) ↔
      (markupRun c registry body rest).2 = none ∧
        templateStart ++ (markupRun c registry body rest).1.buffer.text ++ behind rest = u := by
  have still := markupRun_idle c registry body rest
  have work : localizeTemplate c ⟨ofTemplate body rest, 0, registry, []⟩ =
      localizeBlock ⟨.markup, c.vue.templateMethod⟩
        (Term.extract (reach body rest) .markup (scanOptions c false)) id
        ⟨templateStart.length, templateStart, reach body rest⟩
        ⟨ofTemplate body rest, 0, registry, []⟩ := by
    unfold localizeTemplate
    rw [template?_ofTemplate]
    rfl
  have text : ∀ {s : Localize.State}, (s.replaced = 0 → s.buffer.text = reach body rest) →
      (if s.replaced = 0 then ofTemplate body rest
        else withBody (ofTemplate body rest) ⟨templateStart.length, templateStart, reach body rest⟩
          s.buffer.text) = templateStart ++ s.buffer.text ++ behind rest := by
    intro s still
    split
    · rename_i idle
      rw [ofTemplate_eq, still idle]
    · exact withBody_ofTemplate body rest _
  rw [work, localizeBlock]
  dsimp only [id]
  rw [← markupRun]
  generalize markupRun c registry body rest = done at still ⊢
  obtain ⟨s, _ | o⟩ := done
  · simp [text still]
  · simp

/-- What was drawn into the markup and not touched there is still at its end. -/
lemma suffix_markupRun (drawn : overrun? rest = some r)
    (untouched : ((markupRun c registry body rest).1.buffer.locate?
      (body ++ templateEnd).length r.length).isSome) :
    r <:+ (markupRun c registry body rest).1.buffer.text := by
  have edits := Localize.edits_localize ⟨.markup, c.vue.templateMethod⟩ registry (reach body rest)
    .markup (scanOptions c false)
  have whole : reach body rest = body ++ templateEnd ++ r := by rw [reach, drawn]
  obtain ⟨k, carried⟩ := Option.isSome_iff_exists.1 untouched
  have size : (body ++ templateEnd).length + r.length = (reach body rest).length := by
    rw [whole, ← List.length_append]
  have kept := (edits.suffix_of_carry?
    (fun exchange => exchange.proper fun _ => Term.span_ne_nil_of_mem_extract) size carried).2
  have last : (reach body rest).drop (body ++ templateEnd).length = r := by
    rw [whole, List.drop_left]
  rw [← last, ← kept]
  exact List.drop_suffix k _

/-- What was drawn into the markup is still at its end, if all terms of the markup stay before it. -/
lemma suffix_markupRun_of_stays (drawn : overrun? rest = some r)
    (stays : ∀ t ∈ Term.extract (reach body rest) .markup (scanOptions c false),
      Localize.StaysBefore (body ++ templateEnd).length r t) :
    r <:+ (markupRun c registry body rest).1.buffer.text := by
  rcases eq_or_ne r [] with rfl | filled
  · exact List.nil_suffix
  · have whole : reach body rest = body ++ templateEnd ++ r := by rw [reach, drawn]
    have closing : templateEnd = "</template".toList ++ ['>'] := by decide
    have start : Localize.Spares (reach body rest) (body ++ templateEnd).length r
        (.ofText (reach body rest)) := by
      refine ⟨.nil _, ⟨_, rfl, ?_⟩, body ++ "</template".toList, ?_⟩
      · show _ = (reach body rest).length
        rw [whole]
        exact List.length_append.symm
      · show _ = reach body rest
        rw [whole, closing]
        simp only [List.append_assoc, List.singleton_append]
    have spared : Localize.Spares (reach body rest) (body ++ templateEnd).length r
        (markupRun c registry body rest).1.buffer := Localize.spares_run start filled
      (fun t mem => (Term.mem_extract_iff.1 mem).1.framed.imp fun _ => And.left)
      (fun t => Term.span_ne_nil_of_mem_extract) stays
    exact (List.suffix_cons _ _).trans spared.bracket

/-- The work on the markup alone keeps the rest of a component exactly if it does not fail and the
new markup still ends with what was drawn into it. Nothing is drawn in if no end tag of a template
stands in the rest, in any case. What is drawn in is kept if no term of the markup reaches into it: each
literal ends before it, and no copy of a body can end in it. What no edit touched is kept too. -/
theorem template_pass_keeps_rest_iff (c : Config) (parts : Parts) (registry : Registry)
    (body rest : Text) :
    ((∃ p, localizeComponent c { parts with script := false } registry (ofTemplate body rest) = .ok p ∧
        rest <:+ p.text) ↔
      (parts.template = true → (markupRun c registry body rest).2 = none ∧
        ∀ r, overrun? rest = some r →
          r <:+ templateStart ++ (markupRun c registry body rest).1.buffer.text)) ∧
    (overrun? rest = none ↔ ¬ templateEnd <:+: rest.map Prose.foldCase) ∧
    (∀ r, overrun? rest = some r →
      ((markupRun c registry body rest).1.buffer.locate?
        (body ++ templateEnd).length r.length).isSome →
      r <:+ (markupRun c registry body rest).1.buffer.text) ∧
    ∀ r, overrun? rest = some r →
      (∀ t ∈ Term.extract (body ++ templateEnd ++ r) .markup (scanOptions c false),
        Localize.StaysBefore (body ++ templateEnd).length r t) →
      r <:+ (markupRun c registry body rest).1.buffer.text := by
  refine ⟨?_, overrun?_eq_none_iff, fun r => suffix_markupRun, fun r drawn stays => ?_⟩
  case refine_2 =>
    have whole : reach body rest = body ++ templateEnd ++ r := by rw [reach, drawn]
    rw [← whole] at stays
    exact suffix_markupRun_of_stays drawn stays
  rw [localizeComponent_markup]
  cases parts.template with
  | false =>
    refine iff_of_true ⟨_, rfl, List.suffix_append _ rest⟩ fun on => ?_
    cases on
  | true =>
    rw [← suffix_behind_iff]
    constructor
    · rintro ⟨p, done, ends⟩ -
      obtain ⟨fits, text⟩ := localizeTemplate_ofTemplate.1 ⟨p, done, rfl⟩
      exact ⟨fits, text ▸ ends⟩
    · intro kept
      obtain ⟨fits, ends⟩ := kept rfl
      obtain ⟨p, done, text⟩ := localizeTemplate_ofTemplate.2 ⟨fits, rfl⟩
      exact ⟨p, done, text ▸ ends⟩

/-- An end tag in a literal of the script: the rest holds a script and no start tag of a template, and
yet the work on the markup does not keep it. -/
theorem template_pass_edits_script :
    let body := "<p>a</p>".toList
    let rest := "<script>const a = '中', b = '</template>'</script>".toList
    (script? rest).isSome = true ∧ ¬ "<template".toList <:+: rest ∧
      ¬ ∃ p, localizeComponent default { script := false } .empty (ofTemplate body rest) = .ok p ∧
        rest <:+ p.text := by
  intro body rest
  refine ⟨by decide +kernel, by decide +kernel, fun kept => ?_⟩
  have ends := (template_pass_keeps_rest_iff default {} .empty body rest).1.1 kept
  exact absurd ((ends rfl).2 "<script>const a = '中', b = '".toList (by decide +kernel))
    (by decide +kernel)

end Source

end Phrasebook
