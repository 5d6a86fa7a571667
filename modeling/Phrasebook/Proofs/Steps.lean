import Phrasebook.Proofs.Assignments
import Phrasebook.Proofs.Calls
import Phrasebook.Proofs.Extraction
import Phrasebook.Proofs.Sweeps

/-!
# What one step does

A step on a literal that is found again leaves the text alone or puts one text in its place. Where
the new text starts and how the call stands in it is said by `Insertion`; whether there is one at
all, by `takesCallAt`. A step on a body replaces its copies, unless its span came up before. The
lemmas `step_literal` and `step_body` say all that a step can do, so that what a run keeps can be
proved without another look at the steps.
-/

namespace Phrasebook

namespace Buffer

variable {b : Buffer} {span : Text} {pos : Nat}

/-- What shows at a place is there, and in the blanked copy. -/
lemma Shows.slices (shows : b.Shows span pos) :
    Text.slice b.text pos (pos + span.length) = span ∧
      Text.slice b.masked pos (pos + span.length) = span := by
  rw [Text.slice, Text.slice, Nat.add_sub_cancel_left]
  exact ⟨(List.prefix_iff_eq_take.1 shows.1).symm, (List.prefix_iff_eq_take.1 shows.2).symm⟩

lemma Shows.inside (shows : b.Shows span pos) (nonempty : span ≠ []) :
    pos + span.length ≤ b.text.length := by
  have length := shows.1.length_le
  have filled := List.length_pos_iff.2 nonempty
  rw [List.length_drop] at length
  omega

/-- What every replacement of a copy keeps, the replacement of all copies keeps. -/
lemma replaceFrom_induct {P : Buffer → Prop} {r : Text} (start : Nat) (base : P b)
    (copy : ∀ {b pos}, P b → b.Shows span pos → P (b.splice pos (pos + span.length) r)) :
    P (b.replaceFrom span r start).1 := by
  fun_induction Buffer.replaceFrom b span r start with
  | case1 => exact base
  | case2 => exact base
  | case3 b start nonempty pos found next ih =>
    exact ih (copy base ((findFrom?_eq_some_iff nonempty).1 found).1.2)

end Buffer

namespace Localize

variable {style : Style} {s s' : State} {t : Term} {pos : Nat}

/-- Whether a literal found again at `pos` gets a call: in a script always, in markup unless it has
no place for one. -/
def takesCallAt (dialect : Dialect) (s : State) (t : Term) (pos : Nat) : Bool :=
  match dialect with
  | .script => true
  | .markup =>
    match siteOf? s t pos with
    | none => false
    | some (.plainAttribute ..) | some .body => !t.isField
    | some _ => true

/-- What takes the place of a literal found again at `pos`, and where it starts. -/
inductive Insertion (method : Text) (s : State) (t : Term) (pos : Nat) : Nat → Text → Prop where
  /-- The call takes the place of the span, or of a field's value. -/
  | call (avoid : Option Quote) :
    Insertion method s t pos pos (fieldLabel t ++ t.call method avoid)
  /-- The call stands in double braces. -/
  | interpolation :
    Insertion method s t pos pos (interpolated (t.call method none))
  /-- The call is the value of an attribute, which is bound from now on. -/
  | binding {name : Text} {start : Nat} {q : Quote} :
    t.isField = false → siteOf? s t pos = some (.plainAttribute name start q) →
    Insertion method s t pos start (separator s.buffer.text start ++ ':' :: name ++
      '=' :: q.char :: t.call method (some q) ++ [q.char])

/-- The attribute in whose equals sign a text ends lies in the text. -/
lemma bounds_of_attributeTail? {u : Text} {h : Hit Text} (tail : Markup.attributeTail? u = some h) :
    h.start + h.value.length < u.length := by
  obtain ⟨outer, assigns, start, -⟩ := Markup.attributeTail?_eq_some_iff.1 tail
  obtain ⟨gap, value, rfl, -⟩ := assigns.split
  simp only [start, List.length_append, List.length_cons]
  omega

/-- The attribute that a literal gives its value ends the text before the literal. -/
lemma attributeTail?_of_site? {name : Text} {start : Nat} {q : Quote} (literal : t.isField = false)
    (site : siteOf? s t pos = some (.plainAttribute name start q)) :
    ∃ h, Markup.attributeTail? (s.buffer.masked.take pos) = some h ∧ h.value = name ∧
      h.start = start := by
  have direct : siteOf? s t pos = Markup.site? s.buffer.masked pos t.span := by
    unfold siteOf?
    split
    · rename_i kind
      simp [Term.isField, kind] at literal
    · rfl
  obtain ⟨-, -, plain⟩ := Markup.site?_plainAttribute_iff.1 (direct.symm.trans site)
  unfold Markup.plainAttribute? at plain
  split at plain
  · rename_i h _ tail
    split at plain
    · cases plain
    · cases plain
      exact ⟨h, tail, rfl, rfl⟩
  · cases plain

/-- The name of the attribute that a literal gives its value stands before the literal. -/
lemma start_of_plainAttribute {name : Text} {start : Nat} {q : Quote} (literal : t.isField = false)
    (site : siteOf? s t pos = some (.plainAttribute name start q)) : start + name.length < pos := by
  obtain ⟨h, tail, rfl, rfl⟩ := attributeTail?_of_site? literal site
  have bounds := bounds_of_attributeTail? tail
  rw [List.length_take] at bounds
  omega

/-- A step on a literal of markup, by the place that the literal stands in. -/
lemma stepMarkup_cases (style : Style) (s : State) (t : Term) (pos : Nat) :
    (takesCallAt .markup s t pos = false ∧
      ∃ l, stepMarkup style s t pos = .ok { s with leftAlone := l }) ∨
    (takesCallAt .markup s t pos = true ∧
      ∃ start text, Insertion style.method s t pos start text ∧
        stepMarkup style s t pos = if t.overflows then .error t.overflow
          else .ok (s.place t.key start (pos + t.span.length) text)) := by
  unfold takesCallAt stepMarkup
  cases place : siteOf? s t pos with
  | none => exact .inl ⟨rfl, _, rfl⟩
  | some site =>
    simp only [callOf_eq]
    cases site with
    | plainAttribute name start q =>
      cases kind : t.kind with
      | field _ => exact .inl ⟨by simp [Term.isField, kind], _, rfl⟩
      | _ =>
        have literal : t.isField = false := by simp [Term.isField, kind]
        refine .inr ⟨by simp [literal], _, _, .binding literal place, ?_⟩
        cases t.overflows <;> rfl
    | body =>
      cases kind : t.kind with
      | field _ => exact .inl ⟨by simp [Term.isField, kind], _, rfl⟩
      | _ =>
        have literal : t.isField = false := by simp [Term.isField, kind]
        refine .inr ⟨by simp [literal], _, _, .interpolation, ?_⟩
        cases t.overflows <;> rfl
    | boundAttribute name start q =>
      refine .inr ⟨rfl, _, _, .call (some q), ?_⟩
      cases t.overflows <;> rfl
    | interpolation =>
      refine .inr ⟨rfl, _, _, .call none, ?_⟩
      cases t.overflows <;> rfl
    | bindingExpression name start q =>
      refine .inr ⟨rfl, _, _, .call (some q), ?_⟩
      cases t.overflows <;> rfl

/-- A literal that is not found again is passed over. -/
lemma step_of_lost (style : Style) (literal : t.isBody = false)
    (lost : ∀ pos, s.buffer.locate? t.offset t.span.length = some pos →
      s.buffer.holdsAt t.span pos = false) : step style s t = .ok s := by
  unfold step
  rw [literal, if_neg Bool.false_ne_true]
  cases located : s.buffer.locate? t.offset t.span.length with
  | none => rfl
  | some pos => simp [lost pos located]

/-- A literal that is found again is left alone or makes way for an insertion. -/
lemma step_literal (style : Style) (literal : t.isBody = false)
    (located : s.buffer.locate? t.offset t.span.length = some pos)
    (held : s.buffer.holdsAt t.span pos = true) :
    (takesCallAt style.dialect s t pos = false ∧
      ∃ l, step style s t = .ok { s with leftAlone := l }) ∨
    (takesCallAt style.dialect s t pos = true ∧
      ∃ start text, Insertion style.method s t pos start text ∧
        step style s t = if t.overflows then .error t.overflow
          else .ok (s.place t.key start (pos + t.span.length) text)) := by
  cases dialect : style.dialect with
  | markup =>
    have found : step style s t = stepMarkup style s t pos := by
      unfold step
      simp only [literal, located, held, dialect, Bool.not_true, Bool.false_eq_true, if_false]
    rw [found]
    exact stepMarkup_cases style s t pos
  | script =>
    have found : step style s t = stepScript style s t pos := by
      unfold step
      simp only [literal, located, held, dialect, Bool.not_true, Bool.false_eq_true, if_false]
    rw [found]
    refine .inr ⟨rfl, _, _, .call none, ?_⟩
    simp only [stepScript, callOf_eq]
    cases t.overflows <;> rfl

/-- A step on a literal leaves the buffer alone or makes one insertion. -/
lemma step_of_literal (style : Style) (s : State) (literal : t.isBody = false) :
    (∃ l, step style s t = .ok { s with leftAlone := l }) ∨
      ∃ pos start text, s.buffer.locate? t.offset t.span.length = some pos ∧
        s.buffer.holdsAt t.span pos = true ∧ Insertion style.method s t pos start text ∧
        step style s t = if t.overflows then .error t.overflow
          else .ok (s.place t.key start (pos + t.span.length) text) := by
  by_cases found : ∃ pos, s.buffer.locate? t.offset t.span.length = some pos ∧
      s.buffer.holdsAt t.span pos = true
  · obtain ⟨pos, located, held⟩ := found
    rcases step_literal style literal located held with ⟨-, idle⟩ | ⟨-, start, text, ins, moves⟩
    · exact .inl idle
    · exact .inr ⟨pos, start, text, located, held, ins, moves⟩
  · refine .inl ⟨s.leftAlone, step_of_lost style literal fun pos located => ?_⟩
    exact Bool.eq_false_iff.2 fun held => found ⟨pos, located, held⟩

/-- A literal of a script makes way for its call wherever it is found again. -/
lemma step_script (method : Text) (s : State) (literal : t.isBody = false) :
    step ⟨.script, method⟩ s t = .ok s ∨
      ∃ pos, s.buffer.locate? t.offset t.span.length = some pos ∧
        s.buffer.holdsAt t.span pos = true ∧
        step ⟨.script, method⟩ s t = if t.overflows then .error t.overflow
          else .ok (s.place t.key pos (pos + t.span.length)
            (fieldLabel t ++ t.call method none)) := by
  by_cases found : ∃ pos, s.buffer.locate? t.offset t.span.length = some pos ∧
      s.buffer.holdsAt t.span pos = true
  · obtain ⟨pos, located, held⟩ := found
    refine .inr ⟨pos, located, held, ?_⟩
    unfold step
    simp only [literal, located, held, Bool.not_true, Bool.false_eq_true, if_false, stepScript,
      callOf_eq]
    cases t.overflows <;> rfl
  · refine .inl (step_of_lost _ literal fun pos located => ?_)
    exact Bool.eq_false_iff.2 fun held => found ⟨pos, located, held⟩

/-- A literal of markup that is the value of a plain attribute makes way together with its name. -/
lemma step_attribute {name : Text} {start : Nat} {q : Quote} (markup : style.dialect = .markup)
    (literal : t.isBody = false) (plain : t.isField = false)
    (located : s.buffer.locate? t.offset t.span.length = some pos)
    (held : s.buffer.holdsAt t.span pos = true)
    (site : siteOf? s t pos = some (.plainAttribute name start q)) :
    step style s t = if t.overflows then .error t.overflow
      else .ok (s.place t.key start (pos + t.span.length) (separator s.buffer.text start ++
        ':' :: name ++ '=' :: q.char :: t.call style.method (some q) ++ [q.char])) := by
  unfold step
  simp only [literal, located, held, markup, Bool.not_true, Bool.false_eq_true, if_false]
  unfold stepMarkup
  simp only [site, callOf_eq]
  cases kind : t.kind with
  | field _ => simp [Term.isField, kind] at plain
  | _ => cases t.overflows <;> rfl

/-- The step on a body: it counts once, its copies make way, and its span comes up no more. -/
lemma step_body (body : t.isBody = true) :
    step style s t =
      if s.seen.contains t.span then .ok s
      else if (s.buffer.findFrom? t.span 0).isNone then .ok { s with seen := t.span :: s.seen }
      else if t.overflows then .error t.overflow
      else
        let copies := s.buffer.replaceEverywhere t.span
          (bodyReplacement t (t.call style.method none) style.dialect)
        .ok { s.register t.key with
          seen := t.span :: s.seen
          buffer := copies.1
          replaced := if copies.2 = 0 then s.replaced else s.replaced + 1 } := by
  unfold step stepBody
  rw [if_pos body]
  simp only [callOf_eq]
  cases t.overflows <;> rfl

/-- Whatever a step does, it registers the key of its term or nothing. -/
lemma registry_step (done : step style s t = .ok s') :
    s'.registry = s.registry ∨ s'.registry = s.registry.register t.key t.key := by
  cases body : t.isBody with
  | true =>
    rw [step_body body] at done
    split at done
    · cases done
      exact .inl rfl
    · split at done
      · cases done
        exact .inl rfl
      · split at done
        · cases done
        · cases done
          exact .inr rfl
  | false =>
    rcases step_of_literal style s body with ⟨l, moves⟩ | ⟨pos, start, r, -, -, -, moves⟩
    · rw [moves] at done
      cases done
      exact .inl rfl
    · rw [moves] at done
      split at done
      · cases done
      · cases done
        exact .inr rfl

/-- What every replacement of a copy of a body and every insertion keep, a step keeps. -/
lemma step_induct {P : Buffer → Prop} (base : P s.buffer) (done : step style s t = .ok s')
    (copy : t.isBody = true → ∀ {b pos}, P b → b.Shows t.span pos →
      P (b.splice pos (pos + t.span.length)
        (bodyReplacement t (t.call style.method none) style.dialect)))
    (insertion : t.isBody = false → ∀ {pos start r},
      s.buffer.locate? t.offset t.span.length = some pos → s.buffer.holdsAt t.span pos = true →
      Insertion style.method s t pos start r →
      (style.dialect = .script → start = pos ∧ r = fieldLabel t ++ t.call style.method none) →
      P (s.buffer.splice start (pos + t.span.length) r)) : P s'.buffer := by
  cases body : t.isBody with
  | true =>
    rw [step_body body] at done
    split at done
    · cases done
      exact base
    · split at done
      · cases done
        exact base
      · split at done
        · cases done
        · cases done
          exact Buffer.replaceFrom_induct 0 base (copy body)
  | false =>
    cases dialect : style.dialect with
    | script =>
      obtain ⟨_, method⟩ := style
      obtain rfl : _ = Dialect.script := dialect
      rcases step_script method s body with idle | ⟨pos, located, held, moves⟩
      · rw [idle] at done
        cases done
        exact base
      · rw [moves] at done
        split at done
        · cases done
        · cases done
          exact insertion body located held (.call none) fun _ => ⟨rfl, rfl⟩
    | markup =>
      rcases step_of_literal style s body with ⟨l, moves⟩ | ⟨pos, start, r, located, held, ins, moves⟩
      · rw [moves] at done
        cases done
        exact base
      · rw [moves] at done
        split at done
        · cases done
        · cases done
          refine insertion body located held ins fun script => ?_
          rw [dialect] at script
          cases script

/-- What every step keeps, a run keeps. -/
lemma run_induct {P : State → Prop} {ts : List Term} (base : P s)
    (kept : ∀ {s s' t}, t ∈ ts → P s → step style s t = .ok s' → P s') : P (run style s ts).1 := by
  induction ts generalizing s with
  | nil => exact base
  | cons t ts ih =>
    unfold run
    cases done : step style s t with
    | error o => exact base
    | ok s' =>
      exact ih (kept List.mem_cons_self base done) fun later => kept (List.mem_cons_of_mem t later)

end Localize

end Phrasebook
