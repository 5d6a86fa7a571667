import Phrasebook.Proofs.Frames

/-!
# What every term promises

Each scanner has its own order of tests, but all of them ask for the same things in the end. `Sound`
lists these: where a term stands, how its phrase comes from the text in its frame, what that text may
look like, and that no lookup call opens in the term or right before it. `extract_sound` says that no
scanner leaves one of them out.

What a lookup call is, is said without the scan for it (`Lookup.Opening`, with `holdsCall_iff` and
`endsInCall_iff`).
-/

namespace Phrasebook

namespace Lookup

/-- A text in which a lookup call opens: a known name, behind neither a word character nor a dollar
sign, then white space and a parenthesis. -/
structure Opening (names : List Text) (t before name blanks rest : Text) : Prop where
  split : t = before ++ (name ++ (blanks ++ '(' :: rest))
  known : name ∈ knownNames names
  boundary : ∀ c, before.getLast? = some c → isAsciiWord c = false ∧ c ≠ '$'
  blank : ∀ c ∈ blanks, isAsciiBlank c = true

variable {names : List Text} {name t rest : Text}

lemma callRest?_eq_some_iff :
    callRest? name t = some rest ↔
      ∃ blanks, t = name ++ (blanks ++ '(' :: rest) ∧ ∀ c ∈ blanks, isAsciiBlank c = true := by
  constructor
  · intro found
    unfold callRest? at found
    split at found
    · rename_i r front
      cases found
      obtain ⟨tail, behind, dropped⟩ := Option.map_eq_some_iff.1 front
      refine ⟨tail.takeWhile isAsciiBlank, ?_, fun c mem => List.mem_takeWhile_imp mem⟩
      rw [← Text.eq_append_of_dropWhile dropped]
      exact Text.eq_append_of_after? behind
    · cases found
  · rintro ⟨blanks, rfl, blank⟩
    have behind : Text.after? name (name ++ (blanks ++ '(' :: rest)) =
        some (blanks ++ '(' :: rest) := by
      rw [Text.after?, if_pos (List.isPrefixOf_iff_prefix.2 (List.prefix_append _ _)),
        List.drop_left]
    have dropped : (blanks ++ '(' :: rest).dropWhile isAsciiBlank = '(' :: rest := by
      rw [List.dropWhile_append_of_pos blank]
      rfl
    rw [callRest?, behind, Option.map_some, dropped]
    rfl

lemma mayStart_iff {prev : Option Char} :
    mayStart prev = true ↔ ∀ c, prev = some c → isAsciiWord c = false ∧ c ≠ '$' := by
  cases prev with
  | none => simp [mayStart]
  | some d => simp [mayStart]

/-- A place where the call of a known name opens and what follows it passes a test. -/
lemma fitsSomewhere_call_iff {test : Text → Bool} :
    Text.fitsSomewhere (fun prev rest => mayStart prev && (knownNames names).any fun name =>
        (callRest? name rest).any test) t = true ↔
      ∃ before name blanks rest, Opening names t before name blanks rest ∧ test rest = true := by
  unfold Text.fitsSomewhere
  rw [Text.fitsFrom_iff]
  constructor
  · rintro ⟨before, behind, rfl, fits⟩
    rw [Option.or_none, Bool.and_eq_true, List.any_eq_true] at fits
    obtain ⟨boundary, name, known, call⟩ := fits
    obtain ⟨rest, opens, passes⟩ := (Option.any_eq_true ..).1 call
    obtain ⟨blanks, rfl, blank⟩ := callRest?_eq_some_iff.1 opens
    exact ⟨before, name, blanks, rest, ⟨rfl, known, mayStart_iff.1 boundary, blank⟩, passes⟩
  · rintro ⟨before, name, blanks, rest, opening, passes⟩
    refine ⟨before, _, opening.split, ?_⟩
    rw [Option.or_none, Bool.and_eq_true, List.any_eq_true]
    refine ⟨mayStart_iff.2 opening.boundary, name, opening.known, ?_⟩
    rw [callRest?_eq_some_iff.2 ⟨blanks, rfl, opening.blank⟩]
    exact passes

lemma holdsCall_iff :
    holdsCall names t = true ↔
      ∃ before name blanks rest, Opening names t before name blanks rest := by
  have anywhere := @fitsSomewhere_call_iff names t fun _ => true
  simp only [and_true, Option.any_true] at anywhere
  exact anywhere

lemma endsInCall_iff :
    endsInCall names t = true ↔
      ∃ before name blanks rest, Opening names t before name blanks rest ∧
        ∀ c ∈ rest, isAsciiBlank c = true := by
  have last := @fitsSomewhere_call_iff names t (·.all isAsciiBlank)
  simp only [List.all_eq_true] at last
  exact last

end Lookup

namespace Term

/-- What a term of a text promises, with the text in its frame. -/
structure Sound (text : Text) (o : Options) (t : Term) (inner : Text) : Prop where
  /-- The text holds the span at the term's offset. -/
  stands : Text.slice text t.offset t.stop = t.span
  /-- The span frames the inner text in the way of its kind. -/
  frames : t.kind.Frames t.span inner
  /-- The phrase is the inner text without the white space around it, for bodies with single spaces. -/
  content : t.content = if t.isBody then Text.collapse (Text.strip inner) else Text.strip inner
  /-- The phrase holds an ideograph. -/
  target : ∃ c ∈ Text.strip inner, 0x4E00 ≤ c.toNat ∧ c.toNat ≤ 0x9FA5
  /-- The phrase is not the path of a file. -/
  noPath : Prose.isFilePath (Text.strip inner) = false
  /-- The phrase does not look like code, unless it is a template literal. -/
  noCode : t.kind ≠ .backtick → Prose.isCode (Text.strip inner) = false
  /-- No lookup call opens in the span, unless it is a field. -/
  noCall : t.isField = false → ∀ before name blanks rest,
    ¬Lookup.Opening o.lookupNames t.span before name blanks rest
  /-- Nor does one open right before it, among 50 characters of the text with its comments blanked. -/
  notInCall : t.isField = false → ∀ before name blanks rest,
    Lookup.Opening o.lookupNames (Text.slice (Comment.mask text) (t.offset - 50) t.offset)
      before name blanks rest → ∃ c ∈ rest, isAsciiBlank c = false

lemma exists_isTarget {t : Text} (h : Prose.hasTarget t = true) :
    ∃ c ∈ t, 0x4E00 ≤ c.toNat ∧ c.toNat ≤ 0x9FA5 := by
  obtain ⟨c, mem, target⟩ := List.any_eq_true.1 h
  simp only [Prose.isTarget, Bool.and_eq_true, decide_eq_true_eq] at target
  exact ⟨c, mem, target⟩

variable {s : Source} {o : Options} {t : Term}

/-- What a hit takes of the blanked source is what its shape took. -/
lemma Source.spanOf_eq {α : Type} {shape : Shape α} {h : Hit α} (hit : h ∈ Text.hits shape s.masked) :
    ∃ prev rest, shape prev rest = some (h.stop - h.start, h.value) ∧
      s.spanOf h = rest.take (h.stop - h.start) := by
  obtain ⟨prev, read⟩ := Text.hits_read hit
  exact ⟨prev, _, read, rfl⟩

/-- Every candidate frames a text from which its phrase comes, and which looks like one. -/
lemma Candidate.framed (cand : Candidate s o t) :
    ∃ inner, t.kind.Frames t.span inner ∧
      t.content = (if t.isBody then Text.collapse (Text.strip inner) else Text.strip inner) ∧
      Prose.hasTarget (Text.strip inner) = true ∧ Prose.isFilePath (Text.strip inner) = false ∧
      (t.kind ≠ .backtick → Prose.isCode (Text.strip inner) = false) := by
  have prose : ∀ {u : Text}, Prose.isProse u = true →
      Prose.hasTarget u = true ∧ Prose.isFilePath u = false ∧
        ∀ {k : TermKind}, k ≠ .backtick → Prose.isCode u = false := by
    intro u h
    simp only [Prose.isProse, Bool.and_eq_true, Bool.not_eq_true'] at h
    exact ⟨h.1.1, h.2, fun _ => h.1.2⟩
  cases cand with
  | @doubleQuoted h hit _ _ _ _ isProse =>
    obtain ⟨target, noPath, noCode⟩ := prose isProse
    obtain ⟨prev, rest, read, span⟩ := Source.spanOf_eq hit
    obtain ⟨framed, free⟩ := frames_quoted read
    refine ⟨h.value, ?_, rfl, target, noPath, noCode⟩
    show TermKind.doubleQuoted.Frames (s.spanOf h) h.value
    rw [span, framed]
    exact .doubleQuoted free
  | @field h hit _ _ isProse =>
    obtain ⟨target, noPath, noCode⟩ := prose isProse
    obtain ⟨prev, rest, read, span⟩ := Source.spanOf_eq hit
    refine ⟨h.value.2, ?_, rfl, target, noPath, noCode⟩
    show (TermKind.field h.value.1).Frames (s.spanOf h) h.value.2
    exact span ▸ frames_fieldShape read
  | @singleQuoted h hit _ _ _ _ isProse =>
    obtain ⟨target, noPath, noCode⟩ := prose isProse
    obtain ⟨prev, rest, read, span⟩ := Source.spanOf_eq hit
    obtain ⟨framed, free⟩ := frames_quoted read
    refine ⟨h.value, ?_, rfl, target, noPath, noCode⟩
    show TermKind.singleQuoted.Frames (s.spanOf h) h.value
    rw [span, framed]
    exact .singleQuoted free
  | @backtick h hit target noPath _ _ =>
    obtain ⟨prev, rest, read, span⟩ := Source.spanOf_eq hit
    obtain ⟨framed, free⟩ := frames_quoted read
    refine ⟨h.value, ?_, rfl, target, noPath, fun other => absurd rfl other⟩
    show TermKind.backtick.Frames (s.spanOf h) h.value
    rw [span, framed]
    exact .backtick free
  | @tagBody h _ hit _ _ _ _ isProse =>
    obtain ⟨target, noPath, noCode⟩ := prose isProse
    obtain ⟨prev, rest, read, span⟩ := Source.spanOf_eq hit
    refine ⟨h.value, ?_, rfl, target, noPath, noCode⟩
    show TermKind.tagBody.Frames (s.spanOf h) h.value
    exact span ▸ frames_tagBodyShape read
  | @elementBody h _ hit _ _ _ _ isProse =>
    obtain ⟨target, noPath, noCode⟩ := prose isProse
    obtain ⟨prev, rest, read, span⟩ := Source.spanOf_eq hit
    refine ⟨h.value.inner, ?_, rfl, target, noPath, noCode⟩
    show (TermKind.elementBody h.value.tag h.value.attributes).Frames (s.spanOf h) h.value.inner
    exact span ▸ frames_elementShape read
  | @jsxBody h _ hit _ isProse =>
    obtain ⟨target, noPath, noCode⟩ := prose isProse
    obtain ⟨prev, rest, read, span⟩ := Source.spanOf_eq hit
    refine ⟨h.value, ?_, rfl, target, noPath, noCode⟩
    show TermKind.tagBody.Frames (s.spanOf h) h.value
    exact span ▸ frames_jsxBodyShape read

/-- Every term that the scanners find in a text is sound: it stands where it says, its phrase is the
stripped text in its frame, which holds an ideograph and is neither a file path nor, outside template
literals, code; and unless it is a field, it neither holds a lookup call nor directly stands in one. -/
theorem extract_sound {text : Text} {dialect : Dialect} (mem : t ∈ extract text dialect o) :
    ∃ inner, Sound text o t inner := by
  obtain ⟨cand, free⟩ := mem_extract_iff.1 mem
  obtain ⟨inner, frames, content, target, noPath, noCode⟩ := cand.framed
  have outside : t.isField = false →
      Lookup.holdsCall o.lookupNames t.span = false ∧
        Lookup.endsInCall o.lookupNames (Lookup.windowBefore (Comment.mask text) t.offset) =
          false := by
    intro other
    have unlocalized := free.resolve_left (by simp [other])
    exact Bool.or_eq_false_iff.1 unlocalized
  refine ⟨inner, cand.holds.text, frames, content, exists_isTarget target, noPath, noCode, ?_, ?_⟩
  · intro other before name blanks rest opening
    have call := Lookup.holdsCall_iff.2 ⟨before, name, blanks, rest, opening⟩
    rw [(outside other).1] at call
    cases call
  · intro other before name blanks rest opening
    by_contra blank
    have call : Lookup.endsInCall o.lookupNames
        (Lookup.windowBefore (Comment.mask text) t.offset) = true :=
      Lookup.endsInCall_iff.2 ⟨before, name, blanks, rest, opening, by simpa using blank⟩
    rw [(outside other).2] at call
    cases call

/-- A literal behind a comment that holds a lookup call, with white space around its phrase. -/
theorem extract_sound_padded :
    let text := "f(/* t( */' 中文 ')".toList
    let t : Term := ⟨"' 中文 '".toList, "中文".toList, .singleQuoted, 10⟩
    t ∈ extract text .script {} ∧ ∃ inner, Sound text {} t inner := by
  intro text t
  have mem : t ∈ extract text .script {} := by decide +kernel
  exact ⟨mem, extract_sound mem⟩

end Term

end Phrasebook
