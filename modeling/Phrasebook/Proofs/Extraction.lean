import Phrasebook.Proofs.Scan
import Phrasebook.Term.Extract

/-!
# What the scanners find

`Candidate` says of each kind of term what a scanner asks of a piece of the source before it looks
for a lookup call around it. The terms of a source are the candidates that are in no lookup call
(`mem_extract_iff`); a field is never looked at in this way.

Every candidate stands in the source and in its blanked copy where its offset says
(`Candidate.holds`), since each shape fits its text (`quotedShape_fits` and its kin).
-/

namespace Phrasebook.Term

/-! ## The shapes fit -/

lemma length_of_enclosed? {opens closes : Char → Bool} {t inner rest : Text}
    (h : Text.enclosed? opens closes t = some (inner, rest)) :
    inner.length + 2 + rest.length = t.length := by
  cases t with
  | nil => simp [Text.enclosed?] at h
  | cons c cs =>
    simp only [Text.enclosed?] at h
    split at h
    · split at h
      · cases h
      · rename_i d rest' dropped
        cases h
        have whole := congrArg List.length
          (List.takeWhile_append_dropWhile (p := (!closes ·)) (l := cs))
        rw [dropped] at whole
        simp only [List.length_append, List.length_cons] at whole ⊢
        omega
    · cases h

lemma quotedShape_fits (q : Char) : (quotedShape q).Fits := by
  intro prev t n a read
  obtain ⟨⟨inner, rest⟩, found, e⟩ := Option.map_eq_some_iff.1 read
  cases e
  have whole := length_of_enclosed? found
  simp only
  omega

/-- A run in front of a text, and the next character, lie in the text. -/
lemma length_takeWhile_lt {p : Char → Bool} {t : Text} {c : Char}
    (h : (t.drop (t.takeWhile p).length).head? = some c) : (t.takeWhile p).length < t.length := by
  rcases Nat.lt_or_ge (t.takeWhile p).length t.length with short | long
  · exact short
  · rw [List.drop_eq_nil_of_le long] at h
    cases h

lemma tagBodyShape_fits : tagBodyShape.Fits := by
  intro prev t n a read
  unfold tagBodyShape at read
  split at read
  · dsimp only at read
    split at read
    · rename_i next
      cases read
      have bound := length_takeWhile_lt next
      simp only [List.length_cons]
      omega
    · cases read
  · cases read

lemma jsxBodyShape_fits : jsxBodyShape.Fits := by
  intro prev t n a read
  unfold jsxBodyShape at read
  split at read
  · dsimp only at read
    split at read
    · rename_i next
      cases read
      simp only [Bool.and_eq_true, decide_eq_true_eq] at next
      have bound := length_takeWhile_lt next.2
      simp only [List.length_cons]
      omega
    · cases read
  · cases read

lemma length_of_after? {p t rest : Text} (h : Text.after? p t = some rest) :
    p.length + rest.length = t.length := by
  simp only [Text.after?] at h
  split at h
  · rename_i front
    cases h
    have bound := (List.isPrefixOf_iff_prefix.1 front).length_le
    rw [List.length_drop]
    omega
  · cases h

lemma length_of_attributesOf? {t attributes rest : Text}
    (h : attributesOf? t = some (attributes, rest)) :
    attributes.length + 1 + rest.length = t.length := by
  unfold attributesOf? at h
  split at h
  · cases h
    simp only [List.length_nil, List.length_cons]
    omega
  · rename_i c cs _
    split at h
    · split at h
      · rename_i d behind dropped
        cases h
        have whole := congrArg List.length
          (List.takeWhile_append_dropWhile (p := (· != '>')) (l := cs))
        rw [dropped] at whole
        simp only [List.length_append, List.length_cons] at whole ⊢
        omega
      · cases h
    · cases h
  · cases h

lemma elementShape_fits : elementShape.Fits := by
  intro prev t n a read
  unfold elementShape at read
  split at read
  · rename_i rest
    obtain ⟨tag, _, found⟩ := List.exists_of_findSome?_eq_some read
    simp only [elementOf?] at found
    split at found
    · cases found
    · rename_i attributes behind opened
      obtain ⟨i, closed, e⟩ := Option.map_eq_some_iff.1 found
      cases e
      obtain ⟨tail, named, listed⟩ := Option.bind_eq_some_iff.1 opened
      have tagged := length_of_after? named
      have filled := length_of_attributesOf? listed
      have ended := Text.find?_add_le closed
      simp only [List.length_cons]
      omega
  · cases read

lemma fieldOf?_bounds {name t value : Text} {n : Nat} (h : fieldOf? name t = some (n, value)) :
    0 < n ∧ n ≤ t.length := by
  simp only [fieldOf?] at h
  split at h
  · rename_i rest named
    obtain ⟨tail, front, dropped⟩ := Option.map_eq_some_iff.1 named
    split at h
    · rename_i r opened
      split at h
      · cases h
        have tagged := length_of_after? front
        have blanks := (List.dropWhile_suffix (l := tail) isBlank).length_le
        have spaces := (List.dropWhile_suffix (l := rest) isBlank).length_le
        rw [dropped] at blanks
        rw [opened] at spaces
        simp only [List.length_cons, List.length_drop] at blanks spaces ⊢
        omega
      · cases h
    · cases h
  · cases h

lemma fieldShape_fits (names : List Text) : (fieldShape names).Fits := by
  intro prev t n a read
  simp only [fieldShape] at read
  split at read
  · cases read
  · obtain ⟨name, _, found⟩ := List.exists_of_findSome?_eq_some read
    obtain ⟨⟨m, value⟩, field, e⟩ := Option.map_eq_some_iff.1 found
    cases e
    exact fieldOf?_bounds field

/-! ## Candidates -/

/-- Whether a term is a field with its value. -/
def isField (t : Term) : Bool :=
  match t.kind with
  | .field _ => true
  | _ => false

/-- A piece of a source that is a term unless it is found to be in a lookup call. -/
inductive Candidate (s : Source) (o : Options) : Term → Prop where
  | doubleQuoted {h} :
    h ∈ Text.hits (quotedShape '"') s.masked →
    isWrapped '\'' (Text.strip h.value) = false →
    Prose.isExpression (Text.strip h.value) = false →
    s.isIntact h = true →
    s.isSkipped h.start = false →
    Prose.isProse (Text.strip h.value) = true →
    Candidate s o (s.term h (Text.strip h.value) .doubleQuoted)
  | field {h} :
    h ∈ Text.hits (fieldShape o.fieldNames) s.masked →
    s.isIntact h = true →
    s.isSkipped h.start = false →
    Prose.isProse (Text.strip h.value.2) = true →
    Candidate s o (s.term h (Text.strip h.value.2) (.field h.value.1))
  | singleQuoted {h} :
    h ∈ Text.hits (quotedShape '\'') s.masked →
    (∀ f ∈ fields s o.fieldNames, ¬(f.offset ≤ h.start ∧ h.start < f.stop)) →
    isWrapped '"' (Text.strip h.value) = false →
    s.isIntact h = true →
    s.isSkipped h.start = false →
    Prose.isProse (Text.strip h.value) = true →
    Candidate s o (s.term h (Text.strip h.value) .singleQuoted)
  | backtick {h} :
    h ∈ Text.hits (quotedShape '\x60') s.masked →
    Prose.hasTarget (Text.strip h.value) = true →
    Prose.isFilePath (Text.strip h.value) = false →
    s.isIntact h = true →
    s.isSkipped h.start = false →
    Candidate s o (s.term h (Text.strip h.value) .backtick)
  | tagBody {h} :
    s.dialect = .markup →
    h ∈ Text.hits tagBodyShape s.masked →
    (Text.strip h.value).any Prose.isQuote = false →
    Text.occurs ['\x7b', '\x7b'] (Text.strip h.value) = false →
    Text.occurs ['\x7d', '\x7d'] (Text.strip h.value) = false →
    s.isIntact h = true →
    Prose.isProse (Text.strip h.value) = true →
    Candidate s o (s.term h (Text.collapse (Text.strip h.value)) .tagBody)
  | elementBody {h} :
    s.dialect = .markup →
    h ∈ Text.hits elementShape s.masked →
    Text.occurs ['\x7b', '\x7b'] (Text.strip h.value.inner) = false →
    Text.occurs ['\x7d', '\x7d'] (Text.strip h.value.inner) = false →
    (Text.strip h.value.inner).contains '<' = false →
    s.isIntact h = true →
    Prose.isProse (Text.strip h.value.inner) = true →
    Candidate s o (s.term h (Text.collapse (Text.strip h.value.inner))
      (.elementBody h.value.tag h.value.attributes))
  | jsxBody {h} :
    o.jsx = true →
    h ∈ Text.hits jsxBodyShape s.masked →
    s.isIntact h = true →
    Prose.isProse (Text.strip h.value) = true →
    Candidate s o (s.term h (Text.collapse (Text.strip h.value)) .tagBody)

/-- The source that the scanners read. -/
def sourceOf (text : Text) (dialect : Dialect) (o : Options) : Source :=
  ⟨text, Comment.mask text, o.lookupNames, dialect⟩

/-- Whether a piece of a source is, or directly stands in, a lookup call. -/
def isLocalizedIn (s : Source) (t : Term) : Bool :=
  Lookup.isLocalizedAt s.names s.masked t.offset t.span

/-- What a scanner that keeps some of its hits finds. -/
lemma mem_filterMap_ite {α β : Type} {p : α → Bool} {f : α → β} {l : List α} {b : β} :
    (b ∈ l.filterMap fun a => if p a = true then some (f a) else none) ↔
      ∃ a ∈ l, p a = true ∧ f a = b := by
  rw [List.mem_filterMap]
  constructor
  · rintro ⟨a, mem, found⟩
    by_cases keep : p a = true
    · rw [if_pos keep] at found
      exact ⟨a, mem, keep, Option.some.inj found⟩
    · rw [if_neg keep] at found
      cases found
  · rintro ⟨a, mem, keep, rfl⟩
    exact ⟨a, mem, if_pos keep⟩

variable {s : Source} {o : Options} {t : Term}

/-- A term that a scanner for literals, fields or bodies finds is a candidate in no lookup call. -/
lemma candidate_of_mem_extract {text : Text} {dialect : Dialect}
    (mem : t ∈ extract text dialect o) :
    Candidate (sourceOf text dialect o) o t ∧
      (t.isField = true ∨ isLocalizedIn (sourceOf text dialect o) t = false) := by
  simp only [extract, List.mem_append] at mem
  rcases mem with ((((mem | mem) | mem) | mem) | mem) | mem
  · obtain ⟨h, hit, keep, rfl⟩ := mem_filterMap_ite.1 mem
    simp only [Bool.and_eq_true, Bool.not_eq_true'] at keep
    obtain ⟨⟨⟨⟨⟨bare, plain⟩, intact⟩, kept⟩, prose⟩, free⟩ := keep
    exact ⟨.doubleQuoted hit bare plain intact kept prose, .inr free⟩
  · obtain ⟨h, hit, keep, rfl⟩ := mem_filterMap_ite.1 mem
    simp only [Bool.and_eq_true, Bool.not_eq_true'] at keep
    obtain ⟨⟨intact, kept⟩, prose⟩ := keep
    exact ⟨.field hit intact kept prose, .inl rfl⟩
  · obtain ⟨h, hit, keep, rfl⟩ := mem_filterMap_ite.1 mem
    simp only [Bool.and_eq_true, Bool.not_eq_true', List.any_eq_false, decide_eq_true_eq] at keep
    obtain ⟨⟨⟨⟨⟨outside, bare⟩, intact⟩, kept⟩, prose⟩, free⟩ := keep
    exact ⟨.singleQuoted hit outside bare intact kept prose, .inr free⟩
  · obtain ⟨h, hit, keep, rfl⟩ := mem_filterMap_ite.1 mem
    simp only [Bool.and_eq_true, Bool.not_eq_true'] at keep
    obtain ⟨⟨⟨⟨target, noPath⟩, intact⟩, kept⟩, free⟩ := keep
    exact ⟨.backtick hit target noPath intact kept, .inr free⟩
  · split at mem
    · rename_i markup
      rcases List.mem_append.1 mem with mem | mem
      · obtain ⟨h, hit, keep, rfl⟩ := mem_filterMap_ite.1 mem
        simp only [Bool.and_eq_true, Bool.not_eq_true'] at keep
        obtain ⟨⟨⟨⟨⟨unquoted, unopened⟩, unclosed⟩, intact⟩, prose⟩, free⟩ := keep
        exact ⟨.tagBody markup hit unquoted unopened unclosed intact prose, .inr free⟩
      · obtain ⟨h, hit, keep, rfl⟩ := mem_filterMap_ite.1 mem
        simp only [Bool.and_eq_true, Bool.not_eq_true'] at keep
        obtain ⟨⟨⟨⟨⟨unopened, unclosed⟩, flat⟩, intact⟩, prose⟩, free⟩ := keep
        exact ⟨.elementBody markup hit unopened unclosed flat intact prose, .inr free⟩
    · cases mem
  · split at mem
    · rename_i jsx
      obtain ⟨h, hit, keep, rfl⟩ := mem_filterMap_ite.1 mem
      simp only [Bool.and_eq_true, Bool.not_eq_true'] at keep
      obtain ⟨⟨intact, prose⟩, free⟩ := keep
      exact ⟨.jsxBody jsx hit intact prose, .inr free⟩
    · cases mem

/-- A candidate in no lookup call is a term of its source. -/
lemma mem_extract_of_candidate {text : Text} {dialect : Dialect}
    (cand : Candidate (sourceOf text dialect o) o t)
    (free : t.isField = true ∨ isLocalizedIn (sourceOf text dialect o) t = false) :
    t ∈ extract text dialect o := by
  simp only [extract, List.mem_append]
  cases cand with
  | @doubleQuoted h hit bare plain intact kept prose =>
    left; left; left; left; left
    refine mem_filterMap_ite.2 ⟨h, hit, ?_, rfl⟩
    have free := free.resolve_left nofun
    simp only [Bool.and_eq_true, Bool.not_eq_true']
    exact ⟨⟨⟨⟨⟨bare, plain⟩, intact⟩, kept⟩, prose⟩, free⟩
  | @field h hit intact kept prose =>
    left; left; left; left; right
    refine mem_filterMap_ite.2 ⟨h, hit, ?_, rfl⟩
    simp only [Bool.and_eq_true, Bool.not_eq_true']
    exact ⟨⟨intact, kept⟩, prose⟩
  | @singleQuoted h hit outside bare intact kept prose =>
    left; left; left; right
    refine mem_filterMap_ite.2 ⟨h, hit, ?_, rfl⟩
    have free := free.resolve_left nofun
    simp only [Bool.and_eq_true, Bool.not_eq_true', List.any_eq_false, decide_eq_true_eq]
    exact ⟨⟨⟨⟨⟨outside, bare⟩, intact⟩, kept⟩, prose⟩, free⟩
  | @backtick h hit target noPath intact kept =>
    left; left; right
    refine mem_filterMap_ite.2 ⟨h, hit, ?_, rfl⟩
    have free := free.resolve_left nofun
    simp only [Bool.and_eq_true, Bool.not_eq_true']
    exact ⟨⟨⟨⟨target, noPath⟩, intact⟩, kept⟩, free⟩
  | @tagBody h markup hit unquoted unopened unclosed intact prose =>
    left; right
    rw [if_pos (show dialect = .markup from markup)]
    refine List.mem_append_left _ (mem_filterMap_ite.2 ⟨h, hit, ?_, rfl⟩)
    have free := free.resolve_left nofun
    simp only [Bool.and_eq_true, Bool.not_eq_true']
    exact ⟨⟨⟨⟨⟨unquoted, unopened⟩, unclosed⟩, intact⟩, prose⟩, free⟩
  | @elementBody h markup hit unopened unclosed flat intact prose =>
    left; right
    rw [if_pos (show dialect = .markup from markup)]
    refine List.mem_append_right _ (mem_filterMap_ite.2 ⟨h, hit, ?_, rfl⟩)
    have free := free.resolve_left nofun
    simp only [Bool.and_eq_true, Bool.not_eq_true']
    exact ⟨⟨⟨⟨⟨unopened, unclosed⟩, flat⟩, intact⟩, prose⟩, free⟩
  | @jsxBody h jsx hit intact prose =>
    right
    rw [if_pos jsx]
    refine mem_filterMap_ite.2 ⟨h, hit, ?_, rfl⟩
    have free := free.resolve_left nofun
    simp only [Bool.and_eq_true, Bool.not_eq_true']
    exact ⟨⟨intact, prose⟩, free⟩

/-- The terms of a source are the candidates in no lookup call; fields are not looked at. -/
lemma mem_extract_iff {text : Text} {dialect : Dialect} :
    t ∈ extract text dialect o ↔
      Candidate (sourceOf text dialect o) o t ∧
        (t.isField = true ∨ isLocalizedIn (sourceOf text dialect o) t = false) :=
  ⟨candidate_of_mem_extract, fun ⟨cand, free⟩ => mem_extract_of_candidate cand free⟩

/-! ## Where terms stand -/

/-- A term stands in the source and in its blanked copy where its offset says. -/
structure Source.Holds (s : Source) (t : Term) : Prop where
  /-- The span takes a character. -/
  nonempty : t.span ≠ []
  /-- The source holds the span. -/
  text : Text.slice s.text t.offset t.stop = t.span
  /-- The blanked source holds the span. -/
  masked : Text.slice s.masked t.offset t.stop = t.span

/-- The term of an intact hit stands where the hit does. -/
lemma Source.holds_term {α : Type} {shape : Shape α} (fits : shape.Fits) {h : Hit α}
    (hit : h ∈ Text.hits shape s.masked) (intact : s.isIntact h = true) (content : Text)
    (kind : TermKind) : s.Holds (s.term h content kind) := by
  obtain ⟨size, inside⟩ := Text.hits_bounds fits hit
  have length : (s.spanOf h).length = h.stop - h.start := Text.length_slice inside
  have stop : (s.term h content kind).stop = h.stop := by
    show h.start + (s.spanOf h).length = h.stop
    omega
  refine ⟨?_, ?_, ?_⟩
  · intro empty
    have : (s.spanOf h).length = 0 := congrArg List.length empty
    omega
  · rw [stop]
    exact beq_iff_eq.1 intact
  · rw [stop]
    rfl

/-- Every candidate stands where its offset says. -/
lemma Candidate.holds (cand : Candidate s o t) : s.Holds t := by
  cases cand with
  | doubleQuoted hit _ _ intact _ _ => exact Source.holds_term (quotedShape_fits _) hit intact _ _
  | field hit intact _ _ => exact Source.holds_term (fieldShape_fits _) hit intact _ _
  | singleQuoted hit _ _ intact _ _ => exact Source.holds_term (quotedShape_fits _) hit intact _ _
  | backtick hit _ _ intact _ => exact Source.holds_term (quotedShape_fits _) hit intact _ _
  | tagBody _ hit _ _ _ intact _ => exact Source.holds_term tagBodyShape_fits hit intact _ _
  | elementBody _ hit _ _ _ intact _ => exact Source.holds_term elementShape_fits hit intact _ _
  | jsxBody _ hit intact _ => exact Source.holds_term jsxBodyShape_fits hit intact _ _

lemma span_ne_nil_of_mem_extract {text : Text} {dialect : Dialect} (mem : t ∈ extract text dialect o) :
    t.span ≠ [] :=
  (mem_extract_iff.1 mem).1.holds.nonempty

/-- A term that a source holds takes a character and lies in the source. -/
lemma Source.Holds.bounds (holds : s.Holds t) : t.offset < t.stop ∧ t.stop ≤ s.text.length := by
  have size : 0 < t.span.length := List.length_pos_iff.2 holds.nonempty
  have stop : t.stop = t.offset + t.span.length := rfl
  have length : (Text.slice s.text t.offset t.stop).length = t.stop - t.offset := by
    rw [holds.text]
    omega
  exact ⟨by omega, Text.le_length_of_length_slice (by omega) length⟩

/-- A candidate of a script that holds no tags is no body. -/
lemma Candidate.not_isBody (cand : Candidate s o t) (script : s.dialect = .script)
    (plain : o.jsx = false) : t.isBody = false := by
  cases cand with
  | tagBody markup _ _ _ _ _ _ => rw [script] at markup; cases markup
  | elementBody markup _ _ _ _ _ _ => rw [script] at markup; cases markup
  | jsxBody jsx _ _ _ => rw [plain] at jsx; cases jsx
  | doubleQuoted _ _ _ _ _ _ => rfl
  | field _ _ _ _ => rfl
  | singleQuoted _ _ _ _ _ _ => rfl
  | backtick _ _ _ _ _ => rfl

end Phrasebook.Term
