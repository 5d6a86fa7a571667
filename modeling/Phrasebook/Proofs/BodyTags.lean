import Phrasebook.Proofs.CallLiterals
import Phrasebook.Proofs.Soundness

/-!
# The tags of bodies

A body that is a term stands between two tags, or is an element with its tags. What takes its place is
built from lengths: the tags are written anew, and the white space inside is cut out of the span. It is
the body itself all the same, with the call in braces where its words were
(`bodyReplacement_of_tags`, `bodyReplacement_keeps_tags`).
-/

namespace Phrasebook

namespace Text

/-- A text is its stripped text with white space around it. -/
lemma strip_split (t : Text) :
    ∃ a b, t = a ++ strip t ++ b ∧ (∀ c ∈ a, isBlank c = true) ∧ ∀ c ∈ b, isBlank c = true := by
  refine ⟨t.takeWhile isBlank, (t.dropWhile isBlank).rtakeWhile isBlank, ?_,
    fun c mem => List.mem_takeWhile_imp mem, fun c mem => List.mem_rtakeWhile_imp mem⟩
  have back : strip t ++ (t.dropWhile isBlank).rtakeWhile isBlank = t.dropWhile isBlank :=
    List.rdropWhile_append_rtakeWhile
  rw [List.append_assoc, back, List.takeWhile_append_dropWhile]

lemma head?_strip {t : Text} {c : Char} (head : (strip t).head? = some c) : isBlank c = false := by
  obtain ⟨rest, split⟩ : strip t <+: t.dropWhile isBlank := List.rdropWhile_prefix isBlank _
  have front := List.head?_dropWhile_not isBlank t
  rw [← split, List.head?_append, head] at front
  simpa using front

/-- A text with words in it has a first and a last character that are no white space. -/
lemma solid_ends {t : Text} (words : strip t ≠ []) :
    (∃ c, (strip t).head? = some c ∧ isBlank c = false) ∧
      ∃ c, (strip t).getLast? = some c ∧ isBlank c = false := by
  obtain ⟨c, first⟩ := Option.ne_none_iff_exists'.1 (mt List.head?_eq_none_iff.1 words)
  obtain ⟨d, last⟩ := Option.ne_none_iff_exists'.1 (mt List.getLast?_eq_none_iff.1 words)
  exact ⟨⟨c, first, head?_strip first⟩, ⟨d, last, getLast?_strip last⟩⟩

/-- The run of a class at the front of a text ends at the first character outside the class. -/
lemma takeWhile_solid {p : Char → Bool} {a t : Text} {c : Char} (blank : ∀ d ∈ a, p d = true)
    (head : t.head? = some c) (solid : p c = false) : (a ++ t).takeWhile p = a := by
  obtain ⟨rest, rfl⟩ : ∃ rest, t = c :: rest := List.head?_eq_some_iff.1 head
  rw [List.takeWhile_append_of_pos blank, List.takeWhile_cons_of_neg (by rw [solid]; decide),
    List.append_nil]

end Text

/-- The tags around a body: for a text between two tags the brackets next to it, for an element its
start tag with the attributes and its end tag. -/
inductive TermKind.Tags : TermKind → Text → Text → Prop where
  | between : Tags .tagBody ['>'] ['<']
  | element {tag attributes} :
    tag ∈ Term.bodyTags →
    '>' ∉ attributes →
    (∀ c, attributes.head? = some c → isBlank c = true) →
    Tags (.elementBody tag attributes) ('<' :: tag ++ attributes ++ ['>']) ("</".toList ++ tag ++ ['>'])

/-- A call in the braces that a body asks for: single ones between the tags of a script, double ones in
markup and in elements. -/
def TermKind.inBraces (kind : TermKind) (dialect : Dialect) (call : Text) : Text :=
  match kind, dialect with
  | .tagBody, .script => '\x7b' :: call ++ ['\x7d']
  | _, _ => "\x7b\x7b ".toList ++ call ++ " \x7d\x7d".toList

namespace Term

/-- A body cut into its tags, its words, and the white space between them. -/
structure Cut (t : Term) (opening lead words trail closing : Text) : Prop where
  tags : t.kind.Tags opening closing
  span : t.span = opening ++ lead ++ words ++ trail ++ closing
  blank : ∀ c ∈ lead ++ trail, isBlank c = true
  first : ∃ c, words.head? = some c ∧ isBlank c = false
  last : ∃ c, words.getLast? = some c ∧ isBlank c = false
  /-- No other tag stands between the tags. -/
  flat : '<' ∉ words
  /-- The phrase of the term is made of its words. -/
  content : t.content = Text.collapse words

variable {s : Source} {o : Options} {t : Term} {inner : Text}

/-- The frame of a body is made of its tags. -/
lemma tags_of_frames (frames : t.kind.Frames t.span inner) (body : t.isBody = true) :
    ∃ opening closing, t.kind.Tags opening closing ∧ t.span = opening ++ inner ++ closing := by
  unfold isBody at body
  generalize t.kind = kind, t.span = span at *
  cases frames with
  | tagBody => exact ⟨['>'], ['<'], .between, rfl⟩
  | elementBody known free blank =>
    refine ⟨_, _, .element known free blank, ?_⟩
    simp only [List.append_assoc, List.cons_append, List.nil_append]
  | _ => cases body

lemma unopened_of_frames {span : Text} (frames : TermKind.tagBody.Frames span inner) :
    '<' ∉ inner := by
  cases frames with
  | tagBody unopened => exact unopened

/-- The text between the tags of a body is a phrase and holds no other tag; bodies of elements are found
in markup only. -/
lemma Candidate.bodyText (cand : Candidate s o t) (body : t.isBody = true) :
    ∃ inner, t.kind.Frames t.span inner ∧ t.content = Text.collapse (Text.strip inner) ∧
      Text.strip inner ≠ [] ∧ '<' ∉ Text.strip inner ∧ (s.dialect = .script → t.kind = .tagBody) := by
  have words : ∀ {u : Text}, Prose.isProse u = true → u ≠ [] := by
    rintro u prose rfl
    cases prose
  have outside : ∀ {u : Text}, '<' ∉ u → '<' ∉ Text.strip u := by
    intro u free mem
    obtain ⟨a, b, split, -⟩ := Text.strip_split u
    apply free
    rw [split]
    exact List.mem_append_left _ (List.mem_append_right _ mem)
  cases cand with
  | @tagBody h _ hit _ _ _ _ prose =>
    obtain ⟨prev, rest, read, span⟩ := Source.spanOf_eq hit
    have frames : TermKind.tagBody.Frames (s.spanOf h) h.value := span ▸ frames_tagBodyShape read
    exact ⟨h.value, frames, rfl, words prose, outside (unopened_of_frames frames), fun _ => rfl⟩
  | @elementBody h markup hit _ _ flat _ prose =>
    obtain ⟨prev, rest, read, span⟩ := Source.spanOf_eq hit
    have frames : (TermKind.elementBody h.value.tag h.value.attributes).Frames (s.spanOf h)
        h.value.inner := span ▸ frames_elementShape read
    refine ⟨h.value.inner, frames, rfl, words prose, by simpa using flat, ?_⟩
    intro script
    rw [script] at markup
    cases markup
  | @jsxBody h _ hit _ prose =>
    obtain ⟨prev, rest, read, span⟩ := Source.spanOf_eq hit
    have frames : TermKind.tagBody.Frames (s.spanOf h) h.value := span ▸ frames_jsxBodyShape read
    exact ⟨h.value, frames, rfl, words prose, outside (unopened_of_frames frames), fun _ => rfl⟩
  | _ => cases body

end Term

namespace Localize

variable {t : Term} {opening inner closing : Text}

/-- The white space that a replacement keeps is what stands around the words. -/
lemma padding_split (words : Text.strip inner ≠ []) :
    inner = (padding inner).1 ++ Text.strip inner ++ (padding inner).2 ∧
      ∀ c ∈ (padding inner).1 ++ (padding inner).2, isBlank c = true := by
  obtain ⟨a, b, split, front, back⟩ := Text.strip_split inner
  obtain ⟨⟨c, first, solid⟩, ⟨d, last, solid'⟩⟩ := Text.solid_ends words
  have filled : Text.isBlankText inner = false := by
    rw [Text.isBlankText, List.all_eq_false]
    refine ⟨c, ?_, by rw [solid]; decide⟩
    rw [split]
    exact List.mem_append_left _ (List.mem_append_right _ (List.mem_of_head? first))
  have lead : inner.takeWhile isBlank = a := by
    rw [split, List.append_assoc]
    apply Text.takeWhile_solid front _ solid
    rw [List.head?_append, first, Option.some_or]
  have trail : (inner.reverse.takeWhile isBlank).reverse = b := by
    have run : (b.reverse ++ ((Text.strip inner).reverse ++ a.reverse)).takeWhile isBlank =
        b.reverse := by
      apply Text.takeWhile_solid (fun c mem => back c (List.mem_reverse.1 mem)) _ solid'
      rw [List.head?_append, List.head?_reverse, last, Option.some_or]
    rw [split, List.reverse_append, List.reverse_append, run, List.reverse_reverse]
  rw [padding, if_neg (by rw [filled]; decide), lead, trail]
  exact ⟨split, fun c mem => (List.mem_append.1 mem).elim (front c) (back c)⟩

/-- The replacement of a body is the body with the call in braces in place of its words. -/
lemma bodyReplacement_of_tags (tags : t.kind.Tags opening closing)
    (span : t.span = opening ++ inner ++ closing) (call : Text) (dialect : Dialect) :
    bodyReplacement t call dialect = opening ++ (padding inner).1 ++ t.kind.inBraces dialect call ++
      (padding inner).2 ++ closing := by
  unfold bodyReplacement
  rw [span]
  generalize t.kind = kind at tags ⊢
  cases tags with
  | between =>
    have cut : (['>'] ++ inner ++ ['<']).dropLast.drop 1 = inner := by
      rw [List.dropLast_concat]
      rfl
    dsimp only
    rw [cut]
    cases dialect with
    | markup => simp [embedded, interpolated, TermKind.inBraces]
    | script => simp [embedded, TermKind.inBraces]
  | @element tag attributes =>
    have front : ('<' :: tag ++ attributes ++ ['>']).length = tag.length + attributes.length + 2 := by
      simp only [List.length_append, List.length_cons, List.length_nil]
      omega
    have back : ("</".toList ++ tag ++ ['>']).length = tag.length + 3 := by
      rw [List.length_append, List.length_append]
      show 2 + tag.length + 1 = tag.length + 3
      omega
    have cut : (('<' :: tag ++ attributes ++ ['>'] ++ inner ++ ("</".toList ++ tag ++ ['>'])).take
        (('<' :: tag ++ attributes ++ ['>'] ++ inner ++ ("</".toList ++ tag ++ ['>'])).length -
          (tag.length + 3))).drop (tag.length + attributes.length + 2) = inner := by
      rw [List.length_append, back, Nat.add_sub_cancel, List.take_left, ← front, List.drop_left]
    dsimp only
    rw [cut]
    simp [interpolated, TermKind.inBraces]

/-- The words of a body, and nothing else, make way for the call in braces: the tags with the attributes
and the white space around the words stay. In a script only texts between tags are bodies, so braces are
single there. -/
theorem bodyReplacement_keeps_tags {text : Text} {source : Dialect} {o : Term.Options}
    (mem : t ∈ Term.extract text source o) (body : t.isBody = true) :
    ∃ opening lead words trail closing,
      t.Cut opening lead words trail closing ∧
      Text.slice text t.offset t.stop = opening ++ lead ++ words ++ trail ++ closing ∧
      (source = .script → t.kind = .tagBody) ∧
      ∀ call dialect, bodyReplacement t call dialect =
        opening ++ lead ++ t.kind.inBraces dialect call ++ trail ++ closing := by
  obtain ⟨cand, -⟩ := Term.mem_extract_iff.1 mem
  obtain ⟨inner, frames, content, filled, flat, script⟩ := cand.bodyText body
  obtain ⟨opening, closing, tags, span⟩ := Term.tags_of_frames frames body
  obtain ⟨split, blank⟩ := padding_split filled
  obtain ⟨first, last⟩ := Text.solid_ends filled
  have parts : t.span = opening ++ (padding inner).1 ++ Text.strip inner ++ (padding inner).2 ++
      closing := by
    rw [span]
    conv_lhs => rw [split]
    simp only [List.append_assoc]
  refine ⟨opening, (padding inner).1, Text.strip inner, (padding inner).2, closing, ?_, ?_, script, ?_⟩
  · exact ⟨tags, parts, blank, first, last, flat, content⟩
  · rw [← parts]
    exact cand.holds.text
  · intro call dialect
    exact bodyReplacement_of_tags tags span call dialect

/-- An element with attributes, and with wide white space before and a line feed behind its words. -/
theorem bodyReplacement_keeps_padded_link :
    let text := "<a  b>　中 文\n</a>".toList
    let t : Term := ⟨text, "中 文".toList, .elementBody "a".toList "  b".toList, 0⟩
    let replaced := "<a  b>　\x7b\x7b f \x7d\x7d\n</a>".toList
    t ∈ Term.extract text .markup {} ∧ t.isBody = true ∧
      bodyReplacement t "f".toList .markup = replaced ∧
      ∃ opening lead words trail closing, t.Cut opening lead words trail closing ∧
        replaced = opening ++ lead ++ "\x7b\x7b f \x7d\x7d".toList ++ trail ++ closing := by
  intro text t replaced
  have mem : t ∈ Term.extract text .markup {} := by decide +kernel
  have result : bodyReplacement t "f".toList .markup = replaced := by decide
  obtain ⟨opening, lead, words, trail, closing, cut, -, -, parts⟩ :=
    bodyReplacement_keeps_tags mem rfl
  exact ⟨mem, rfl, result, opening, lead, words, trail, closing, cut,
    result.symm.trans (parts "f".toList .markup)⟩

end Localize

end Phrasebook
