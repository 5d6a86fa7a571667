import Phrasebook.Proofs.Assignments

/-!
# Attributes that are seen between tags

In the markup of `TaggedText` angle brackets only delimit tags, so a place lies in an open tag or in a
text between tags (`inOpenTag_or_liesInText`). A plain attribute is seen by the characters before its
value, and no tag is asked for. Hence all attributes that are seen lie in tags exactly if no literal of
a text between tags stands behind an assignment there, outside of bindings and interpolations
(`attributes_in_tags_iff`).
-/

namespace Phrasebook.Markup

/-- A text without angle brackets. -/
abbrev Unbracketed :=
  { t : Text // '<' ∉ t ∧ '>' ∉ t }

/-- Markup in which angle brackets only delimit tags: a text, and then tags, each with the text behind
it. -/
structure TaggedText where
  lead : Unbracketed
  elements : List (Unbracketed × Unbracketed)

/-- Before the place `i` a tag is open: of the brackets there, an opening one comes last. -/
def InOpenTag (t : Text) (i : Nat) : Prop :=
  ∃ outer inner, t.take i = outer ++ '<' :: inner ∧ '>' ∉ inner

/-- A text holds the quoted literal `span` at the place `i`. -/
def IsLiteralAt (t : Text) (i : Nat) (span : Text) : Prop :=
  ∃ (q : Quote) (inner : Text), span = q.char :: inner ++ [q.char] ∧ q.char ∉ inner ∧
    Text.slice t i (i + span.length) = span

lemma IsLiteralAt.opens {t span : Text} {i : Nat} (literal : IsLiteralAt t i span) :
    ∃ q, openingQuote? span = some q := by
  obtain ⟨q, inner, rfl, -⟩ := literal
  exact ⟨q, by cases q <;> rfl⟩

lemma IsLiteralAt.le_length {t span : Text} {i : Nat} (literal : IsLiteralAt t i span) :
    i ≤ t.length := by
  obtain ⟨q, inner, rfl, -, held⟩ := literal
  have bound := (Text.length_slice_le t i (i + (q.char :: inner ++ [q.char]).length)).2
  rw [held] at bound
  simp only [List.length_append, List.length_cons] at bound
  omega

namespace TaggedText

/-- The markup as it is written. -/
def text (m : TaggedText) : Text :=
  m.lead.val ++ m.elements.flatMap fun e => '<' :: e.1.val ++ '>' :: e.2.val

/-- The place `i` lies in a text between tags: `w` is what of this text stands before it, and `prev`
the character before the text. -/
inductive LiesInText (m : TaggedText) (i : Nat) : Option Char → Text → Prop where
  | lead {w rest : Text} :
    m.lead.val = w ++ rest → i = w.length → LiesInText m i none w
  | behind {front back : List (Unbracketed × Unbracketed)} {tag between : Unbracketed}
      {w rest : Text} :
    m.elements = front ++ (tag, between) :: back → between.val = w ++ rest →
    i = (text ⟨m.lead, front⟩).length + (tag.val.length + 2) + w.length →
    LiesInText m i (some '>') w

variable {m : TaggedText} {lead tag between : Unbracketed}
  {elements : List (Unbracketed × Unbracketed)} {i : Nat} {prev : Option Char} {w : Text}

lemma text_cons : text ⟨lead, (tag, between) :: elements⟩ =
    lead.val ++ '<' :: tag.val ++ '>' :: text ⟨between, elements⟩ := by
  simp [text]

lemma text_append (front back : List (Unbracketed × Unbracketed)) :
    text ⟨lead, front ++ (tag, between) :: back⟩ =
      text ⟨lead, front⟩ ++ '<' :: tag.val ++ '>' :: text ⟨between, back⟩ := by
  simp [text]

/-- What stands before a place in a text between tags. -/
lemma LiesInText.split (lies : m.LiesInText i prev w) :
    ('<' ∉ w ∧ '>' ∉ w) ∧
      (prev = none ∧ m.text.take i = w ∨
        prev = some '>' ∧ ∃ a, m.text.take i = a ++ '>' :: w) := by
  have free : ∀ {u : Unbracketed} {rest : Text}, u.val = w ++ rest → '<' ∉ w ∧ '>' ∉ w := by
    intro u rest parts
    have outside := u.property
    rw [parts] at outside
    exact ⟨fun mem => outside.1 (List.mem_append_left _ mem),
      fun mem => outside.2 (List.mem_append_left _ mem)⟩
  cases lies with
  | lead parts place =>
    refine ⟨free parts, .inl ⟨rfl, ?_⟩⟩
    rw [text, parts, List.append_assoc, place, List.take_left]
  | @behind front back tag between w rest listed parts place =>
    refine ⟨free parts, .inr ⟨rfl, text ⟨m.lead, front⟩ ++ '<' :: tag.val, ?_⟩⟩
    obtain ⟨tail, starts⟩ : ∃ tail, text ⟨between, back⟩ = w ++ tail := by
      rw [text, parts, List.append_assoc]
      exact ⟨_, rfl⟩
    have whole : m.text = (text ⟨m.lead, front⟩ ++ '<' :: tag.val ++ '>' :: w) ++ tail := by
      have same : m = ⟨m.lead, front ++ (tag, between) :: back⟩ := by rw [← listed]
      rw [same, text_append, starts, List.append_assoc _ ('>' :: w) tail]
      rfl
    rw [whole]
    apply List.take_left'
    rw [place]
    simp only [List.length_append, List.length_cons]
    omega

lemma LiesInText.not_inOpenTag (lies : m.LiesInText i prev w) : ¬InOpenTag m.text i := by
  obtain ⟨⟨noOpen, -⟩, before⟩ := lies.split
  rintro ⟨outer, inner, opened, unclosed⟩
  rcases before with ⟨-, whole⟩ | ⟨-, a, whole⟩
  · rw [opened] at whole
    exact noOpen (by simp [← whole])
  · rw [opened] at whole
    -- the bracket that opens the tag would stand in the text, or the one before the text in the tag
    rcases List.append_eq_append_iff.1 whole with ⟨z, -, inTag⟩ | ⟨z, -, inText⟩
    · have mem : '>' ∈ '<' :: inner := by simp [inTag]
      exact unclosed ((List.mem_cons.1 mem).resolve_left (by decide))
    · have mem : '<' ∈ '>' :: w := by simp [inText]
      exact noOpen ((List.mem_cons.1 mem).resolve_left (by decide))

/-- A place in the markup behind the first tag, seen from the start. -/
lemma LiesInText.cons (lies : LiesInText ⟨between, elements⟩ i prev w) (lead tag : Unbracketed) :
    LiesInText ⟨lead, (tag, between) :: elements⟩ (lead.val.length + (tag.val.length + 2) + i)
      (some '>') w := by
  cases lies with
  | lead parts place =>
    have first : (tag, between) :: elements = [] ++ (tag, between) :: elements := rfl
    refine .behind first parts ?_
    simp [text, place]
  | @behind front back t b _ _ listed parts place =>
    have later : (tag, between) :: elements = ((tag, between) :: front) ++ (t, b) :: back :=
      congrArg ((tag, between) :: ·) listed
    refine .behind later parts ?_
    rw [text_cons, place]
    simp only [List.length_append, List.length_cons]
    omega

lemma inOpenTag_cons (inside : InOpenTag (text ⟨between, elements⟩) i) (lead tag : Unbracketed) :
    InOpenTag (text ⟨lead, (tag, between) :: elements⟩)
      (lead.val.length + (tag.val.length + 2) + i) := by
  obtain ⟨outer, inner, opened, unclosed⟩ := inside
  refine ⟨lead.val ++ '<' :: tag.val ++ '>' :: outer, inner, ?_, unclosed⟩
  have size : (lead.val ++ '<' :: tag.val ++ ['>']).length =
      lead.val.length + (tag.val.length + 2) := by simp
  rw [text_cons, List.append_cons, ← size, List.take_length_add_append, opened]
  simp

/-- Every place of the markup lies in an open tag or in a text between tags. -/
lemma inOpenTag_or_liesInText (m : TaggedText) (inside : i ≤ m.text.length) :
    InOpenTag m.text i ∨ ∃ prev w, m.LiesInText i prev w := by
  obtain ⟨lead, elements⟩ := m
  induction elements generalizing lead i with
  | nil =>
    have whole : text ⟨lead, []⟩ = lead.val := List.append_nil _
    rw [whole] at inside
    exact .inr ⟨none, _, .lead (List.take_append_drop i lead.val).symm
      (List.length_take_of_le inside).symm⟩
  | cons e elements ih =>
    obtain ⟨tag, between⟩ := e
    -- the place lies in the first text, in the first tag or behind it
    rcases Nat.lt_or_ge lead.val.length i with later | early
    · rcases Nat.lt_or_ge (lead.val.length + tag.val.length + 1) i with behind | within
      · obtain ⟨j, rfl⟩ : ∃ j, i = lead.val.length + (tag.val.length + 2) + j :=
          ⟨i - (lead.val.length + (tag.val.length + 2)), by omega⟩
        rw [text_cons] at inside
        simp only [List.length_append, List.length_cons] at inside
        have rest : j ≤ (text ⟨between, elements⟩).length := by omega
        rcases ih between rest with opened | ⟨prev, w, lies⟩
        · exact .inl (inOpenTag_cons opened lead tag)
        · exact .inr ⟨_, w, lies.cons lead tag⟩
      · obtain ⟨k, rfl⟩ : ∃ k, i = lead.val.length + (k + 1) :=
          ⟨i - lead.val.length - 1, by omega⟩
        refine .inl ⟨lead.val, tag.val.take k, ?_, fun mem => ?_⟩
        · rw [text_cons, List.append_assoc, List.take_length_add_append, List.cons_append,
            List.take_succ_cons, List.take_append_of_le_length (by omega)]
        · exact tag.property.2 (List.mem_of_mem_take mem)
    · exact .inr ⟨none, _, .lead (List.take_append_drop i lead.val).symm
        (List.length_take_of_le early).symm⟩

/-- An assignment does not reach over the bracket before a text between tags. -/
lemma assigns_behind_iff {a outer name : Text} :
    Assigns none (a ++ '>' :: w) outer name ↔
      ∃ inner, outer = a ++ '>' :: inner ∧ Assigns (some '>') w inner name := by
  have last : ∀ inner : Text,
      (a ++ '>' :: inner).getLast?.or none = inner.getLast?.or (some '>') := by
    intro inner
    rw [List.getLast?_append, List.getLast?_cons, Option.or_none]
    cases inner.getLast? <;> rfl
  constructor
  · rintro ⟨named, ⟨gap, value, split, blank⟩, apart⟩
    have free : '>' ∉ name ++ gap ++ '=' :: value := by
      intro mem
      rw [List.append_assoc, List.mem_append, List.mem_append, List.mem_cons] at mem
      rcases mem with inName | inGap | same | inValue
      · exact absurd (named.isAttributeChar _ inName) (by decide)
      · exact absurd (blank _ (List.mem_append_left _ inGap)) (by decide)
      · exact absurd same (by decide)
      · exact absurd (blank _ (List.mem_append_right _ inValue)) (by decide)
    rw [List.append_cons] at split
    rcases List.append_eq_append_iff.1 split with ⟨inner, rfl, tail⟩ | ⟨z, front, tail⟩
    · rw [← List.append_cons] at apart ⊢
      exact ⟨inner, rfl, named, ⟨gap, value, tail, blank⟩, by rwa [last] at apart⟩
    · rcases List.eq_nil_or_concat z with rfl | ⟨ds, d, rfl⟩
      · rw [List.append_nil] at front
        subst front
        refine ⟨[], rfl, named, ⟨gap, value, tail.symm, blank⟩, ?_⟩
        rwa [last] at apart
      · rw [List.concat_eq_append, ← List.append_assoc] at front
        obtain rfl : '>' = d := by simpa using (List.append_inj' front rfl).2
        exact absurd (by simp [tail]) free
  · rintro ⟨inner, rfl, named, ⟨gap, value, split, blank⟩, apart⟩
    refine ⟨named, ⟨gap, value, ?_, blank⟩, ?_⟩
    · rw [split]
      simp
    · rwa [last]

/-- At a place in a text between tags, only that text decides on an assignment. -/
lemma LiesInText.assigns_iff (lies : m.LiesInText i prev w) (name : Text) :
    (∃ outer, Assigns none (m.text.take i) outer name) ↔ ∃ outer, Assigns prev w outer name := by
  rcases lies.split.2 with ⟨rfl, whole⟩ | ⟨rfl, a, whole⟩
  · rw [whole]
  · rw [whole]
    constructor
    · rintro ⟨outer, assigns⟩
      obtain ⟨inner, -, assigns⟩ := assigns_behind_iff.1 assigns
      exact ⟨inner, assigns⟩
    · rintro ⟨inner, assigns⟩
      exact ⟨_, assigns_behind_iff.2 ⟨inner, rfl, assigns⟩⟩

end TaggedText

open TaggedText

/-- Every literal that is seen as the value of a plain attribute lies in an open tag exactly if no
literal in a text between tags stands there behind an assignment to a name other than a directive,
outside of bindings and interpolations. -/
theorem attributes_in_tags_iff (m : TaggedText) :
    (∀ i span name start q, IsLiteralAt m.text i span →
      site? m.text i span = some (.plainAttribute name start q) → InOpenTag m.text i) ↔
    ∀ i span prev w outer name, IsLiteralAt m.text i span → m.LiesInText i prev w →
      Assigns prev w outer name → ['v', '-'].isPrefixOf name = true ∨
        inInterpolation m.text i = true ∨ (openBinding? m.text i).isSome = true := by
  constructor
  · intro inTags i span prev w outer name literal lies assigns
    by_contra plain
    simp only [not_or, Bool.not_eq_true, Option.isSome_eq_false_iff, Option.isNone_iff_eq_none]
      at plain
    obtain ⟨other, outside, closed⟩ := plain
    obtain ⟨q, opens⟩ := literal.opens
    obtain ⟨front, before⟩ := (lies.assigns_iff name).2 ⟨outer, assigns⟩
    have seen := plainAttribute?_eq_some_iff.2 ⟨opens, other, front, before, rfl⟩
    exact lies.not_inOpenTag
      (inTags i span name _ q literal (site?_plainAttribute_iff.2 ⟨closed, outside, seen⟩))
  · intro free i span name start q literal site
    refine (m.inOpenTag_or_liesInText literal.le_length).resolve_right ?_
    rintro ⟨prev, w, lies⟩
    obtain ⟨closed, outside, seen⟩ := site?_plainAttribute_iff.1 site
    obtain ⟨-, other, front, before, -⟩ := plainAttribute?_eq_some_iff.1 seen
    obtain ⟨outer, assigns⟩ := (lies.assigns_iff name).1 ⟨front, before⟩
    rcases free i span prev w outer name literal lies assigns with directive | inside | opened
    · rw [other] at directive
      cases directive
    · rw [outside] at inside
      cases inside
    · rw [closed] at opened
      cases opened

/-- A literal behind an equals sign in the text of a paragraph is seen as the value of an attribute. -/
theorem attribute_seen_between_tags :
    let m : TaggedText :=
      ⟨⟨[], by decide⟩, [(⟨"p".toList, by decide⟩, ⟨"说 a=\"中\"".toList, by decide⟩),
        (⟨"/p".toList, by decide⟩, ⟨[], by decide⟩)]⟩
    m.text = "<p>说 a=\"中\"</p>".toList ∧
    ¬∀ i span name start q, IsLiteralAt m.text i span →
      site? m.text i span = some (.plainAttribute name start q) → InOpenTag m.text i := by
  intro m
  refine ⟨by decide, fun inTags => ?_⟩
  have literal : IsLiteralAt m.text 7 "\"中\"".toList := ⟨.double, "中".toList, by decide⟩
  have listed : m.elements = [] ++ (_, _) :: [_] := rfl
  have lies : m.LiesInText 7 (some '>') "说 a=".toList := .behind listed rfl rfl
  have assigns : Assigns (some '>') "说 a=".toList "说 ".toList "a".toList :=
    ⟨⟨'a', [], rfl, by decide, by simp⟩, ⟨[], [], by decide, by simp⟩, by rintro c ⟨⟩; decide⟩
  have refused := (attributes_in_tags_iff m).1 inTags 7 _ _ _ _ _ literal lies assigns
  exact absurd refused (by decide +kernel)

end Phrasebook.Markup
