import Phrasebook.Proofs.QuotePairs

/-!
# The frames of terms

Each kind of term stands in its source in a frame: two quotes, two angle brackets, the tags of an
element, or the name of a field with its quotes. `TermKind.Frames` says which texts are the span of
a term of some kind around a given inner text. Each shape takes such a text and reads what it frames
(`frames_quoted`, `frames_tagBodyShape` and their kin).
-/

namespace Phrasebook

namespace Text

lemma eq_append_of_after? {p t rest : Text} (h : after? p t = some rest) : t = p ++ rest := by
  unfold after? at h
  split at h
  · rename_i front
    cases h
    exact (List.prefix_iff_eq_append.1 (List.isPrefixOf_iff_prefix.1 front)).symm
  · cases h

/-- A text is its front run and what stands behind the run. -/
lemma eq_append_of_dropWhile {p : Char → Bool} {t rest : Text} (h : t.dropWhile p = rest) :
    t = t.takeWhile p ++ rest := by
  rw [← h, List.takeWhile_append_dropWhile]

/-- What is found in a text stands at the offset where it is found. -/
lemma prefix_drop_of_find? {p t : Text} {i : Nat} (h : find? p t = some i) : p <+: t.drop i := by
  induction t generalizing i with
  | nil =>
    simp only [find?] at h
    split at h
    · rename_i empty
      rw [List.isEmpty_iff.1 empty]
      exact List.nil_prefix
    · cases h
  | cons c cs ih =>
    simp only [find?] at h
    split at h
    · rename_i front
      cases h
      exact List.isPrefixOf_iff_prefix.1 front
    · obtain ⟨j, found, rfl⟩ := Option.map_eq_some_iff.1 h
      exact ih found

end Text

/-- How the span of a term stands around its inner text. -/
inductive TermKind.Frames : TermKind → Text → Text → Prop where
  | doubleQuoted {inner} : '"' ∉ inner → Frames .doubleQuoted ('"' :: inner ++ ['"']) inner
  | singleQuoted {inner} : '\'' ∉ inner → Frames .singleQuoted ('\'' :: inner ++ ['\'']) inner
  | backtick {inner} : '\x60' ∉ inner → Frames .backtick ('\x60' :: inner ++ ['\x60']) inner
  | tagBody {inner} : '<' ∉ inner → '>' ∉ inner → Frames .tagBody ('>' :: inner ++ ['<']) inner
  | elementBody {tag attributes inner} :
    tag ∈ Term.bodyTags →
    '>' ∉ attributes →
    (∀ c, attributes.head? = some c → isBlank c = true) →
    Frames (.elementBody tag attributes)
      ('<' :: tag ++ attributes ++ '>' :: inner ++ ("</".toList ++ tag ++ ['>'])) inner
  | field {name gap space inner} :
    name ≠ [] →
    (∀ c ∈ gap, isBlank c = true) →
    (∀ c ∈ space, isBlank c = true) →
    '\'' ∉ inner → '\n' ∉ inner → inner ≠ [] →
    Frames (.field name) (name ++ gap ++ ':' :: space ++ '\'' :: inner ++ ['\'']) inner

namespace Term

variable {prev : Option Char} {t inner : Text} {n : Nat}

lemma frames_quoted {q : Char} (read : quotedShape q prev t = some (n, inner)) :
    t.take n = q :: inner ++ [q] ∧ q ∉ inner := by
  obtain ⟨rest, rfl, free, rfl⟩ := quotedShape_eq_some_iff.1 read
  refine ⟨?_, free⟩
  rw [List.append_cons]
  exact List.take_left' (by simp)

/-- Two brackets around a run of characters, none of which is a bracket, frame the run. -/
lemma frames_run {p : Char → Bool} {rest : Text} (opens : p '<' = false) (closes : p '>' = false)
    (next : (rest.drop (rest.takeWhile p).length).head? = some '<') :
    TermKind.tagBody.Frames (('>' :: rest).take ((rest.takeWhile p).length + 2))
      (rest.takeWhile p) := by
  obtain ⟨behind, split⟩ := Text.eq_run_append next
  have outside : ∀ c, p c = false → c ∉ rest.takeWhile p := by
    intro c out mem
    exact absurd (List.mem_takeWhile_imp mem) (by simp [out])
  have span : ('>' :: rest).take ((rest.takeWhile p).length + 2) =
      '>' :: rest.takeWhile p ++ ['<'] := by
    generalize rest.takeWhile p = run at split ⊢
    rw [split, List.append_cons, ← List.cons_append]
    exact List.take_left' (by simp)
  rw [span]
  exact .tagBody (outside '<' opens) (outside '>' closes)

lemma frames_tagBodyShape (read : tagBodyShape prev t = some (n, inner)) :
    TermKind.tagBody.Frames (t.take n) inner := by
  unfold tagBodyShape at read
  split at read
  · dsimp only at read
    split at read
    · rename_i next
      cases read
      exact frames_run rfl rfl next
    · cases read
  · cases read

lemma frames_jsxBodyShape (read : jsxBodyShape prev t = some (n, inner)) :
    TermKind.tagBody.Frames (t.take n) inner := by
  unfold jsxBodyShape at read
  split at read
  · dsimp only at read
    split at read
    · rename_i next
      cases read
      simp only [Bool.and_eq_true, decide_eq_true_eq] at next
      exact frames_run rfl rfl next.2
    · cases read
  · cases read

lemma eq_of_attributesOf? {attributes rest : Text} (h : attributesOf? t = some (attributes, rest)) :
    t = attributes ++ '>' :: rest ∧ '>' ∉ attributes ∧
      ∀ c, attributes.head? = some c → isBlank c = true := by
  unfold attributesOf? at h
  split at h
  · cases h
    exact ⟨rfl, List.not_mem_nil, nofun⟩
  · rename_i c cs other
    split at h
    · rename_i blank
      split at h
      · rename_i d behind dropped
        cases h
        have closes := List.head?_dropWhile_not (· != '>') cs
        rw [dropped] at closes
        obtain rfl : d = '>' := by simpa using closes
        refine ⟨?_, ?_, ?_⟩
        · rw [List.cons_append, ← Text.eq_append_of_dropWhile dropped]
        · intro mem
          rcases List.mem_cons.1 mem with rfl | mem
          · exact other rfl
          · exact absurd (List.mem_takeWhile_imp mem) (by decide)
        · intro d head
          cases head
          exact blank
      · cases h
    · cases h
  · cases h

lemma frames_elementShape {e : Element} (read : elementShape prev t = some (n, e)) :
    (TermKind.elementBody e.tag e.attributes).Frames (t.take n) e.inner := by
  unfold elementShape at read
  split at read
  · rename_i rest
    obtain ⟨tag, known, found⟩ := List.exists_of_findSome?_eq_some read
    simp only [elementOf?] at found
    split at found
    · cases found
    · rename_i attributes behind opened
      obtain ⟨i, closed, same⟩ := Option.map_eq_some_iff.1 found
      obtain ⟨rfl, rfl⟩ := Prod.mk.inj same
      obtain ⟨tail, named, listed⟩ := Option.bind_eq_some_iff.1 opened
      obtain ⟨parts, free, blank⟩ := eq_of_attributesOf? listed
      obtain ⟨after, ends⟩ := Text.prefix_drop_of_find? closed
      have bound := Text.find?_add_le closed
      have whole : '<' :: rest = ('<' :: tag ++ attributes ++ '>' :: behind.take i ++
          ("</".toList ++ tag ++ ['>'])) ++ after := by
        rw [List.append_assoc, ends, Text.eq_append_of_after? named, parts]
        simp
      have span : ('<' :: rest).take (1 + tag.length + attributes.length + 1 + i +
          ("</".toList ++ tag ++ ['>']).length) =
          '<' :: tag ++ attributes ++ '>' :: behind.take i ++ ("</".toList ++ tag ++ ['>']) := by
        rw [whole]
        refine List.take_left' ?_
        simp only [List.length_append, List.length_cons, List.length_take] at bound ⊢
        omega
      rw [span]
      exact .elementBody known free blank
  · cases read

lemma frames_fieldOf? {name value : Text} (named : name ≠ []) (h : fieldOf? name t = some (n, value)) :
    (TermKind.field name).Frames (t.take n) value := by
  simp only [fieldOf?] at h
  split at h
  · rename_i rest front
    obtain ⟨tail, behind, dropped⟩ := Option.map_eq_some_iff.1 front
    split at h
    · rename_i r opened
      split at h
      · rename_i closed
        simp only [Bool.and_eq_true, Bool.not_eq_true', beq_iff_eq] at closed
        obtain ⟨nonempty, next⟩ := closed
        obtain ⟨after, ends⟩ := Text.eq_run_append next
        have outside : ∀ c, (c != '\'' && c != '\n') = false →
            c ∉ r.takeWhile fun c => c != '\'' && c != '\n' := by
          intro c out mem
          have inside := List.mem_takeWhile_imp mem
          rw [out] at inside
          cases inside
        have quote := outside '\'' rfl
        have feed := outside '\n' rfl
        cases h
        have whole : t = (name ++ tail.takeWhile isBlank ++ ':' :: rest.takeWhile isBlank ++
            '\'' :: (r.takeWhile fun c => c != '\'' && c != '\n') ++ ['\'']) ++ after := by
          have parts : t = name ++ (tail.takeWhile isBlank ++ ':' ::
              (rest.takeWhile isBlank ++ '\'' :: r)) := by
            rw [← Text.eq_append_of_dropWhile opened, ← Text.eq_append_of_dropWhile dropped]
            exact Text.eq_append_of_after? behind
          rw [parts]
          generalize (r.takeWhile fun c => c != '\'' && c != '\n') = run at ends ⊢
          simp [ends]
        have blanks : ∀ u : Text, ∀ c ∈ u.takeWhile isBlank, isBlank c = true :=
          fun u c mem => List.mem_takeWhile_imp mem
        have span : t.take (t.length -
              ((r.drop (r.takeWhile fun c => c != '\'' && c != '\n').length).length - 1)) =
            name ++ tail.takeWhile isBlank ++ ':' :: rest.takeWhile isBlank ++
              '\'' :: (r.takeWhile fun c => c != '\'' && c != '\n') ++ ['\''] := by
          have length := congrArg List.length whole
          have rest := congrArg List.length ends
          conv_lhs => rw [whole]
          refine List.take_left' ?_
          simp only [List.length_append, List.length_cons, List.length_drop, List.length_nil] at *
          omega
        rw [span]
        exact .field named (blanks tail) (blanks rest) quote feed (by simpa using nonempty)
      · cases h
    · cases h
  · cases h

lemma mem_of_fieldShape {names : List Text} {a : Text × Text}
    (read : fieldShape names prev t = some (n, a)) : a.1 ∈ names := by
  simp only [fieldShape] at read
  split at read
  · cases read
  · obtain ⟨name, listed, found⟩ := List.exists_of_findSome?_eq_some read
    obtain ⟨⟨m, value⟩, -, same⟩ := Option.map_eq_some_iff.1 found
    cases same
    exact (List.mem_filter.1 listed).1

lemma frames_fieldShape {names : List Text} {a : Text × Text}
    (read : fieldShape names prev t = some (n, a)) : (TermKind.field a.1).Frames (t.take n) a.2 := by
  simp only [fieldShape] at read
  split at read
  · cases read
  · obtain ⟨name, listed, found⟩ := List.exists_of_findSome?_eq_some read
    obtain ⟨⟨m, value⟩, field, same⟩ := Option.map_eq_some_iff.1 found
    cases same
    have named : name ≠ [] := by simpa using (List.mem_filter.1 listed).2
    exact frames_fieldOf? named field

end Term

end Phrasebook
