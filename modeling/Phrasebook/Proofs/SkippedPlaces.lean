import Phrasebook.Proofs.Frames

/-!
# Places of a script that terms keep away from

Literals in the declaration of a component's properties and on the lines that name modules are to be
left alone (`Script.LeftAlone`). The scanners for literals, template literals and fields ask for this
at each hit; the one for the texts between tags does not. So the terms of a script stand outside of
these places exactly if no text between tags that could be a term stands in them
(`extract_leaves_alone_iff`).

The scan for these texts is complete: no two of them overlap, so each one is a hit
(`mem_hits_of_opensOnce`).
-/

namespace Phrasebook

/-- A shape whose places open with a character that does not come up again in them. -/
def Shape.OpensOnce {α : Type} (shape : Shape α) (d : Char) : Prop :=
  ∀ prev t n a, shape prev t = some (n, a) → ∃ inner, t.take n = d :: inner ∧ d ∉ inner

namespace Text

variable {α : Type} {shape : Shape α} {d : Char} {n : Nat} {a : α}

/-- Where a shape opens only once, a scan misses no place behind what it is to pass over. -/
lemma mem_hitsFrom_of_opensOnce (once : shape.OpensOnce d) (skip pos : Nat) (prev : Option Char)
    {before rest : Text} (passed : d ∉ (before ++ rest).take skip)
    (read : shape (before.getLast?.or prev) rest = some (n, a)) :
    ⟨pos + before.length, pos + before.length + n, a⟩ ∈
      hitsFrom shape skip pos prev (before ++ rest) := by
  induction before generalizing skip pos prev with
  | nil =>
    obtain ⟨inner, span, -⟩ := once _ _ _ _ read
    cases rest with
    | nil => simp at span
    | cons c cs =>
      have opens : c = d := by
        cases n with
        | zero => cases span
        | succ n => exact (List.cons.inj span).1
      cases skip with
      | succ skip => exact absurd passed (by simp [opens])
      | zero =>
        simp only [List.getLast?_nil, Option.none_or] at read
        simp [hitsFrom, read]
  | cons c cs ih =>
    rw [getLast?_cons_or] at read
    -- behind the first character the scan goes on, with some of the rest to pass over
    have later : ∀ {skip}, d ∉ (cs ++ rest).take skip →
        ⟨pos + (c :: cs).length, pos + (c :: cs).length + n, a⟩ ∈
          hitsFrom shape skip (pos + 1) (some c) (cs ++ rest) := by
      intro skip passed
      have found := ih skip (pos + 1) (some c) passed read
      rwa [Nat.add_assoc, Nat.add_comm 1] at found
    cases skip with
    | succ skip =>
      refine later fun mem => passed ?_
      exact List.mem_cons_of_mem c mem
    | zero =>
      simp only [List.cons_append, hitsFrom]
      split
      · rename_i k b first
        refine List.mem_cons_of_mem _ (later ?_)
        obtain ⟨inner, span, free⟩ := once _ _ _ _ first
        cases k with
        | zero => cases span
        | succ k =>
          obtain ⟨-, rfl⟩ := List.cons.inj span
          exact free
      · exact later (by simp)

lemma mem_hits_of_opensOnce (once : shape.OpensOnce d) {t : Text} {i : Nat} (inside : i ≤ t.length)
    (read : shape (t.take i).getLast? (t.drop i) = some (n, a)) :
    ⟨i, i + n, a⟩ ∈ hits shape t := by
  rw [← Option.or_none (o := (t.take i).getLast?)] at read
  have found := mem_hitsFrom_of_opensOnce once 0 0 none (by simp) read
  rwa [List.take_append_drop, Nat.zero_add, List.length_take, Nat.min_eq_left inside] at found

end Text

namespace Term

variable {prev : Option Char} {text t inner : Text} {n i : Nat} {names : List Text}

/-- The characters that no text between the tags of a script holds. -/
def tagDelimiters : List Char :=
  ['<', '>', '\x7b', '\x7d']

lemma jsxBodyShape_eq_some_iff :
    jsxBodyShape prev t = some (n, inner) ↔
      ∃ rest, t = '>' :: inner ++ '<' :: rest ∧ inner ≠ [] ∧ (∀ c ∈ inner, c ∉ tagDelimiters) ∧
        n = inner.length + 2 := by
  constructor
  · intro read
    unfold jsxBodyShape at read
    split at read
    · rename_i rest
      dsimp only at read
      split at read
      · rename_i fits
        obtain ⟨rfl, rfl⟩ := Prod.mk.inj (Option.some.inj read)
        simp only [Bool.and_eq_true, Bool.not_eq_true', decide_eq_true_eq] at fits
        obtain ⟨behind, split⟩ := Text.eq_run_append fits.2
        refine ⟨behind, congrArg ('>' :: ·) split, List.isEmpty_eq_false_iff.1 fits.1, ?_, rfl⟩
        intro c mem
        have kept := List.mem_takeWhile_imp mem
        simpa [tagDelimiters, and_assoc] using kept
      · cases read
    · cases read
  · rintro ⟨rest, rfl, nonempty, plain, rfl⟩
    have kept : ∀ c ∈ inner,
        (c != '<' && c != '>' && c != '\x7b' && c != '\x7d') = true := by
      intro c mem
      simpa [tagDelimiters, and_assoc] using plain c mem
    have run : (inner ++ '<' :: rest).takeWhile
        (fun c => c != '<' && c != '>' && c != '\x7b' && c != '\x7d') = inner := by
      rw [List.takeWhile_append_of_pos kept]
      simp
    simp [jsxBodyShape, run, nonempty]

lemma take_bracketed (inner rest : Text) :
    ('>' :: inner ++ '<' :: rest).take (inner.length + 2) = '>' :: inner ++ ['<'] := by
  rw [List.append_cons]
  exact List.take_left' (by simp)

lemma jsxBodyShape_opensOnce : jsxBodyShape.OpensOnce '>' := by
  intro prev t n inner read
  obtain ⟨rest, rfl, -, plain, rfl⟩ := jsxBodyShape_eq_some_iff.1 read
  refine ⟨inner ++ ['<'], take_bracketed inner rest, ?_⟩
  rw [List.mem_append, List.mem_singleton]
  rintro (mem | same)
  · exact plain '>' mem (by decide)
  · cases same

/-- A phrase between two tags of a script, with the brackets around it: it stands in the script
itself, not across a comment, and in no lookup call. -/
structure TagText (text : Text) (names : List Text) (i : Nat) (inner : Text) : Prop where
  stands : Text.slice text i (i + (inner.length + 2)) = '>' :: inner ++ ['<']
  uncommented : Text.slice (Comment.mask text) i (i + (inner.length + 2)) = '>' :: inner ++ ['<']
  nonempty : inner ≠ []
  undelimited : ∀ c ∈ inner, c ∉ tagDelimiters
  prose : Prose.isProse (Text.strip inner) = true
  unlocalized : Lookup.isLocalizedAt names (Comment.mask text) i ('>' :: inner ++ ['<']) = false

/-- The term of a text between tags. -/
def ofTagText (i : Nat) (inner : Text) : Term :=
  ⟨'>' :: inner ++ ['<'], Text.collapse (Text.strip inner), .tagBody, i⟩

/-- Every such text is a term, in a script that holds tags. -/
lemma TagText.mem_extract {o : Options} (tags : TagText text o.lookupNames i inner)
    (jsx : o.jsx = true) : ofTagText i inner ∈ extract text .script o := by
  obtain ⟨rest, behind⟩ : ∃ rest, (Comment.mask text).drop i = '>' :: inner ++ '<' :: rest := by
    have front : '>' :: inner ++ ['<'] <+: (Comment.mask text).drop i := by
      rw [← tags.uncommented]
      exact List.take_prefix _ _
    obtain ⟨rest, split⟩ := front
    exact ⟨rest, by rw [← split, List.append_assoc]; rfl⟩
  have inside : i ≤ (Comment.mask text).length := by
    apply Nat.le_of_not_lt
    intro outside
    rw [List.drop_of_length_le (Nat.le_of_lt outside)] at behind
    cases behind
  have hit : (⟨i, i + (inner.length + 2), inner⟩ : Hit Text) ∈
      Text.hits jsxBodyShape (sourceOf text .script o).masked :=
    Text.mem_hits_of_opensOnce jsxBodyShape_opensOnce inside
      (jsxBodyShape_eq_some_iff.2 ⟨rest, behind, tags.nonempty, tags.undelimited, rfl⟩)
  have span : (sourceOf text .script o).spanOf ⟨i, i + (inner.length + 2), inner⟩ =
      '>' :: inner ++ ['<'] := tags.uncommented
  have intact : (sourceOf text .script o).isIntact ⟨i, i + (inner.length + 2), inner⟩ = true := by
    rw [Source.isIntact, span]
    exact beq_iff_eq.2 tags.stands
  have cand := Candidate.jsxBody jsx hit intact tags.prose
  rw [Source.term, span] at cand
  exact mem_extract_iff.2 ⟨cand, .inr tags.unlocalized⟩

end Term

/-- A place of a script that is to be left alone: it lies in the declaration of a component's
properties or on a line that names a module, in the script with its comments blanked. -/
def Script.LeftAlone (text : Text) (i : Nat) : Prop :=
  inPropsDeclaration (Comment.mask text) i = true ∨ onModuleLine (Comment.mask text) i = true

instance (text : Text) (i : Nat) : Decidable (Script.LeftAlone text i) :=
  inferInstanceAs (Decidable (_ ∨ _))

namespace Term

open Script

variable {text inner : Text} {o : Options} {t : Term}

lemma isSkipped_iff {i : Nat} :
    (sourceOf text .script o).isSkipped i = true ↔ LeftAlone text i := by
  simp [Source.isSkipped, sourceOf, LeftAlone]

/-- A term that stands where it should not is a text between tags. -/
lemma tagText_of_leftAlone (mem : t ∈ extract text .script o) (inside : LeftAlone text t.offset) :
    o.jsx = true ∧ ∃ i inner, TagText text o.lookupNames i inner ∧ t = ofTagText i inner := by
  obtain ⟨cand, free⟩ := mem_extract_iff.1 mem
  have skipped := (isSkipped_iff (o := o)).2 inside
  have other : (sourceOf text .script o).isSkipped t.offset = false →
      o.jsx = true ∧ ∃ i inner, TagText text o.lookupNames i inner ∧ t = ofTagText i inner := by
    intro kept
    rw [skipped] at kept
    cases kept
  cases cand with
  | doubleQuoted _ _ _ _ kept _ => exact other kept
  | field _ _ kept _ => exact other kept
  | singleQuoted _ _ _ _ kept _ => exact other kept
  | backtick _ _ _ _ kept => exact other kept
  | tagBody markup _ _ _ _ _ _ => cases markup
  | elementBody markup _ _ _ _ _ _ => cases markup
  | @jsxBody h jsx hit intact prose =>
    obtain ⟨prev, read⟩ := Text.hits_read hit
    obtain ⟨rest, behind, nonempty, plain, size⟩ := jsxBodyShape_eq_some_iff.1 read
    have span : (sourceOf text .script o).spanOf h = '>' :: h.value ++ ['<'] := by
      rw [Source.spanOf, Text.slice, behind, size, take_bracketed]
    have stop : h.stop = h.start + (h.value.length + 2) := by omega
    have stands : Text.slice text h.start h.stop = (sourceOf text .script o).spanOf h :=
      beq_iff_eq.1 intact
    have unlocalized := free.resolve_left (by simp [isField, Source.term])
    rw [isLocalizedIn, Source.term, span] at unlocalized
    refine ⟨jsx, h.start, h.value, ⟨?_, ?_, nonempty, plain, prose, unlocalized⟩, ?_⟩
    · rw [← stop, stands, span]
    · rw [← stop]
      exact span
    · rw [Source.term, span]
      rfl

/-- The terms of a script stand outside of the places to be left alone exactly if the script is taken
to hold no tags, or none of its phrases between tags stands in such a place. Terms of any other kind
never do. -/
theorem extract_leaves_alone_iff (text : Text) (o : Options) :
    ((∀ t ∈ extract text .script o, ¬LeftAlone text t.offset) ↔
      o.jsx = false ∨ ∀ i inner, TagText text o.lookupNames i inner → ¬LeftAlone text i) ∧
    ∀ t ∈ extract text .script o, t.kind ≠ .tagBody → ¬LeftAlone text t.offset := by
  refine ⟨⟨fun outside => ?_, fun free t mem inside => ?_⟩, fun t mem other inside => ?_⟩
  · cases jsx : o.jsx with
    | false => exact .inl rfl
    | true => exact .inr fun i inner tags => outside _ (tags.mem_extract jsx)
  · obtain ⟨jsx, i, inner, tags, rfl⟩ := tagText_of_leftAlone mem inside
    rcases free with plain | outside
    · rw [jsx] at plain
      cases plain
    · exact outside i inner tags inside
  · obtain ⟨-, i, inner, -, rfl⟩ := tagText_of_leftAlone mem inside
    exact other rfl

/-- A phrase between tags that is the default of a property is a term all the same. -/
theorem extract_in_declaration :
    let text := "defineProps({ tip: { default: () => <p>中文</p> } })".toList
    let o : Options := { jsx := true }
    ¬∀ t ∈ extract text .script o, ¬LeftAlone text t.offset := by
  intro text o outside
  have tags : TagText text o.lookupNames 38 "中文".toList :=
    ⟨by decide +kernel, by decide +kernel, by decide, by simp [tagDelimiters], by decide +kernel,
      by decide +kernel⟩
  rcases (extract_leaves_alone_iff text o).1.1 outside with plain | free
  · cases plain
  · exact free 38 _ tags (by decide +kernel)

end Term

end Phrasebook
