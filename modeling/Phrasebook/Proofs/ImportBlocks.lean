import Phrasebook.Proofs.AddedLines
import Phrasebook.Proofs.CallLiterals

/-!
# Imports over several lines

An import may be written over several lines, with a name on each and a comment behind some of them.
Where such an import ends is guessed line by line, with the comments left in. A comment that names a
module or ends in a semicolon looks like the end of the import (`endsImport_strip_line_iff`), and the
next line then looks like code, unless its name begins like another import
(`startsImport_strip_line_iff`). A statement that is put in keeps the import whole exactly if no
comment misleads in this way.
-/

namespace Phrasebook

namespace Script

/-! ## Blocks of lines -/

/-- The characters that a name may have here: neither white space nor quotes, nor a sign that ends the
name or begins a comment. -/
def isNameChar (c : Char) : Bool :=
  !isBlank c && !Prose.isQuote c && c != ',' && c != '/' && c != '*'

/-- White space within a line. -/
def IsSpacing (t : Text) : Prop :=
  ∀ c ∈ t, isBlank c = true ∧ c ≠ '\n'

/-- A line of an import that holds one name, with a comment behind it or none. -/
structure Specifier where
  /-- The white space in front of the name. -/
  indent : Text
  /-- The name. -/
  name : Text
  /-- The white space behind the comma. -/
  gap : Text
  /-- The text of the line comment. -/
  note : Option Text
  indent_spacing : IsSpacing indent
  name_filled : name ≠ []
  name_chars : ∀ c ∈ name, isNameChar c = true
  gap_spacing : IsSpacing gap
  note_unbroken : ∀ text ∈ note, '\n' ∉ text

namespace Specifier

/-- The line comment with its slashes. -/
def remark (s : Specifier) : Text :=
  match s.note with
  | none => []
  | some text => '/' :: '/' :: text

/-- The line that a specifier takes. -/
def line (s : Specifier) : Text :=
  s.indent ++ (s.name ++ ',' :: (s.gap ++ s.remark))

end Specifier

/-- An import over several lines. -/
structure ImportBlock where
  /-- The lines with the names. -/
  specifiers : List Specifier
  /-- The module that the names come from. -/
  module : Text
  module_unbroken : '\n' ∉ module

/-- The line that names the module and closes an import. -/
def closingLine (module : Text) : Text :=
  "\x7d from '".toList ++ module ++ "'".toList

/-- The lines of an import. -/
def ImportBlock.lines (b : ImportBlock) : List Text :=
  "import \x7b".toList :: (b.specifiers.map Specifier.line ++ [closingLine b.module])

/-- A `from` clause with a module in quotes. -/
def IsFromClause (p : Text) : Prop :=
  ∃ gap q module q', p = "from".toList ++ (gap ++ q :: (module ++ [q'])) ∧
    (∀ c ∈ gap, isBlank c = true) ∧ module ≠ [] ∧ (∀ c ∈ module, Prose.isQuote c = false) ∧
    Prose.isQuote q = true ∧ Prose.isQuote q' = true

namespace Specifier

/-- Whether the comment of a line looks like the end of an import: it holds a `from` clause, or its
last sign is a semicolon. -/
def LooksFinal (s : Specifier) : Prop :=
  ∃ text ∈ s.note, (∃ p, IsFromClause p ∧ p <:+: text) ∨
    ∃ gap, (∀ c ∈ gap, isBlank c = true) ∧ ';' :: gap <:+ text

/-- Whether the name of a line looks like the start of an import: it begins with that word, and no
further character of a word follows, as in `import$`. -/
def LooksInitial (s : Specifier) : Prop :=
  ∃ rest, s.name = "import".toList ++ rest ∧ ∀ c ∈ rest.head?, isWord c = false

end Specifier

/-- Whether the lines of an import are read as one: a line that looks final is followed by one that
looks initial. -/
def Connected (ss : List Specifier) : Prop :=
  ∀ i s, ss[i]? = some s → s.LooksFinal → ∃ r, ss[i + 1]? = some r ∧ r.LooksInitial

/-! ## What a line looks like -/

/-- A piece without quotes stands before the first quote. -/
lemma prefix_of_unquoted {u v x y : Text} {q : Char} (same : u ++ v = x ++ q :: y)
    (unquoted : ∀ c ∈ u, Prose.isQuote c = false) (quote : Prose.isQuote q = true) : u <+: x := by
  rcases List.append_eq_append_iff.1 same with ⟨w, rfl, -⟩ | ⟨w, rfl, split⟩
  · exact List.prefix_append u w
  · cases w with
    | nil => simp
    | cons c w =>
      obtain rfl := (List.cons.inj split).1
      rw [unquoted q (by simp)] at quote
      cases quote

lemma quotedName?_isSome_iff {t : Text} :
    (quotedName? t).isSome = true ↔ ∃ q module q' rest, t = q :: (module ++ q' :: rest) ∧
      module ≠ [] ∧ (∀ c ∈ module, Prose.isQuote c = false) ∧
      Prose.isQuote q = true ∧ Prose.isQuote q' = true := by
  constructor
  · intro found
    cases t with
    | nil => cases found
    | cons q t =>
      rw [quotedName?, Text.enclosed?] at found
      split at found
      · rename_i opens
        split at found
        · cases found
        · rename_i q' rest behind
          have closes : Prose.isQuote q' = true := by
            have stop := List.head?_dropWhile_not (!Prose.isQuote ·) t
            rw [behind] at stop
            simpa using stop
          refine ⟨q, t.takeWhile (!Prose.isQuote ·), q', rest, ?_, ?_, fun c mem => ?_, opens, closes⟩
          · rw [← behind, List.takeWhile_append_dropWhile]
          · rintro empty
            rw [empty] at found
            cases found
          · simpa using List.mem_takeWhile_imp mem
      · cases found
  · rintro ⟨q, module, q', rest, rfl, filled, unquoted, opens, closes⟩
    have inside : ∀ c ∈ module, (!Prose.isQuote c) = true := fun c mem => by rw [unquoted c mem]; rfl
    rw [quotedName?, Text.enclosed?, if_pos opens, List.dropWhile_append_of_pos inside,
      List.takeWhile_append_of_pos inside]
    simp [closes, filled]

/-- A module is read at the start of a text exactly if it starts with a `from` clause. -/
lemma fromModule?_isSome_iff {t : Text} :
    (fromModule? t).isSome = true ↔ ∃ p, IsFromClause p ∧ p <+: t := by
  constructor
  · intro found
    rw [fromModule?, Option.isSome_bind, Option.any_eq_true] at found
    obtain ⟨rest, after, named⟩ := found
    rw [Option.isSome_map] at named
    obtain ⟨q, module, q', behind, split, filled, unquoted, opens, closes⟩ :=
      quotedName?_isSome_iff.1 named
    refine ⟨_, ⟨rest.takeWhile isBlank, q, module, q', rfl, fun c mem => List.mem_takeWhile_imp mem,
      filled, unquoted, opens, closes⟩, behind, ?_⟩
    rw [Text.eq_append_of_after? after]
    nth_rewrite 2 [← List.takeWhile_append_dropWhile (p := isBlank) (l := rest)]
    rw [split]
    simp
  · rintro ⟨p, ⟨gap, q, module, q', rfl, blank, filled, unquoted, opens, closes⟩, behind, rfl⟩
    have skipped : (gap ++ q :: (module ++ [q']) ++ behind).dropWhile isBlank =
        q :: (module ++ q' :: behind) := by
      rw [List.append_assoc, List.dropWhile_append_of_pos blank, List.cons_append,
        List.dropWhile_cons_of_neg (Bool.eq_false_iff.1 (not_blank_of_isQuote opens)),
        List.append_assoc, List.singleton_append]
    rw [List.append_assoc, fromModule?, Text.after?_append, Option.bind_some, Option.isSome_map, skipped]
    exact quotedName?_isSome_iff.2 ⟨q, module, q', behind, rfl, filled, unquoted, opens, closes⟩

lemma firstFit_isSome_iff {α : Type} {read : Text → Option α} {t : Text} :
    (Text.firstFit read t).isSome = true ↔ ∃ u, (read u).isSome = true ∧ u <:+ t := by
  induction t with
  | nil => simp [Text.firstFit]
  | cons c t ih =>
    rw [Text.firstFit]
    cases here : read (c :: t) with
    | some a => exact ⟨fun _ => ⟨c :: t, by rw [here]; rfl, List.suffix_refl _⟩, fun _ => rfl⟩
    | none =>
      refine ih.trans ⟨?_, ?_⟩
      · rintro ⟨u, reads, later⟩
        exact ⟨u, reads, later.trans (List.suffix_cons c t)⟩
      · rintro ⟨u, reads, back⟩
        rcases List.suffix_cons_iff.1 back with rfl | later
        · rw [here] at reads
          cases reads
        · exact ⟨u, reads, later⟩

lemma firstFit_fromModule?_iff {t : Text} :
    (Text.firstFit fromModule? t).isSome = true ↔ ∃ p, IsFromClause p ∧ p <:+: t := by
  simp only [firstFit_isSome_iff, fromModule?_isSome_iff, List.infix_iff_prefix_suffix]
  constructor
  · rintro ⟨u, ⟨p, clause, front⟩, back⟩
    exact ⟨p, clause, u, front, back⟩
  · rintro ⟨p, clause, u, front, back⟩
    exact ⟨u, ⟨p, clause, front⟩, back⟩

/-- A `from` clause does not reach back over a slash before which there are no quotes. -/
lemma IsFromClause.infix_behind_slash_iff {p u v : Text} (clause : IsFromClause p)
    (unquoted : ∀ c ∈ u, Prose.isQuote c = false) : p <:+: u ++ '/' :: v ↔ p <:+: v := by
  refine ⟨fun inner => ?_, fun inner => inner.trans ⟨u ++ ['/'], [], by simp⟩⟩
  obtain ⟨gap, q, module, q', rfl, blank, -, -, opens, -⟩ := clause
  have front : ∀ c ∈ u ++ ['/'], Prose.isQuote c = false :=
    List.forall_mem_append.2 ⟨unquoted, List.forall_mem_singleton.2 rfl⟩
  rw [List.append_cons u '/' v] at inner
  rcases List.infix_append_iff.1 inner with before | behind | ⟨x, y, split, back, next⟩
  · have quoted := front q (before.subset (by simp))
    rw [opens] at quoted
    cases quoted
  · exact behind
  · rcases List.suffix_concat_iff.1 back with rfl | ⟨w, rfl, -⟩
    · rw [List.nil_append] at split
      exact split ▸ next.isInfix
    · -- the slash would stand between the word and the quote
      have lead : w ++ ['/'] <+: "from".toList ++ gap := by
        refine prefix_of_unquoted (split.symm.trans (List.append_assoc ..).symm) ?_ opens
        exact fun c mem => front c (back.subset mem)
      have among : '/' ∈ "from".toList ++ gap := lead.subset (by simp)
      rcases List.mem_append.1 among with word | space
      · exact absurd word (by decide)
      · exact absurd (blank '/' space) (by decide)

lemma IsFromClause.infix_trimEnd_iff {p t : Text} (clause : IsFromClause p) :
    p <:+: Text.trimEnd isBlank t ↔ p <:+: t := by
  refine ⟨fun inner => inner.trans (List.rdropWhile_prefix isBlank t).isInfix, ?_⟩
  rintro ⟨u, v, rfl⟩
  obtain ⟨gap, q, module, q', rfl, -, -, -, -, closes⟩ := clause
  have whole : u ++ ("from".toList ++ (gap ++ q :: (module ++ [q']))) ++ v =
      (u ++ ("from".toList ++ (gap ++ q :: module))) ++ q' :: v := by
    simp
  rw [whole, Text.trimEnd_behind (not_blank_of_isQuote closes)]
  exact ⟨u, Text.trimEnd isBlank v, by simp⟩

/-- The last character of a text, white space at its end aside. -/
lemma getLast?_trimEnd_iff {c : Char} (solid : isBlank c = false) {t : Text} :
    (Text.trimEnd isBlank t).getLast? = some c ↔
      ∃ gap, (∀ d ∈ gap, isBlank d = true) ∧ c :: gap <:+ t := by
  constructor
  · intro last
    obtain ⟨front, split⟩ := List.getLast?_eq_some_iff.1 last
    refine ⟨(t.reverse.takeWhile isBlank).reverse, fun d mem => ?_, front, ?_⟩
    · exact List.mem_takeWhile_imp (List.mem_reverse.1 mem)
    · rw [List.append_cons, ← split, Text.trimEnd, ← List.reverse_append,
        List.takeWhile_append_dropWhile, List.reverse_reverse]
  · rintro ⟨gap, blank, front, rfl⟩
    have empty : Text.trimEnd isBlank gap = [] := List.rdropWhile_eq_nil_iff.2 blank
    rw [Text.trimEnd_behind solid, empty, List.getLast?_concat]

namespace Specifier

variable {s : Specifier}

lemma name_unquoted (s : Specifier) : ∀ c ∈ s.name, Prose.isQuote c = false := by
  intro c mem
  have plain := s.name_chars c mem
  simp only [isNameChar, Bool.and_eq_true, Bool.not_eq_true'] at plain
  exact plain.1.1.1.2

/-- A line stripped of white space is the name, the comma and what is left of the comment. -/
lemma strip_line (s : Specifier) :
    Text.strip s.line = s.name ++ ',' :: Text.trimEnd isBlank (s.gap ++ s.remark) := by
  obtain ⟨c, name, split⟩ := List.exists_cons_of_ne_nil s.name_filled
  have solid : isBlank c = false := by
    have plain := s.name_chars c (by rw [split]; exact List.mem_cons_self)
    simp only [isNameChar, Bool.and_eq_true, Bool.not_eq_true'] at plain
    exact plain.1.1.1.1
  have front : s.line.dropWhile isBlank = s.name ++ ',' :: (s.gap ++ s.remark) := by
    rw [line, List.dropWhile_append_of_pos fun d mem => (s.indent_spacing d mem).1, split,
      List.cons_append, List.dropWhile_cons_of_neg (Bool.eq_false_iff.1 solid)]
  rw [Text.strip, Text.trim, front, Text.trimEnd_behind (by decide)]

lemma trimEnd_remark_of_none (bare : s.note = none) :
    Text.trimEnd isBlank (s.gap ++ s.remark) = [] := by
  rw [remark, bare, List.append_nil]
  exact List.rdropWhile_eq_nil_iff.2 fun c mem => (s.gap_spacing c mem).1

lemma trimEnd_remark_of_some {text : Text} (noted : s.note = some text) :
    Text.trimEnd isBlank (s.gap ++ s.remark) =
      s.gap ++ '/' :: '/' :: Text.trimEnd isBlank text := by
  have split : s.gap ++ '/' :: '/' :: text = (s.gap ++ ['/']) ++ '/' :: text := by simp
  rw [remark, noted]
  exact (congrArg _ split).trans ((Text.trimEnd_behind (by decide) _ _).trans (by simp))

/-- A name and a comma are no import of a whole module. -/
lemma isBareImport_eq_false (s : Specifier) (w : Text) : isBareImport (s.name ++ ',' :: w) = false := by
  rw [Bool.eq_false_iff]
  intro bare
  unfold isBareImport at bare
  split at bare
  · cases bare
  · rename_i rest after
    obtain ⟨-, named⟩ := (Bool.and_eq_true ..).mp bare
    obtain ⟨q, module, q', behind, split, -, -, opens, -⟩ := quotedName?_isSome_iff.1 named
    have whole : s.name ++ [','] ++ w =
        ("import".toList ++ rest.takeWhile isBlank) ++ q :: (module ++ q' :: behind) := by
      rw [← split, List.append_assoc, List.append_assoc, List.takeWhile_append_dropWhile,
        ← Text.eq_append_of_after? after]
      rfl
    have lead := prefix_of_unquoted whole
      (List.forall_mem_append.2 ⟨s.name_unquoted, List.forall_mem_singleton.2 rfl⟩) opens
    have among : ',' ∈ "import".toList ++ rest.takeWhile isBlank := lead.subset (by simp)
    rcases List.mem_append.1 among with word | space
    · exact absurd word (by decide)
    · exact absurd (List.mem_takeWhile_imp space) (by decide)

/-- An import seems to end on a line exactly if its comment looks final. -/
lemma endsImport_strip_line_iff (s : Specifier) :
    endsImport (Text.strip s.line) = true ↔ s.LooksFinal := by
  rw [strip_line, endsImport, isBareImport_eq_false, Bool.or_false, Bool.or_eq_true,
    firstFit_fromModule?_iff, decide_eq_true_iff]
  cases noted : s.note with
  | none =>
    rw [trimEnd_remark_of_none noted]
    constructor
    · rintro (⟨p, ⟨gap, q, module, q', rfl, -, -, -, opens, -⟩, inner⟩ | last)
      · have among : q ∈ s.name ++ [','] := inner.subset (by simp)
        rcases List.mem_append.1 among with name | comma
        · rw [s.name_unquoted q name] at opens
          cases opens
        · rw [List.mem_singleton.1 comma] at opens
          cases opens
      · rw [List.getLast?_concat] at last
        cases last
    · rintro ⟨text, mem, -⟩
      rw [noted] at mem
      cases mem
  | some text =>
    have unquoted : ∀ c ∈ s.name ++ ',' :: (s.gap ++ ['/']), Prose.isQuote c = false := by
      simp only [List.forall_mem_append, List.forall_mem_cons]
      refine ⟨s.name_unquoted, rfl, fun c mem => ?_, rfl, by simp⟩
      rw [Bool.eq_false_iff]
      intro quote
      have solid := not_blank_of_isQuote quote
      rw [(s.gap_spacing c mem).1] at solid
      cases solid
    have split : s.name ++ ',' :: (s.gap ++ '/' :: '/' :: Text.trimEnd isBlank text) =
        (s.name ++ ',' :: (s.gap ++ ['/'])) ++ '/' :: Text.trimEnd isBlank text := by
      simp
    have last : ((s.name ++ ',' :: (s.gap ++ ['/'])) ++ '/' :: Text.trimEnd isBlank text).getLast? =
        some ';' ↔ (Text.trimEnd isBlank text).getLast? = some ';' := by
      rw [List.getLast?_append, List.getLast?_cons]
      cases (Text.trimEnd isBlank text).getLast? with
      | none => simp
      | some c => simp
    have clauses : ∀ p, IsFromClause p ∧
        p <:+: (s.name ++ ',' :: (s.gap ++ ['/'])) ++ '/' :: Text.trimEnd isBlank text ↔
          IsFromClause p ∧ p <:+: text := by
      intro p
      refine and_congr_right fun clause => ?_
      rw [clause.infix_behind_slash_iff unquoted, clause.infix_trimEnd_iff]
    rw [trimEnd_remark_of_some noted, split, last, getLast?_trimEnd_iff (by decide), exists_congr clauses,
      LooksFinal, noted]
    simp

/-- An import seems to start on a line exactly if its name looks initial. -/
lemma startsImport_strip_line_iff (s : Specifier) :
    startsImport (Text.strip s.line) = true ↔ s.LooksInitial := by
  rw [strip_line, startsImport, afterWord?]
  generalize Text.trimEnd isBlank (s.gap ++ s.remark) = w
  constructor
  · intro starts
    obtain ⟨rest, found⟩ := Option.isSome_iff_exists.1 starts
    obtain ⟨after, ends⟩ := Option.filter_eq_some_iff.1 found
    rcases List.append_eq_append_iff.1 (Text.eq_append_of_after? after) with
      ⟨x, word, split⟩ | ⟨x, name, rfl⟩
    · cases x with
      | nil => exact ⟨[], by rw [word, List.append_nil, List.append_nil], by simp⟩
      | cons c x =>
        have comma : ',' ∈ "import".toList := by
          rw [word, (List.cons.inj split).1]
          simp
        exact absurd comma (by decide)
    · refine ⟨x, name, fun c first => ?_⟩
      cases x with
      | nil => cases first
      | cons d x =>
        cases first
        simpa [Prose.endsWord] using ends
  · rintro ⟨rest, name, ends⟩
    rw [name, List.append_assoc, Text.after?_append, Option.isSome_filter, Option.any_some]
    cases rest with
    | nil => exact (by decide : Prose.endsWord isWord (some ',') = true)
    | cons c rest => simp [Prose.endsWord, ends c rfl]

lemma isCommentLine_strip_line (s : Specifier) : isCommentLine (Text.strip s.line) = false := by
  obtain ⟨c, name, split⟩ := List.exists_cons_of_ne_nil s.name_filled
  have plain := s.name_chars c (by rw [split]; exact List.mem_cons_self)
  simp only [isNameChar, Bool.and_eq_true, bne_iff_ne] at plain
  obtain ⟨⟨-, slash⟩, star⟩ := plain
  rw [strip_line, split]
  simp [isCommentLine, List.isPrefixOf, Ne.symm slash, Ne.symm star]

lemma isEmpty_strip_line (s : Specifier) : (Text.strip s.line).isEmpty = false := by
  rw [strip_line]
  simp

lemma unbroken_line (s : Specifier) : '\n' ∉ s.line := by
  have name : '\n' ∉ s.name := fun mem => absurd (s.name_chars _ mem) (by decide)
  have indent : '\n' ∉ s.indent := fun mem => (s.indent_spacing _ mem).2 rfl
  have gap : '\n' ∉ s.gap := fun mem => (s.gap_spacing _ mem).2 rfl
  have remark : '\n' ∉ s.remark := by
    rw [Specifier.remark]
    cases noted : s.note with
    | none => exact List.not_mem_nil
    | some text => simpa using s.note_unbroken text noted
  simp [line, name, indent, gap, remark]

end Specifier

/-! ## The end of an import -/

lemma le_sectionFrom {pos found : Nat} (isOpen : Bool) (ls : List Text) (within : found ≤ pos) :
    found ≤ sectionFrom pos found isOpen ls := by
  induction ls generalizing pos found isOpen with
  | nil => exact Nat.le_refl _
  | cons l ls ih =>
    have later : found ≤ pos + 1 := Nat.le_succ_of_le within
    unfold sectionFrom
    dsimp only
    split
    · exact later.trans (ih _ (Nat.le_refl _))
    · split
      · exact ih _ later
      · split
        · exact later.trans (ih _ (Nat.le_refl _))
        · split
          · exact Nat.le_refl _
          · exact ih _ later

/-- Whether an import that is open or not, as `isOpen` says, is open behind the given lines, with no
line of code among them. -/
def keepsOpen : Bool → List Specifier → Bool
  | isOpen, [] => isOpen
  | isOpen, s :: ss =>
    (isOpen || startsImport (Text.strip s.line)) && keepsOpen (!endsImport (Text.strip s.line)) ss

/-- What one line with a name does: it goes on with an import or starts one, or else it is code. -/
lemma sectionFrom_line {pos : Nat} (positive : 0 < pos) (isOpen : Bool) (s : Specifier)
    (ls : List Text) :
    sectionFrom pos pos isOpen (s.line :: ls) =
      if isOpen || startsImport (Text.strip s.line) then
        sectionFrom (pos + 1) (pos + 1) (!endsImport (Text.strip s.line)) ls
      else pos := by
  rw [sectionFrom, s.isCommentLine_strip_line, s.isEmpty_strip_line]
  cases isOpen with
  | true => rfl
  | false => simp [positive]

/-- The closing line belongs to an import that is open, and is code otherwise. -/
lemma sectionFrom_closingLine {pos : Nat} (positive : 0 < pos) (isOpen : Bool) (module : Text)
    (ls : List Text) :
    (isOpen = true → pos + 1 ≤ sectionFrom pos pos isOpen (closingLine module :: ls)) ∧
      (isOpen = false → sectionFrom pos pos isOpen (closingLine module :: ls) = pos) := by
  constructor
  · rintro rfl
    rw [sectionFrom]
    exact le_sectionFrom _ ls (Nat.le_refl _)
  · rintro rfl
    have shape : ∃ t, Text.strip (closingLine module) = '\x7d' :: t := by
      have front : (closingLine module).dropWhile isBlank = [] ++ '\x7d' :: (closingLine module).tail :=
        rfl
      rw [Text.strip, Text.trim, front, Text.trimEnd_behind (by decide)]
      exact ⟨_, rfl⟩
    obtain ⟨t, shape⟩ := shape
    rw [sectionFrom, shape]
    simp [isCommentLine, startsImport, afterWord?, Text.after?, List.isPrefixOf, positive]

/-- Along the lines with the names: the closing line is reached in an open import, or the section ends
before it. -/
lemma sectionFrom_lines {pos : Nat} (positive : 0 < pos) (isOpen : Bool) (ss : List Specifier)
    (module : Text) (rest : List Text) :
    (keepsOpen isOpen ss = true → pos + ss.length + 1 ≤
        sectionFrom pos pos isOpen (ss.map Specifier.line ++ closingLine module :: rest)) ∧
      (keepsOpen isOpen ss = false →
        sectionFrom pos pos isOpen (ss.map Specifier.line ++ closingLine module :: rest) ≤
          pos + ss.length) := by
  induction ss generalizing pos isOpen with
  | nil =>
    obtain ⟨opened, closed⟩ := sectionFrom_closingLine positive isOpen module rest
    exact ⟨opened, fun shut => Nat.le_of_eq (closed shut)⟩
  | cons s ss ih =>
    have next : pos + (ss.length + 1) = pos + 1 + ss.length := by omega
    obtain ⟨opened, closed⟩ := ih (Nat.succ_pos pos) (!endsImport (Text.strip s.line))
    rw [List.map_cons, List.cons_append, sectionFrom_line positive, keepsOpen, List.length_cons, next]
    cases isOpen || startsImport (Text.strip s.line) with
    | true =>
      rw [Bool.true_and, if_pos rfl]
      exact ⟨opened, closed⟩
    | false =>
      rw [Bool.false_and, if_neg Bool.false_ne_true]
      exact ⟨fun keeps => absurd keeps Bool.false_ne_true, fun _ => by omega⟩

lemma connected_cons_iff {s : Specifier} {ss : List Specifier} :
    Connected (s :: ss) ↔
      (s.LooksFinal → ∃ r, ss[0]? = some r ∧ r.LooksInitial) ∧ Connected ss := by
  constructor
  · intro all
    exact ⟨all 0 s rfl, fun i r found => all (i + 1) r found⟩
  · rintro ⟨first, rest⟩ i r found
    cases i with
    | zero =>
      cases found
      exact first
    | succ i => exact rest i r found

lemma keepsOpen_iff (isOpen : Bool) (ss : List Specifier) :
    keepsOpen isOpen ss = true ↔
      (isOpen = false → ∃ r, ss[0]? = some r ∧ r.LooksInitial) ∧ Connected ss := by
  induction ss generalizing isOpen with
  | nil => cases isOpen <;> simp [keepsOpen, Connected]
  | cons s ss ih =>
    rw [keepsOpen, Bool.and_eq_true, Bool.or_eq_true, ih, connected_cons_iff,
      s.startsImport_strip_line_iff, Bool.not_eq_false', s.endsImport_strip_line_iff]
    refine and_congr_left fun _ => ?_
    cases isOpen <;> simp

lemma keepsOpen_true_iff {ss : List Specifier} : keepsOpen true ss = true ↔ Connected ss := by
  rw [keepsOpen_iff]
  simp

instance (ss : List Specifier) : Decidable (Connected ss) :=
  decidable_of_iff _ keepsOpen_true_iff

namespace ImportBlock

lemma unbroken_lines (b : ImportBlock) : ∀ l ∈ b.lines, '\n' ∉ l := by
  have close : '\n' ∉ closingLine b.module := by
    intro mem
    rcases List.mem_append.1 mem with front | quote
    · rcases List.mem_append.1 front with word | inner
      · exact absurd word (by decide)
      · exact b.module_unbroken inner
    · exact absurd quote (by decide)
  simp only [lines, List.forall_mem_cons, List.forall_mem_append, List.forall_mem_map]
  refine ⟨by decide, fun s _ => s.unbroken_line, close, ?_⟩
  rintro l ⟨⟩

lemma length_lines (b : ImportBlock) : b.lines.length = b.specifiers.length + 2 := by
  simp [lines]

/-- A statement is put behind all lines of an import, or else behind some of them. -/
lemma importPlace_lines (b : ImportBlock) (rest : List Text) :
    0 < importPlace (b.lines ++ rest) ∧
      (b.lines.length ≤ importPlace (b.lines ++ rest) ↔ Connected b.specifiers) := by
  have first : importSection (b.lines ++ rest) = sectionFrom 1 1 true
      (b.specifiers.map Specifier.line ++ closingLine b.module :: rest) := by
    rw [lines, List.cons_append, List.append_assoc]
    rfl
  have positive : 0 < importSection (b.lines ++ rest) := by
    rw [first]
    exact le_sectionFrom true _ (Nat.le_refl 1)
  obtain ⟨opened, closed⟩ := sectionFrom_lines Nat.one_pos true b.specifiers b.module rest
  have place : importPlace (b.lines ++ rest) = importSection (b.lines ++ rest) := if_pos positive
  refine ⟨place ▸ positive, ?_⟩
  rw [place, first, length_lines, ← keepsOpen_true_iff]
  refine ⟨fun behind => ?_, fun keeps => ?_⟩
  · by_contra shut
    have within := closed (Bool.eq_false_iff.2 shut)
    omega
  · have behind := opened keeps
    omega

end ImportBlock

/-- A statement is put between two lines of a script. In a script that starts with an import over
several lines it comes behind all of these, so that they stay together, exactly if each line whose
comment looks like the end of the import is followed by one whose name looks like the start of another.
Otherwise it comes between two lines of the import. -/
theorem insertImport_keeps_block_iff (b : ImportBlock) (rest : List Text) (statement : Text) :
    ∃ front back, Text.lines (Text.unlines (b.lines ++ rest)) = front ++ back ∧
      insertImport (Text.unlines (b.lines ++ rest)) statement =
        Text.unlines (front ++ statement :: back) ∧
      (b.lines <+: front ↔ Connected b.specifiers) ∧
      (¬Connected b.specifiers → ∃ inner, b.lines = front ++ inner ∧ front ≠ [] ∧ inner ≠ []) := by
  have filled : b.lines ++ rest ≠ [] := by simp [ImportBlock.lines]
  have split : Text.lines (Text.unlines (b.lines ++ rest)) = b.lines ++ rest.flatMap Text.lines := by
    rw [Text.lines_unlines_flatMap filled, List.flatMap_append, Text.flatMap_lines b.unbroken_lines]
  obtain ⟨positive, behind⟩ := b.importPlace_lines (rest.flatMap Text.lines)
  have within := importPlace_le (b.lines ++ rest.flatMap Text.lines)
  rw [insertImport, split, insertLines]
  generalize rest.flatMap Text.lines = below at positive behind within ⊢
  generalize importPlace (b.lines ++ below) = n at positive behind within ⊢
  refine ⟨(b.lines ++ below).take n, (b.lines ++ below).drop n, (List.take_append_drop n _).symm, ?_, ?_,
    fun divided => ?_⟩
  · rw [List.append_assoc]
    rfl
  · rw [← behind]
    refine ⟨fun front => front.length_le.trans (List.length_take_le n _), fun reach => ?_⟩
    rw [List.take_append, List.take_of_length_le reach]
    exact List.prefix_append _ _
  · have inside : n < b.lines.length := Nat.lt_of_not_le (mt behind.1 divided)
    refine ⟨b.lines.drop n, ?_, ?_, ?_⟩
    · rw [List.take_append_of_le_length (Nat.le_of_lt inside), List.take_append_drop]
    · rw [List.take_append_of_le_length (Nat.le_of_lt inside), ne_eq, List.take_eq_nil_iff]
      rintro (zero | empty)
      · omega
      · rw [empty] at inside
        cases inside
    · rw [ne_eq, List.drop_eq_nil_iff]
      omega

lemma isSpacing_replicate (n : Nat) : IsSpacing (List.replicate n ' ') := by
  intro c mem
  rw [List.eq_of_mem_replicate mem]
  decide

/-- An import of two names with a comment that tells where the first one came from. -/
def notedBlock : ImportBlock where
  specifiers := [
    { indent := List.replicate 2 ' '
      name := "ref".toList
      gap := List.replicate 1 ' '
      note := some " copied from 'x'".toList
      indent_spacing := isSpacing_replicate 2
      name_filled := by decide
      name_chars := List.all_eq_true.1 (by decide)
      gap_spacing := isSpacing_replicate 1
      note_unbroken := by decide },
    { indent := List.replicate 2 ' '
      name := "computed".toList
      gap := []
      note := none
      indent_spacing := isSpacing_replicate 2
      name_filled := by decide
      name_chars := List.all_eq_true.1 (by decide)
      gap_spacing := isSpacing_replicate 0
      note_unbroken := by decide }]
  module := "vue".toList
  module_unbroken := by decide

/-- The comment divides the import. -/
theorem notedBlock_divided :
    let script := "import \x7b\n  ref, // copied from 'x'\n  computed,\n\x7d from 'vue'\nconst a = 1".toList
    let statement := "import y from 'y'".toList
    Text.unlines (notedBlock.lines ++ ["const a = 1".toList]) = script ∧
      ∃ front inner back, notedBlock.lines = front ++ inner ∧ front ≠ [] ∧ inner ≠ [] ∧
        insertImport script statement = Text.unlines (front ++ statement :: back) := by
  intro script statement
  have same : Text.unlines (notedBlock.lines ++ ["const a = 1".toList]) = script := by rfl
  have divided : ¬Connected notedBlock.specifiers := by decide
  obtain ⟨front, back, -, put, -, within⟩ :=
    insertImport_keeps_block_iff notedBlock ["const a = 1".toList] statement
  obtain ⟨inner, split, above, below⟩ := within divided
  exact ⟨same, front, inner, back, split, above, below, same ▸ put⟩

end Script

end Phrasebook
