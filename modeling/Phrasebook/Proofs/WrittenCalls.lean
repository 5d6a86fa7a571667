import Phrasebook.Proofs.Soundness

/-!
# Literals behind an opened call

A literal right behind a parenthesis is looked at through a window of fifty characters, of which the
parenthesis takes the last. The window shows a call exactly if the text before the parenthesis ends in
a known name, with white space behind it, that fits the other forty-nine (`ShowsName`,
`isLocalizedAt_opened_iff`). What stands before the name matters only if the window reaches that far: a
name that fills the window is taken for a whole word.

Without a place, a literal counts as localized if it does so at one of its occurrences, where those that
overlap count too (`localized_anywhere_iff`).
-/

namespace Phrasebook.Lookup

variable {names : List Text} {opened front name blanks : Text}

/-- A text that ends in a known name and white space, of which the window before a literal shows the
whole name and no part of a longer word. -/
structure ShowsName (names : List Text) (opened front name blanks : Text) : Prop where
  split : opened = front ++ (name ++ blanks)
  known : name ∈ knownNames names
  blank : ∀ c ∈ blanks, isAsciiBlank c = true
  fits : name.length + blanks.length < window
  boundary : name.length + blanks.length + 1 = window ∨
    ∀ c, front.getLast? = some c → isAsciiWord c = false ∧ c ≠ '$'

/-- The window before a literal behind a parenthesis ends with the parenthesis. -/
lemma windowBefore_opened (opened rest : Text) :
    windowBefore (opened ++ '(' :: rest) (opened.length + 1) =
      opened.drop (opened.length + 1 - window) ++ ['('] := by
  have inside : opened.length + 1 - window ≤ opened.length := by
    rw [window]
    omega
  have length : (opened.drop (opened.length + 1 - window) ++ ['(']).length =
      opened.length + 1 - (opened.length + 1 - window) := by
    simp only [List.length_append, List.length_drop, List.length_singleton]
    omega
  rw [windowBefore, Text.slice, List.drop_append_of_le_length inside, List.append_cons,
    List.take_left' length]

/-- A text that ends in a parenthesis ends in a call if a known name stands before the parenthesis. -/
lemma endsInCall_opened_iff {shown : Text} :
    endsInCall names (shown ++ ['(']) = true ↔
      ∃ before name blanks, Opening names (shown ++ ['(']) before name blanks [] := by
  rw [endsInCall_iff]
  constructor
  · rintro ⟨before, name, blanks, rest, opening, blank⟩
    cases ends : rest.getLast? with
    | none =>
      obtain rfl := List.getLast?_eq_none_iff.1 ends
      exact ⟨before, name, blanks, opening⟩
    | some last =>
      -- the text would end in white space
      have same := congrArg List.getLast? opening.split
      simp only [List.getLast?_append, List.getLast?_cons, ends, Option.getD_some, Option.some_or,
        List.getLast?_nil, Option.getD_none, Option.some.injEq] at same
      have blankLast := blank last (List.mem_of_getLast? ends)
      rw [← same] at blankLast
      exact absurd blankLast (by decide)
  · rintro ⟨before, name, blanks, opening⟩
    exact ⟨before, name, blanks, [], opening, fun _ mem => (List.not_mem_nil mem).elim⟩

lemma ShowsName.of_opening {before : Text}
    (opening : Opening names (opened.drop (opened.length + 1 - window) ++ ['(']) before name blanks []) :
    ShowsName names opened (opened.take (opened.length + 1 - window) ++ before) name blanks := by
  have shown : opened.drop (opened.length + 1 - window) = before ++ (name ++ blanks) := by
    have split := opening.split
    rw [← List.append_assoc, ← List.append_assoc] at split
    rw [← List.append_assoc]
    exact (List.append_inj' split rfl).1
  have length := congrArg List.length shown
  simp only [List.length_drop, List.length_append, window] at length
  refine ⟨?_, opening.known, opening.blank, ?_, ?_⟩
  · rw [List.append_assoc, ← shown, List.take_append_drop]
  · rw [window]
    omega
  · cases ends : before.getLast? with
    | none =>
      -- nothing of the text before the name is shown
      obtain rfl := List.getLast?_eq_none_iff.1 ends
      by_cases whole : opened.length + 1 - window = 0
      · right
        rw [whole]
        exact opening.boundary
      · left
        simp only [window, List.length_nil] at *
        omega
    | some last =>
      right
      rw [List.getLast?_append, ends, Option.some_or, ← ends]
      exact opening.boundary

lemma ShowsName.opening (shows : ShowsName names opened front name blanks) :
    Opening names (opened.drop (opened.length + 1 - window) ++ ['('])
      (front.drop (opened.length + 1 - window)) name blanks [] := by
  have length := congrArg List.length shows.split
  have fits := shows.fits
  simp only [List.length_append, window] at length fits
  have inside : opened.length + 1 - window ≤ front.length := by
    rw [window]
    omega
  refine ⟨?_, shows.known, ?_, shows.blank⟩
  · have shown : opened.drop (opened.length + 1 - window) =
        front.drop (opened.length + 1 - window) ++ (name ++ blanks) := by
      rw [← List.drop_append_of_le_length inside, ← shows.split]
    simp only [shown, List.append_assoc]
  · rw [List.getLast?_drop]
    split
    · intro c last
      cases last
    · rename_i more
      apply shows.boundary.resolve_left
      simp only [window] at *
      omega

/-- A literal behind a parenthesis is known as localized exactly if it holds a call itself or the text
before the parenthesis shows a known name. -/
lemma isLocalizedAt_opened_iff (names : List Text) (opened rest literal : Text) :
    isLocalizedAt names (opened ++ '(' :: rest) (opened.length + 1) literal = true ↔
      holdsCall names literal = true ∨
        ∃ front name blanks, ShowsName names opened front name blanks := by
  rw [isLocalizedAt, Bool.or_eq_true, windowBefore_opened, endsInCall_opened_iff]
  apply or_congr_right
  constructor
  · rintro ⟨before, name, blanks, opening⟩
    exact ⟨_, name, blanks, .of_opening opening⟩
  · rintro ⟨front, name, blanks, shows⟩
    exact ⟨_, name, blanks, shows.opening⟩

/-- A literal right behind the opening of a call is known to stand in it, if neither a word nor a
dollar sign ends before the name and the name fits the window. -/
lemma isLocalizedAt_call {before : Text} (rest literal : Text) (known : name ∈ knownNames names)
    (short : name.length < window) (boundary : mayStart before.getLast? = true) :
    isLocalizedAt names (before ++ name ++ '(' :: rest) (before.length + name.length + 1) literal =
      true := by
  rw [← List.length_append]
  refine (isLocalizedAt_opened_iff ..).2 (.inr ⟨before, name, [], ?_, known, nofun, short, ?_⟩)
  · rw [List.append_nil]
  · exact .inr (mayStart_iff.1 boundary)

example : isLocalizedAt [] "return$t('中')".toList 9 "'中'".toList = false := by
  decide

lemma mem_knownNames (known : name ∈ defaultNames ∨ name ∈ names) (nonempty : 1 ≤ name.length) :
    name ∈ knownNames names := by
  rw [knownNames, List.mem_append, List.mem_filter]
  refine known.imp_right fun configured => ⟨configured, ?_⟩
  rw [Bool.not_eq_true', List.isEmpty_eq_false_iff]
  exact List.ne_nil_of_length_pos nonempty

/-- A call just written is known again: its literal is, behind every text that ends neither in a word
character nor in a dollar sign, for every default or configured name of 1 to 49 characters, whatever
the other names are. And a literal behind a parenthesis is known for no other reason than a known name
before the parenthesis, or a call in the literal itself. -/
theorem written_call_recognised (names : List Text) (literal rest : Text) :
    (∀ before name : Text, name ∈ defaultNames ∨ name ∈ names →
      1 ≤ name.length → name.length ≤ 49 →
      (∀ c, before.getLast? = some c → isAsciiWord c = false ∧ c ≠ '$') →
      isLocalizedAt names (before ++ name ++ '(' :: (literal ++ rest))
        (before ++ name ++ ['(']).length literal = true) ∧
    ∀ opened : Text,
      isLocalizedAt names (opened ++ '(' :: (literal ++ rest)) (opened ++ ['(']).length literal = true ↔
        holdsCall names literal = true ∨
          ∃ front name blanks, ShowsName names opened front name blanks := by
  constructor
  · intro before name known nonempty short boundary
    rw [List.length_append, List.length_append, List.length_singleton]
    apply isLocalizedAt_call (literal ++ rest) literal (mem_knownNames known nonempty)
    · exact Nat.lt_succ_of_le short
    · exact mayStart_iff.2 boundary
  · intro opened
    rw [List.length_append, List.length_singleton]
    exact isLocalizedAt_opened_iff names opened (literal ++ rest) literal

/-- A name that fills the window, with another configured name as its beginning and its end. -/
theorem written_call_recognised_full_window :
    isLocalizedAt [['n'], List.replicate 49 'n']
      ("(a, ".toList ++ List.replicate 49 'n' ++ '(' :: ("'中'".toList ++ ")".toList)) 54
      "'中'".toList = true :=
  (written_call_recognised [['n'], List.replicate 49 'n'] "'中'".toList ")".toList).1 "(a, ".toList
    (List.replicate 49 'n') (.inr (by decide)) (by decide) (by decide) (by
      intro c last
      cases last
      decide)

/-! ## Wherever a literal occurs -/

/-- The window before an occurrence shows the last characters of what stands before it. -/
lemma windowBefore_occurrence (before span rest : Text) :
    windowBefore (before ++ span ++ rest) before.length = before.drop (before.length - window) := by
  rw [windowBefore, List.append_assoc]
  exact Text.slice_to_end before (span ++ rest) _

/-- A literal at an occurrence is known as localized exactly if a lookup call opens in the literal, or
opens last among the fifty characters before it. -/
lemma isLocalizedAt_occurrence_iff {before span rest : Text} :
    isLocalizedAt names (before ++ span ++ rest) before.length span = true ↔
      (∃ front name blanks behind, Opening names span front name blanks behind) ∨
        ∃ front name blanks behind,
          Opening names (before.drop (before.length - window)) front name blanks behind ∧
            ∀ c ∈ behind, isAsciiBlank c = true := by
  rw [isLocalizedAt, Bool.or_eq_true, windowBefore_occurrence, holdsCall_iff, endsInCall_iff]

/-- With and without a place, the answers agree: a literal counts as localized in a text exactly if it
holds a lookup call or the text can be cut around it, in whatever way, so that it counts at that place.
At such a place it counts exactly if a lookup call opens in the literal itself, or opens last among the
fifty characters before it, or as many as there are. -/
theorem localized_anywhere_iff (names : List Text) (buffer span : Text) :
    (isLocalizedAnywhere names buffer span = true ↔
      holdsCall names span = true ∨
        ∃ before rest, buffer = before ++ span ++ rest ∧
          isLocalizedAt names buffer before.length span = true) ∧
    ∀ before rest : Text,
      isLocalizedAt names (before ++ span ++ rest) before.length span = true ↔
        (∃ front name blanks behind, Opening names span front name blanks behind) ∨
          ∃ front name blanks behind,
            Opening names (before.drop (before.length - 50)) front name blanks behind ∧
              ∀ c ∈ behind, isAsciiBlank c = true := by
  constructor
  · rw [isLocalizedAnywhere, Bool.or_eq_true, List.any_eq_true]
    constructor
    · rintro (holds | ⟨i, occurs, ends⟩)
      · exact .inl holds
      · obtain ⟨before, rest, split, rfl⟩ := Text.mem_occurrences_iff.1 occurs
        exact .inr ⟨before, rest, split, Bool.or_eq_true_iff.2 (.inr ends)⟩
    · rintro (holds | ⟨before, rest, split, localized⟩)
      · exact .inl holds
      · apply (Bool.or_eq_true_iff.1 localized).imp_right
        intro ends
        exact ⟨before.length, Text.mem_occurrences_iff.2 ⟨before, rest, split, rfl⟩, ends⟩
  · intro before rest
    exact isLocalizedAt_occurrence_iff

/-- Of two occurrences that overlap, only the second stands behind an opened call. -/
example :
    isLocalizedAnywhere [] "t(((".toList "((".toList = true ∧
      isLocalizedAt [] "t(((".toList 1 "((".toList = false ∧
      isLocalizedAt [] "t(((".toList 2 "((".toList = true := by
  decide

end Phrasebook.Lookup
