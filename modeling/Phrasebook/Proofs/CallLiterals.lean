import Phrasebook.Proofs.Frames
import Phrasebook.Proofs.Markers

/-!
# The literals of a script's calls

The phrase of a script's term is cut out of the script between a character that opens it and one
that closes it (`Shape.Encloses`). Stripping and joining words does not touch the backslashes at its
end (`escapesNext_strip`, `escapesNext_collapse`), nor does lettering its markers. So whether the
literal in the term's call is complete can be read off the script: it is, unless an odd run of
backslashes stands before the closing character (`isComplete_callOf_iff`).
-/

namespace Phrasebook

namespace Text

lemma trimEnd_behind {p : Char → Bool} {d : Char} (kept : p d = false) (before t : Text) :
    trimEnd p (before ++ d :: t) = before ++ d :: trimEnd p t := by
  induction t using List.reverseRecOn with
  | nil => exact List.rdropWhile_concat_neg p before d (by simp [kept])
  | append_singleton t c ih =>
    rw [← List.cons_append, ← List.append_assoc]
    by_cases drops : p c = true
    · have dropped : ∀ u : Text, trimEnd p (u ++ [c]) = trimEnd p u :=
        fun u => List.rdropWhile_concat_pos p u c drops
      rw [dropped, dropped, ih]
    · have stays : ∀ u : Text, trimEnd p (u ++ [c]) = u ++ [c] :=
        fun u => List.rdropWhile_concat_neg p u c drops
      rw [stays, stays]
      simp

lemma ne_backslash_of_isBlank {c : Char} (blank : isBlank c = true) : c ≠ '\\' := by
  rintro rfl
  exact absurd blank (by decide)

/-- White space in front of a text makes no difference to the backslashes at its end. -/
lemma escapesNext_strip (t : Text) : escapesNext (strip t) = escapesNext (trimEnd isBlank t) := by
  induction t with
  | nil => rfl
  | cons c cs ih =>
    by_cases blank : isBlank c = true
    · have shorter : strip (c :: cs) = strip cs := by
        rw [strip, trim, List.dropWhile_cons_of_pos blank]
        rfl
      rw [shorter, ih]
      by_cases all : ∀ d ∈ cs, isBlank d = true
      · have empty : trimEnd isBlank cs = [] := List.rdropWhile_eq_nil_iff.2 all
        have empty' : trimEnd isBlank (c :: cs) = [] :=
          List.rdropWhile_eq_nil_iff.2 (List.forall_mem_cons.2 ⟨blank, all⟩)
        rw [empty, empty']
      · simp only [not_forall, Bool.not_eq_true] at all
        obtain ⟨d, mem, solid⟩ := all
        obtain ⟨a, b, rfl⟩ := List.append_of_mem mem
        rw [← List.cons_append, trimEnd_behind solid, trimEnd_behind solid, List.cons_append]
        exact (escapesNext_behind (ne_backslash_of_isBlank blank) [] _).symm
    · rw [strip, trim, List.dropWhile_cons_of_neg blank]

lemma wordsBy_ne_nil {sep : Char → Bool} {t : Text} {d : Char} (mem : d ∈ t) (solid : sep d = false) :
    wordsBy sep t ≠ [] := by
  induction t with
  | nil => cases mem
  | cons c cs ih =>
    unfold wordsBy
    split
    · rename_i blank
      rcases List.mem_cons.1 mem with rfl | mem
      · rw [solid] at blank
        cases blank
      · exact ih mem
    · split
      · split <;> exact List.cons_ne_nil _ _
      · exact List.cons_ne_nil _ _

/-- Joining the words of a text goes character by character, where a word is still to come. -/
lemma collapse_cons {d e : Char} {ds : Text} (mem : e ∈ d :: ds) (solid : isBlank e = false)
    (c : Char) :
    collapse (c :: d :: ds) =
      if isBlank c then collapse (d :: ds)
      else if isBlank d then c :: ' ' :: collapse (d :: ds)
      else c :: collapse (d :: ds) := by
  obtain ⟨w, ws, words⟩ := List.exists_cons_of_ne_nil (wordsBy_ne_nil mem solid)
  have unfolds := wordsBy.eq_2 isBlank c d ds w ws words
  by_cases blank : isBlank c = true
  · rw [collapse, unfolds, if_pos blank, if_pos blank, collapse]
  · rw [if_neg blank] at unfolds ⊢
    by_cases gap : isBlank d = true
    · rw [collapse, unfolds, if_pos gap, if_pos gap, collapse, words]
      rfl
    · rw [collapse, unfolds, if_neg gap, if_neg gap, collapse, words]
      cases ws <;> rfl

lemma collapse_singleton {c : Char} (solid : isBlank c = false) : collapse [c] = [c] := by
  simp [collapse, wordsBy, solid]

/-- Joining the words of a text that does not end in white space keeps the backslashes at its end. -/
lemma escapesNext_collapse {t : Text} (solid : ∀ d, t.getLast? = some d → isBlank d = false) :
    escapesNext (collapse t) = escapesNext t ∧
      ∀ before, (∀ c, t.head? = some c → isBlank c = false) →
        escapesNext (before ++ collapse t) = escapesNext (before ++ t) := by
  -- the second part is for the end of a word, where what stands before still counts
  induction t with
  | nil => exact ⟨rfl, fun before _ => rfl⟩
  | cons c cs ih =>
    cases cs with
    | nil =>
      rw [collapse_singleton (solid c rfl)]
      exact ⟨rfl, fun before _ => rfl⟩
    | cons d ds =>
      obtain ⟨whole, behind⟩ := ih fun e last => solid e (by rwa [List.getLast?_cons_cons])
      have last : isBlank ((d :: ds).getLast (List.cons_ne_nil d ds)) = false :=
        solid _ (by simp [List.getLast?_eq_getLast_of_ne_nil])
      have parts := collapse_cons (List.getLast_mem (List.cons_ne_nil d ds)) last c
      by_cases blank : isBlank c = true
      · refine ⟨?_, fun before head => absurd (head c rfl) (by simp [blank])⟩
        rw [parts, if_pos blank, whole]
        exact (escapesNext_behind (ne_backslash_of_isBlank blank) [] _).symm
      · rw [if_neg blank] at parts
        have joined : ∀ before, escapesNext (before ++ collapse (c :: d :: ds)) =
            escapesNext (before ++ c :: d :: ds) := by
          intro before
          by_cases gap : isBlank d = true
          · rw [parts, if_pos gap, List.append_cons, escapesNext_behind (by decide), whole,
              List.append_cons, escapesNext_behind (ne_backslash_of_isBlank gap)]
            exact escapesNext_behind (ne_backslash_of_isBlank gap) [] ds
          · rw [parts, if_neg gap, List.append_cons before c (collapse (d :: ds)),
              List.append_cons before c (d :: ds)]
            refine behind (before ++ [c]) fun f head => ?_
            obtain rfl : d = f := Option.some.inj head
            exact Bool.eq_false_iff.2 gap
        exact ⟨joined [], fun before _ => joined before⟩

/-- A text cut at both ends by a solid character ends, without the white space there, as it does when
all before that character is cut off. -/
lemma escapesNext_strip_behind {d : Char} (plain : d ≠ '\\') (solid : isBlank d = false)
    (before inner : Text) :
    escapesNext (trimEnd isBlank (before ++ d :: inner)) = escapesNext (strip inner) := by
  rw [trimEnd_behind solid, escapesNext_behind plain, escapesNext_strip]

/-- A stripped text does not end in white space. -/
lemma getLast?_strip {t : Text} {d : Char} (last : (strip t).getLast? = some d) :
    isBlank d = false := by
  have nonempty : strip t ≠ [] := by
    intro empty
    rw [empty] at last
    cases last
  rw [List.getLast?_eq_getLast_of_ne_nil nonempty] at last
  obtain rfl := Option.some.inj last
  exact Bool.eq_false_iff.2 (List.rdropWhile_last_not isBlank _ nonempty)

lemma escapesNext_collapse_strip (t : Text) :
    escapesNext (collapse (strip t)) = escapesNext (strip t) :=
  (escapesNext_collapse fun _ last => getLast?_strip last).1

end Text

/-- A shape whose places open with a solid character other than a backslash, behind which stands the
text that it reads, up to one closing character. -/
def Shape.Encloses {α : Type} (shape : Shape α) (inner : α → Text) : Prop :=
  ∀ prev t n a, shape prev t = some (n, a) →
    ∃ lead d close, t.take n = lead ++ d :: inner a ++ [close] ∧ d ≠ '\\' ∧ isBlank d = false

namespace Term

lemma quotedShape_encloses {q : Char} (plain : q ≠ '\\') (solid : isBlank q = false) :
    (quotedShape q).Encloses id := by
  intro prev t n inner read
  exact ⟨[], q, q, (frames_quoted read).1, plain, solid⟩

lemma jsxBodyShape_encloses : jsxBodyShape.Encloses id := by
  intro prev t n inner read
  refine ⟨[], '>', '<', ?_, by decide, by decide⟩
  generalize span : t.take n = u
  have frame := span ▸ frames_jsxBodyShape read
  cases frame
  rfl

lemma fieldShape_encloses (names : List Text) : (fieldShape names).Encloses Prod.snd := by
  intro prev t n a read
  generalize span : t.take n = u
  have frame := span ▸ frames_fieldShape read
  cases frame with
  | field => exact ⟨_, '\'', '\'', rfl, by decide, by decide⟩

variable {s : Source} {o : Options} {t : Term}

/-- What a script's term registers ends in an odd run of backslashes exactly if such a run, up to
white space, stands before the closing character of its span. -/
lemma Source.escapesNext_term {α : Type} {shape : Shape α} {inner : α → Text}
    (encloses : shape.Encloses inner) {h : Hit α} (hit : h ∈ Text.hits shape s.masked)
    (before : Text) :
    Text.escapesNext (Text.trimEnd isBlank (before ++ (s.spanOf h).dropLast)) =
      Text.escapesNext (Text.strip (inner h.value)) := by
  obtain ⟨prev, read⟩ := Text.hits_read hit
  obtain ⟨lead, d, close, span, plain, solid⟩ := encloses _ _ _ _ read
  have cut : (s.spanOf h).dropLast = lead ++ d :: inner h.value := by
    rw [Source.spanOf, Text.slice, span, List.dropLast_concat]
  rw [cut, ← List.append_assoc, Text.escapesNext_strip_behind plain solid]

lemma Candidate.escapesNext_content (cand : Candidate s o t) (script : s.dialect = .script)
    (before : Text) :
    Text.escapesNext t.content =
      Text.escapesNext (Text.trimEnd isBlank (before ++ t.span.dropLast)) := by
  have quoted : ∀ {q : Char} {h : Hit Text}, q ≠ '\\' → isBlank q = false →
      h ∈ Text.hits (quotedShape q) s.masked →
      Text.escapesNext (Text.strip h.value) =
        Text.escapesNext (Text.trimEnd isBlank (before ++ (s.spanOf h).dropLast)) :=
    fun plain solid hit =>
      (Source.escapesNext_term (quotedShape_encloses plain solid) hit before).symm
  cases cand with
  | doubleQuoted hit _ _ _ _ _ => exact quoted (by decide) (by decide) hit
  | singleQuoted hit _ _ _ _ _ => exact quoted (by decide) (by decide) hit
  | backtick hit _ _ _ _ => exact quoted (by decide) (by decide) hit
  | field hit _ _ _ => exact (Source.escapesNext_term (fieldShape_encloses _) hit before).symm
  | tagBody markup _ _ _ _ _ _ => rw [script] at markup; cases markup
  | elementBody markup _ _ _ _ _ _ => rw [script] at markup; cases markup
  | jsxBody _ hit _ _ =>
    exact (Text.escapesNext_collapse_strip _).trans
      (Source.escapesNext_term jsxBodyShape_encloses hit before).symm

lemma escapesNext_key (t : Term) : Text.escapesNext t.key = Text.escapesNext t.content := by
  unfold key
  split
  · exact Template.escapesNext_lettered t.content
  · rfl

lemma Source.Holds.take_stop (holds : s.Holds t) :
    s.text.take (t.stop - 1) = s.text.take t.offset ++ t.span.dropLast := by
  have size : 0 < t.span.length := List.length_pos_iff.2 holds.nonempty
  have whole : s.text.take t.stop = s.text.take t.offset ++ t.span := by
    rw [← holds.text, Text.slice, ← List.take_add]
    congr 1
    have := holds.bounds
    omega
  have length : (s.text.take t.stop).length = t.stop := List.length_take_of_le holds.bounds.2
  have cut := congrArg List.dropLast whole
  rw [List.dropLast_append_of_ne_nil holds.nonempty, List.dropLast_eq_take, length,
    List.take_take] at cut
  rwa [Nat.min_eq_left (Nat.sub_le _ 1)] at cut

end Term

/-- The literal in the call of a script's term never holds a line break or a bare delimiter. Its
closing delimiter is escaped, and the literal thus incomplete, exactly if an odd run of backslashes
stands, up to white space, before the character that closes the term in the script. -/
theorem Localize.isComplete_callOf_iff {text : Text} {o : Term.Options} {t : Term}
    (mem : t ∈ Term.extract text .script o) (method : Text) :
    match callOf t method none with
    | .error e => t.overflows = true ∧ e = t.overflow
    | .ok (key, call) => ∃ body rest, call = method ++ '(' :: ('\'' :: body ++ '\'' :: rest) ∧
        '\'' :: body ++ ['\''] = Literal.quote key none ∧
        Literal.Guards '\'' [] body ∧ '\n' ∉ body ∧ '\r' ∉ body ∧
        (Literal.IsComplete ('\'' :: body ++ ['\'']) ↔
          Text.escapesNext (Text.trimEnd isBlank (text.take (t.stop - 1))) = false) := by
  have cand := (Term.mem_extract_iff.1 mem).1
  rw [callOf_eq]
  cases many : t.overflows with
  | true => exact ⟨rfl, rfl⟩
  | false =>
    obtain ⟨rest, call⟩ := t.call_eq_literal method none
    refine ⟨Literal.body t.key none, rest, ?_, rfl, Literal.guards_body t.key none,
      (Literal.unbroken_body t.key none).1, (Literal.unbroken_body t.key none).2, ?_⟩
    · rw [call]
      simp [Literal.quote, Quote.delimiter, Quote.char]
    · have stands := cand.holds.take_stop
      rw [show text.take (t.stop - 1) = _ from stands, ← cand.escapesNext_content rfl,
        ← t.escapesNext_key]
      exact Literal.isComplete_quote_iff t.key none

/-- A literal that an escaped quote cuts short ends in a backslash, and so does its key: the call on
it is not closed. -/
theorem Localize.not_isComplete_callOf_cut :
    let t : Term := ⟨"'中\\'".toList, "中\\".toList, .singleQuoted, 4⟩
    t ∈ Term.extract "a = '中\\'文'".toList .script {} ∧
      callOf t "$t".toList none = .ok ("中\\".toList, "$t('中\\')".toList) ∧
      ¬Literal.IsComplete "'中\\'".toList := by
  intro t
  have mem : t ∈ Term.extract "a = '中\\'文'".toList .script {} := by decide +kernel
  have call : callOf t "$t".toList none = .ok ("中\\".toList, "$t('中\\')".toList) := by
    decide +kernel
  have found := isComplete_callOf_iff mem "$t".toList
  rw [call] at found
  obtain ⟨body, rest, -, quoted, -, -, -, complete⟩ := found
  refine ⟨mem, call, fun closed => ?_⟩
  have literal : Literal.quote "中\\".toList none = "'中\\'".toList := by decide
  rw [quoted, literal] at complete
  exact absurd (complete.1 closed) (by decide)

end Phrasebook
