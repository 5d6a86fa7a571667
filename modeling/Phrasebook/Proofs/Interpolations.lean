import Phrasebook.Proofs.IgnoredPaths
import Phrasebook.Proofs.OpenedComments
import Phrasebook.Proofs.TemplateReach

/-!
# Where interpolations lie

In the markup of `Interpolated` double braces only delimit expressions. A place in it is seen as one
inside an interpolation by the last opening before it: up to a place in an expression nothing closes
that opening (`take_of_liesInExpression`), and up to a place in the text behind an expression its own
closing does (`take_of_liesBehind`). So on the characters of texts and expressions the answer is right
(`inInterpolation_iff_liesInExpression`).
-/

namespace Phrasebook.Markup

/-- The braces before an expression. -/
def opening : Text := ['\x7b', '\x7b']

/-- The braces behind an expression. -/
def closing : Text := ['\x7d', '\x7d']

/-- A text between interpolations, which touches no brace of theirs with one of its own. -/
abbrev Outside :=
  { t : Text // (¬ opening <:+: t ∧ ¬ closing <:+: t) ∧ t.head? ≠ some '\x7d' ∧ t.getLast? ≠ some '\x7b' }

/-- An expression in an interpolation, which touches none of the braces with one of its own. -/
abbrev Expression :=
  { e : Text // (¬ opening <:+: e ∧ ¬ closing <:+: e) ∧ e.head? ≠ some '\x7b' ∧ e.getLast? ≠ some '\x7d' }

/-- Markup in which double braces only delimit expressions: a text, and then expressions, each with the
text behind it. -/
structure Interpolated where
  lead : Outside
  spans : List (Expression × Outside)

namespace Interpolated

/-- The markup as it is written. -/
def text (m : Interpolated) : Text :=
  m.lead.val ++ m.spans.flatMap fun s => opening ++ (s.1.val ++ (closing ++ s.2.val))

/-- The place `i` is that of a character of an expression. -/
inductive LiesInExpression (m : Interpolated) (i : Nat) : Prop where
  | intro {front back : List (Expression × Outside)} {e : Expression} {between : Outside} {k : Nat} :
    m.spans = front ++ (e, between) :: back → k < e.val.length →
    i = (text ⟨m.lead, front⟩).length + (2 + k) → LiesInExpression m i

/-- The place `i` is that of a character of a text between interpolations. -/
inductive LiesInText (m : Interpolated) (i : Nat) : Prop where
  | lead :
    i < m.lead.val.length → LiesInText m i
  | behind {front back : List (Expression × Outside)} {e : Expression} {between : Outside} {k : Nat} :
    m.spans = front ++ (e, between) :: back → k < between.val.length →
    i = (text ⟨m.lead, front⟩).length + (2 + (e.val.length + (2 + k))) → LiesInText m i

variable {m : Interpolated} {i : Nat} {front back : List (Expression × Outside)} {e : Expression}
  {between : Outside} {k : Nat}

lemma text_split (listed : m.spans = front ++ (e, between) :: back) :
    m.text = text ⟨m.lead, front⟩ ++ (opening ++ (e.val ++ (closing ++ text ⟨between, back⟩))) := by
  rw [text, listed]
  simp [text]

/-- What stands before a place in an expression. -/
lemma take_of_liesInExpression (listed : m.spans = front ++ (e, between) :: back)
    (inside : k < e.val.length) :
    m.text.take ((text ⟨m.lead, front⟩).length + (2 + k)) =
      text ⟨m.lead, front⟩ ++ (opening ++ e.val.take k) := by
  rw [text_split listed, List.take_length_add_append]
  congr 1
  rw [show 2 + k = opening.length + k from rfl, List.take_length_add_append,
    List.take_append_of_le_length (Nat.le_of_lt inside)]

/-- What stands before a place in the text behind an expression. -/
lemma take_of_liesBehind (listed : m.spans = front ++ (e, between) :: back)
    (inside : k < between.val.length) :
    m.text.take ((text ⟨m.lead, front⟩).length + (2 + (e.val.length + (2 + k)))) =
      text ⟨m.lead, front⟩ ++ (opening ++ (e.val ++ (closing ++ between.val.take k))) := by
  rw [text_split listed, List.take_length_add_append]
  congr 1
  rw [show 2 + (e.val.length + (2 + k)) = opening.length + (e.val.length + (2 + k)) from rfl,
    List.take_length_add_append]
  congr 1
  rw [List.take_length_add_append, show 2 + k = closing.length + k from rfl,
    List.take_length_add_append, text, List.take_append_of_le_length (Nat.le_of_lt inside)]

end Interpolated

/-! ## The search for the last opening -/

/-- An opening is the last one if none stands behind it and no third brace follows it. -/
lemma findLast?_opening {w : Text} (free : ¬ opening <:+: w) (apart : w.head? ≠ some '\x7b') :
    Text.findLast? opening (opening ++ w) = some 0 := by
  have second : ¬ opening <:+: '\x7b' :: w := by
    rw [List.infix_cons_iff]
    rintro (touching | later)
    · cases w with
      | nil => exact absurd (List.cons_prefix_cons.1 touching).2 (by simp)
      | cons c cs =>
        have same := (List.cons_prefix_cons.1 (List.cons_prefix_cons.1 touching).2).1
        exact apart (congrArg some same.symm)
    · exact free later
  have later : Text.findLast? opening ('\x7b' :: w) = none := Text.findLast?_eq_none_iff.2 second
  rw [show opening ++ w = '\x7b' :: '\x7b' :: w from rfl, Text.findLast?, later]
  exact if_pos (List.isPrefixOf_iff_prefix.2 (List.prefix_append opening w))

/-- Behind an opening that is the last one, a place is inside the interpolation as long as nothing
closes it. -/
lemma inInterpolation_of_take {buffer a w : Text} {i : Nat} (before : buffer.take i = a ++ (opening ++ w))
    (free : ¬ opening <:+: w) (apart : w.head? ≠ some '\x7b') :
    inInterpolation buffer i = true ↔ ¬ closing <:+: w := by
  have last : Text.findLast? opening (a ++ (opening ++ w)) = some a.length :=
    Text.findLast?_append a (findLast?_opening free apart)
  have rest : (a ++ (opening ++ w)).drop (a.length + 2) = w := by
    rw [List.drop_length_add_append]
    rfl
  rw [inInterpolation, before, ← opening, last]
  dsimp only
  rw [rest, ← closing, Bool.not_eq_true', ← Bool.not_eq_true, Text.occurs_iff]

/-- Where no interpolation has been opened, a place is inside none. -/
lemma inInterpolation_of_unopened {buffer : Text} {i : Nat} (free : ¬ opening <:+: buffer.take i) :
    inInterpolation buffer i = false := by
  have missing : Text.findLast? opening (buffer.take i) = none := Text.findLast?_eq_none_iff.2 free
  rw [inInterpolation, ← opening, missing]

namespace Interpolated

variable {m : Interpolated} {i : Nat}

lemma LiesInExpression.inInterpolation (lies : m.LiesInExpression i) :
    inInterpolation m.text i = true := by
  obtain @⟨front, back, e, between, k, listed, inside, rfl⟩ := lies
  obtain ⟨⟨noOpening, noClosing⟩, apart, -⟩ := e.property
  have part : e.val.take k <:+: e.val := (List.take_prefix k e.val).isInfix
  rw [inInterpolation_of_take (take_of_liesInExpression listed inside)]
  · exact fun closed => noClosing (closed.trans part)
  · exact fun opened => noOpening (opened.trans part)
  · cases k with
    | zero => simp
    | succ k => rwa [List.head?_take, if_neg (Nat.succ_ne_zero k)]

lemma LiesInText.not_inInterpolation (lies : m.LiesInText i) : inInterpolation m.text i = false := by
  cases lies with
  | lead inside =>
    apply inInterpolation_of_unopened
    rw [text, List.take_append_of_le_length (Nat.le_of_lt inside)]
    exact fun opened => m.lead.property.1.1 (opened.trans (List.take_prefix i m.lead.val).isInfix)
  | @behind front back e between k listed inside place =>
    subst place
    have part : between.val.take k <:+: between.val := (List.take_prefix k between.val).isInfix
    rw [← Bool.not_eq_true, inInterpolation_of_take (take_of_liesBehind listed inside)]
    · exact fun unclosed => unclosed ⟨e.val, between.val.take k, List.append_assoc ..⟩
    · -- no opening reaches over the braces that close the expression
      rw [Text.infix_gap (by decide) (by decide) (by simp [opening, closing])]
      rintro (inExpression | inText)
      · exact e.property.1.1 inExpression
      · exact between.property.1.1 (inText.trans part)
    · rw [List.head?_append]
      cases first : e.val.head? with
      | none => simp [closing]
      | some c =>
        have apart := e.property.2.1
        rwa [first] at apart

/-- On every character of a text or an expression, a place is seen as inside an interpolation exactly
if it lies in an expression. -/
theorem inInterpolation_iff_liesInExpression (lies : m.LiesInText i ∨ m.LiesInExpression i) :
    inInterpolation m.text i = true ↔ m.LiesInExpression i := by
  refine ⟨fun inside => lies.resolve_left fun outside => ?_, LiesInExpression.inInterpolation⟩
  rw [outside.not_inInterpolation] at inside
  cases inside

/-- A brace in an expression does not mislead the search, nor does one in the text behind it. -/
theorem inInterpolation_iff_in_row :
    let m : Interpolated :=
      ⟨⟨"共 ".toList, by decide⟩,
        [(⟨" f(\x7b n \x7d) ".toList, by decide⟩, ⟨" 条 \x7d ".toList, by decide⟩)]⟩
    m.text = "共 \x7b\x7b f(\x7b n \x7d) \x7d\x7d 条 \x7d ".toList ∧
      (m.LiesInExpression 12 ∧ inInterpolation m.text 12 = true) ∧
      (m.LiesInText 17 ∧ ¬m.LiesInExpression 17) := by
  intro m
  have listed : m.spans = [] ++ (_, _) :: [] := rfl
  have inside : m.LiesInExpression 12 := .intro (k := 8) listed (by decide) (by decide)
  have behind : m.LiesInText 17 := .behind (k := 1) listed (by decide) (by decide)
  refine ⟨by decide, ⟨inside, (inInterpolation_iff_liesInExpression (.inr inside)).2 inside⟩, behind,
    fun lies => ?_⟩
  have seen := (inInterpolation_iff_liesInExpression (.inl behind)).2 lies
  exact absurd seen (by decide)

end Interpolated

end Phrasebook.Markup
