import Mathlib.Tactic.Lemma
import Phrasebook.Localize

/-!
# The call of a term

Writing the call of a term fails in one case only: the phrase is a template with more markers than
there are letters. `Term.key` and `Term.call` say what is written in every other case, and
`callOf_eq` says that nothing else can happen.
-/

namespace Phrasebook

/-- A template with a lettered placeholder for each of its first 26 markers. -/
def Template.lettered (t : Text) : Canonical :=
  let lettered := letters.zip (markers t)
  ⟨fillIn t 0 [] lettered, lettered.map fun p => (p.1, p.2.expression)⟩

namespace Term

/-- The range that a term takes. -/
def range (t : Term) : Span :=
  ⟨t.offset, t.stop⟩

/-- Whether a term has more markers than there are placeholder letters. -/
def overflows (t : Term) : Bool :=
  t.isTemplated && 26 < (Template.markers t.content).length

/-- The report on a term with too many markers. -/
def overflow (t : Term) : Template.Overflow :=
  ⟨t.content, (Template.markers t.content).length⟩

/-- The key under which the phrase of a term is registered. -/
def key (t : Term) : Text :=
  if t.isTemplated then (Template.lettered t.content).key else t.content

/-- The call on the key of a term, fit for an attribute delimited by `avoid`. -/
def call (t : Term) (method : Text) (avoid : Option Quote) : Text :=
  if t.isTemplated then (Template.lettered t.content).call method avoid
  else Literal.lookupCall method t.content avoid

end Term

/-- The call of a term begins with the method, a parenthesis and the literal of its key. -/
lemma Term.call_eq_literal (t : Term) (method : Text) (avoid : Option Quote) :
    ∃ rest, t.call method avoid = method ++ '(' :: (Literal.quote t.key avoid ++ rest) := by
  unfold Term.call Term.key
  split
  · generalize Template.lettered t.content = c
    unfold Template.Canonical.call
    split
    · exact ⟨[')'], by simp [Literal.lookupCall]⟩
    · exact ⟨", ".toList ++ '\x7b' :: c.arguments ++ ['\x7d', ')'], by simp⟩
  · exact ⟨[')'], by simp [Literal.lookupCall]⟩

/-- A template has a key unless it has more than 26 markers. -/
lemma Template.canonical_eq (t : Text) :
    canonical t = if 26 < (markers t).length then .error ⟨t, (markers t).length⟩
      else .ok (lettered t) :=
  rfl

/-- The call of a term can be written unless the term has too many markers. -/
lemma Localize.callOf_eq (t : Term) (method : Text) (avoid : Option Quote) :
    callOf t method avoid =
      if t.overflows then .error t.overflow else .ok (t.key, t.call method avoid) := by
  unfold callOf Term.overflows Term.key Term.call
  by_cases templated : t.isTemplated = true
  · rw [if_pos templated, Template.canonical_eq]
    by_cases many : 26 < (Template.markers t.content).length
    · simp only [templated, many, Term.overflow, decide_true, Bool.and_self, if_true]
    · simp only [templated, many, decide_false, Bool.and_false, Bool.false_eq_true, if_false,
        if_true]
  · simp only [templated, Bool.false_and, if_false, Bool.false_eq_true]

end Phrasebook
