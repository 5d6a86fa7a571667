import Mathlib.Data.List.DropRight
import Mathlib.Tactic.Lemma
import Phrasebook.Literal
import Phrasebook.Prose

/-!
# Escapes in string literals

Behind an odd run of backslashes a character is escaped (`Text.escapesNext`). Writing a literal goes
through its text once, and the only thing it remembers is whether the next character is escaped.
What it has written so far agrees with the text on this at every place: `escapesNext_spelled` for
the whole, `guards_spelled` for each delimiter on the way.

So the literal of a text never holds a bare delimiter or a line break, and it is complete exactly if
the text does not end in an odd run of backslashes (`isComplete_quote_iff`).
-/

namespace Phrasebook

namespace Text

/-- Whether a text ends in an odd run of backslashes, so that what comes next is escaped. -/
def escapesNext (t : Text) : Bool :=
  (t.rtakeWhile (· == '\\')).length % 2 == 1

lemma escapesNext_concat (t : Text) (c : Char) :
    escapesNext (t ++ [c]) = (c == '\\' && !escapesNext t) := by
  unfold escapesNext
  rw [List.rtakeWhile_concat]
  by_cases slash : c = '\\'
  · rw [if_pos (by simp [slash])]
    rcases Nat.mod_two_eq_zero_or_one (t.rtakeWhile (· == '\\')).length with even | odd
    · simp [slash, even, Nat.add_mod]
    · simp [slash, odd, Nat.add_mod]
  · rw [if_neg (by simp [slash])]
    simp [slash]

/-- What stands before a character other than the backslash does not count. -/
lemma escapesNext_behind {d : Char} (plain : d ≠ '\\') (before rest : Text) :
    escapesNext (before ++ d :: rest) = escapesNext rest := by
  induction rest using List.reverseRecOn with
  | nil => simp [plain, escapesNext]
  | append_singleton rest c ih =>
    rw [← List.cons_append, ← List.append_assoc, escapesNext_concat, escapesNext_concat, ih]

end Text

namespace Literal

/-- What escaping writes for one character. -/
def escapeOne (q : Char) (escaped : Bool) (c : Char) : Text :=
  if c = q && !escaped then ['\\', c] else [c]

lemma escapeFrom_cons (q : Char) (escaped : Bool) (c : Char) (cs : Text) :
    escapeFrom q escaped (c :: cs) =
      escapeOne q escaped c ++ escapeFrom q (c == '\\' && !escaped) cs := by
  rw [escapeFrom, escapeOne]
  split <;> rfl

lemma escapeBreak_eq {c : Char} (ret : c ≠ '\r') (feed : c ≠ '\n') : escapeBreak c = [c] := by
  rw [escapeBreak, if_neg ret, if_neg feed]

/-- How the characters of an escaped text are written between delimiters `q`: the delimiter and the
backslash as they are, and every other one so that what comes next is not escaped. -/
structure Spelling (q : Char) (spell : Char → Text) : Prop where
  /-- The delimiter stands for itself. -/
  delimiter : spell q = [q]
  /-- The backslash stands for itself. -/
  backslash : spell '\\' = ['\\']
  /-- No other character brings in a delimiter, or a backslash at the end. -/
  other : ∀ c, c ≠ q → c ≠ '\\' →
    q ∉ spell c ∧ ∃ before last, spell c = before ++ [last] ∧ last ≠ '\\'
  /-- There are no line breaks. -/
  unbroken : ∀ c, '\n' ∉ spell c ∧ '\r' ∉ spell c

/-- How the body of a literal writes the characters of an escaped text. -/
def spelling (avoid : Option Quote) (c : Char) : Text :=
  match avoid with
  | none => escapeBreak c
  | some q => Text.expand (fun c => if c = q.char then q.entity else [c]) (escapeBreak c)

lemma body_eq_expand (t : Text) (avoid : Option Quote) :
    body t avoid =
      Text.expand (spelling avoid) (escapeFrom (Quote.delimiter avoid).char false t) := by
  cases avoid with
  | none => rfl
  | some q => exact List.flatMap_assoc

/-- The quote to avoid is neither the delimiter nor part of an entity. -/
lemma spelling_spells (avoid : Option Quote) :
    Spelling (Quote.delimiter avoid).char (spelling avoid) where
  delimiter := by
    rcases avoid with _ | _ | _ <;> rfl
  backslash := by
    rcases avoid with _ | _ | _ <;> rfl
  other := by
    intro c notDelimiter notSlash
    by_cases ret : c = '\r'
    · subst ret
      rcases avoid with _ | _ | _ <;> exact ⟨by decide, ['\\'], 'r', rfl, by decide⟩
    by_cases feed : c = '\n'
    · subst feed
      rcases avoid with _ | _ | _ <;> exact ⟨by decide, ['\\'], 'n', rfl, by decide⟩
    have kept := escapeBreak_eq ret feed
    have bare : spelling none c = [c] := kept
    rcases avoid with _ | q
    · exact ⟨by simpa [bare] using Ne.symm notDelimiter, [], c, bare, notSlash⟩
    · by_cases avoided : c = q.char
      · subst avoided
        cases q with
        | single => exact ⟨by decide, "&#39".toList, ';', rfl, by decide⟩
        | double => exact ⟨by decide, "&quot".toList, ';', rfl, by decide⟩
      · have plain : spelling (some q) c = [c] := by
          simp [spelling, kept, Text.expand, avoided]
        exact ⟨by simpa [plain] using Ne.symm notDelimiter, [], c, plain, notSlash⟩
  unbroken := by
    intro c
    by_cases ret : c = '\r'
    · subst ret
      rcases avoid with _ | _ | _ <;> decide
    by_cases feed : c = '\n'
    · subst feed
      rcases avoid with _ | _ | _ <;> decide
    have kept := escapeBreak_eq ret feed
    rcases avoid with _ | q
    · simp [spelling, kept, Ne.symm ret, Ne.symm feed]
    · by_cases avoided : c = q.char
      · subst avoided
        cases q <;> decide
      · simp [spelling, kept, Text.expand, avoided, Ne.symm ret, Ne.symm feed]

/-- Every `q` in `t` is escaped, where `t` stands behind `before`. -/
def Guards (q : Char) (before t : Text) : Prop :=
  ∀ front rest, t = front ++ q :: rest → Text.escapesNext (before ++ front) = true

lemma guards_of_not_mem {q : Char} {t : Text} (free : q ∉ t) (before : Text) :
    Guards q before t := by
  intro front rest split
  simp [split] at free

lemma Guards.append {q : Char} {before t u : Text} (first : Guards q before t)
    (second : Guards q (before ++ t) u) : Guards q before (t ++ u) := by
  intro front rest split
  rcases List.append_eq_append_iff.1 split with ⟨middle, rfl, behind⟩ | ⟨middle, inside, behind⟩
  · rw [← List.append_assoc]
    exact second middle rest behind
  · cases middle with
    | nil =>
      rw [List.append_nil] at inside
      subst inside
      simpa using second [] rest behind.symm
    | cons d ds =>
      obtain ⟨rfl, -⟩ := List.cons.inj behind
      exact first front ds inside

variable {q : Char} {spell : Char → Text}

/-- One character, written behind `before`: its delimiters are escaped, and it leaves the next
character escaped just as it does in the text. -/
lemma Spelling.step (sp : Spelling q spell) (notSlash : q ≠ '\\') (before : Text) (c : Char) :
    Guards q before (Text.expand spell (escapeOne q (Text.escapesNext before) c)) ∧
      Text.escapesNext (before ++ Text.expand spell (escapeOne q (Text.escapesNext before) c)) =
        (c == '\\' && !Text.escapesNext before) := by
  by_cases isQuote : c = q
  · subst isQuote
    cases escaped : Text.escapesNext before with
    | true =>
      have written : Text.expand spell (escapeOne c true c) = [c] := by
        simp [escapeOne, Text.expand, sp.delimiter]
      rw [written]
      refine ⟨fun front rest split => ?_, by simp [Text.escapesNext_concat, notSlash]⟩
      cases front with
      | nil => simpa using escaped
      | cons d ds => simp at split
    | false =>
      have written : Text.expand spell (escapeOne c false c) = [] ++ ['\\'] ++ [c] := by
        simp [escapeOne, Text.expand, sp.delimiter, sp.backslash]
      have opened : Text.escapesNext (before ++ ['\\']) = true := by
        simp [Text.escapesNext_concat, escaped]
      rw [written]
      refine ⟨?_, by rw [← List.append_assoc, Text.escapesNext_concat]; simp [notSlash]⟩
      refine Guards.append (guards_of_not_mem (by simpa using notSlash) before) ?_
      intro front rest split
      cases front with
      | nil => simpa using opened
      | cons d ds => simp at split
  · have one : escapeOne q (Text.escapesNext before) c = [c] := by simp [escapeOne, isQuote]
    rw [one, Text.expand, List.flatMap_singleton]
    by_cases slash : c = '\\'
    · subst slash
      rw [sp.backslash]
      exact ⟨guards_of_not_mem (by simpa using notSlash) before, Text.escapesNext_concat _ _⟩
    · obtain ⟨free, front, last, spelled, plain⟩ := sp.other c isQuote slash
      refine ⟨guards_of_not_mem free before, ?_⟩
      rw [spelled, ← List.append_assoc, Text.escapesNext_concat]
      rw [beq_false_of_ne plain, beq_false_of_ne slash, Bool.false_and, Bool.false_and]

/-- What is written of a text leaves the next character escaped just as the text does, where the
two stand behind texts that agree on this. -/
lemma Spelling.escapesNext_spelled (sp : Spelling q spell) (notSlash : q ≠ '\\')
    {before source : Text} (agree : Text.escapesNext before = Text.escapesNext source) (t : Text) :
    Text.escapesNext (before ++ Text.expand spell (escapeFrom q (Text.escapesNext before) t)) =
      Text.escapesNext (source ++ t) := by
  induction t generalizing before source with
  | nil => simpa [escapeFrom, Text.expand] using agree
  | cons c cs ih =>
    have step := (sp.step notSlash before c).2
    have next : Text.escapesNext (source ++ [c]) = (c == '\\' && !Text.escapesNext before) := by
      rw [Text.escapesNext_concat, agree]
    have rest := ih (step.trans next.symm)
    rw [step] at rest
    rw [escapeFrom_cons, Text.expand, List.flatMap_append, ← List.append_assoc]
    simpa [Text.expand] using rest

lemma Spelling.guards_spelled (sp : Spelling q spell) (notSlash : q ≠ '\\') (before t : Text) :
    Guards q before (Text.expand spell (escapeFrom q (Text.escapesNext before) t)) := by
  induction t generalizing before with
  | nil => exact guards_of_not_mem (by simp [escapeFrom, Text.expand]) before
  | cons c cs ih =>
    obtain ⟨guarded, step⟩ := sp.step notSlash before c
    have rest := ih (before ++ Text.expand spell (escapeOne q (Text.escapesNext before) c))
    rw [step] at rest
    rw [escapeFrom_cons, Text.expand, List.flatMap_append]
    exact guarded.append rest

lemma delimiter_ne_backslash (avoid : Option Quote) : (Quote.delimiter avoid).char ≠ '\\' := by
  rcases avoid with _ | _ | _ <;> decide

lemma escapesNext_body (t : Text) (avoid : Option Quote) :
    Text.escapesNext (body t avoid) = Text.escapesNext t := by
  rw [body_eq_expand]
  have agree : Text.escapesNext [] = Text.escapesNext [] := rfl
  exact (spelling_spells avoid).escapesNext_spelled (delimiter_ne_backslash avoid) agree t

lemma guards_body (t : Text) (avoid : Option Quote) :
    Guards (Quote.delimiter avoid).char [] (body t avoid) := by
  rw [body_eq_expand]
  exact (spelling_spells avoid).guards_spelled (delimiter_ne_backslash avoid) [] t

lemma unbroken_body (t : Text) (avoid : Option Quote) :
    '\n' ∉ body t avoid ∧ '\r' ∉ body t avoid := by
  rw [body_eq_expand]
  simp only [Text.expand, List.mem_flatMap, not_exists, not_and]
  exact ⟨fun c _ => ((spelling_spells avoid).unbroken c).1,
    fun c _ => ((spelling_spells avoid).unbroken c).2⟩

/-- A complete string literal: between two quotes stand no line break and no bare quote of their
kind, and no backslash takes the closing one. -/
def IsComplete (literal : Text) : Prop :=
  ∃ q body, literal = q :: body ++ [q] ∧ Prose.isQuote q = true ∧ Guards q [] body ∧
    ('\n' ∉ body ∧ '\r' ∉ body) ∧ Text.escapesNext body = false

/-- The literal of a text is complete exactly if the text does not end in an odd run of
backslashes. -/
lemma isComplete_quote_iff (t : Text) (avoid : Option Quote) :
    IsComplete (quote t avoid) ↔ Text.escapesNext t = false := by
  rw [← escapesNext_body t avoid]
  constructor
  · rintro ⟨q, inner, same, -, -, -, closed⟩
    obtain ⟨rfl, tail⟩ := List.cons.inj same
    rwa [(List.append_inj' tail rfl).1]
  · intro closed
    refine ⟨_, _, rfl, ?_, guards_body t avoid, unbroken_body t avoid, closed⟩
    rcases avoid with _ | _ | _ <;> rfl

end Literal

end Phrasebook
