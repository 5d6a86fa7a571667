import Mathlib.Data.List.Forall2
import Phrasebook.Proofs.Escapes

/-!
# How a literal writes its text

The body of a literal is written one piece for each character of the text, in order, and there are
only five kinds of pieces (`Spells`, `exists_pieces`). None of them holds a line break or the quote
that the literal has to avoid. Together with the runs of backslashes this says all about the form of
a literal (`quote_encodes`).
-/

namespace Phrasebook.Literal

/-- How a character may be written in a literal that has to avoid a quote. -/
inductive Spells (avoid : Option Quote) : Char → Text → Prop where
  /-- A character stands for itself, unless it is a line break or the quote to avoid. -/
  | bare {c : Char} :
    c ≠ '\r' → c ≠ '\n' → (∀ a, avoid = some a → c ≠ a.char) →
    Spells avoid c [c]
  /-- A delimiter gets a backslash. -/
  | escaped :
    Spells avoid (Quote.delimiter avoid).char ['\\', (Quote.delimiter avoid).char]
  | carriageReturn : Spells avoid '\r' ['\\', 'r']
  | lineFeed : Spells avoid '\n' ['\\', 'n']
  /-- The quote to avoid becomes an entity. -/
  | entity {a : Quote} : avoid = some a → Spells avoid a.char a.entity

variable {avoid : Option Quote} {a : Quote} {c : Char} {piece : Text}

lemma delimiter_ne_avoided (avoided : avoid = some a) : (Quote.delimiter avoid).char ≠ a.char := by
  subst avoided
  cases a <;> decide

lemma Spells.avoids (spells : Spells avoid c piece) (avoided : avoid = some a) :
    a.char ∉ piece := by
  cases spells with
  | bare _ _ other => simpa using (other a avoided).symm
  | escaped =>
    have slash : a.char ≠ '\\' := by cases a <;> decide
    simpa [slash] using (delimiter_ne_avoided avoided).symm
  | carriageReturn => cases a <;> decide
  | lineFeed => cases a <;> decide
  | entity same =>
    obtain rfl := Option.some.inj (same.symm.trans avoided)
    rename_i b
    cases b <;> decide

/-- What is written for a character that gets no backslash. -/
lemma spells_spelling (avoid : Option Quote) (c : Char) : Spells avoid c (spelling avoid c) := by
  by_cases ret : c = '\r'
  · subst ret
    rcases avoid with _ | _ | _ <;> exact .carriageReturn
  by_cases feed : c = '\n'
  · subst feed
    rcases avoid with _ | _ | _ <;> exact .lineFeed
  have kept := escapeBreak_eq ret feed
  cases avoid with
  | none =>
    rw [show spelling none c = [c] from kept]
    refine .bare ret feed fun a same => ?_
    cases same
  | some a =>
    by_cases avoided : c = a.char
    · have written : spelling (some a) c = a.entity := by
        rw [spelling, kept, Text.expand, List.flatMap_singleton, if_pos avoided]
      rw [written, avoided]
      exact .entity rfl
    · have written : spelling (some a) c = [c] := by
        rw [spelling, kept, Text.expand, List.flatMap_singleton, if_neg avoided]
      rw [written]
      refine .bare ret feed fun b same => ?_
      rwa [← Option.some.inj same]

lemma spells_escapeOne (avoid : Option Quote) (escaped : Bool) (c : Char) :
    Spells avoid c
      (Text.expand (spelling avoid) (escapeOne (Quote.delimiter avoid).char escaped c)) := by
  have sp := spelling_spells avoid
  unfold escapeOne
  split
  · rename_i bareQuote
    obtain rfl : c = (Quote.delimiter avoid).char := by
      simp only [Bool.and_eq_true, decide_eq_true_eq] at bareQuote
      exact bareQuote.1
    have written : Text.expand (spelling avoid) ['\\', (Quote.delimiter avoid).char] =
        ['\\', (Quote.delimiter avoid).char] := by
      simp [Text.expand, sp.backslash, sp.delimiter]
    rw [written]
    exact .escaped
  · rw [Text.expand, List.flatMap_singleton]
    exact spells_spelling avoid c

/-- The body of a literal consists of one piece for each character of the text. -/
lemma exists_pieces (t : Text) (avoid : Option Quote) :
    ∃ pieces, body t avoid = pieces.flatten ∧ List.Forall₂ (Spells avoid) t pieces := by
  rw [body_eq_expand]
  generalize false = escaped
  induction t generalizing escaped with
  | nil => exact ⟨[], rfl, .nil⟩
  | cons c cs ih =>
    obtain ⟨pieces, written, spelled⟩ := ih (c == '\\' && !escaped)
    refine ⟨_ :: pieces, ?_, .cons (spells_escapeOne avoid escaped c) spelled⟩
    rw [escapeFrom_cons, List.flatten_cons, ← written]
    exact List.flatMap_append

lemma not_mem_body (t : Text) (avoided : avoid = some a) : a.char ∉ body t avoid := by
  obtain ⟨pieces, written, spelled⟩ := exists_pieces t avoid
  rw [written]
  clear written
  induction spelled with
  | nil => exact List.not_mem_nil
  | cons spells _ ih =>
    rw [List.flatten_cons, List.mem_append]
    rintro (inside | later)
    · exact spells.avoids avoided inside
    · exact ih later

/-- The literal of a text stands between two quotes other than the one to avoid. It holds neither that
quote nor a line break, and each delimiter inside stands behind an odd run of backslashes. The closing
one stands behind such a run exactly if the text ends in one. Between the delimiters each character of
the text is written as itself, with a backslash, as an escape or as an entity. -/
theorem quote_encodes (t : Text) (avoid : Option Quote) :
    ∃ q inner, quote t avoid = q :: inner ++ [q] ∧ Prose.isQuote q = true ∧
      (∀ a, avoid = some a → q ≠ a.char ∧ a.char ∉ quote t avoid) ∧
      '\r' ∉ quote t avoid ∧ '\n' ∉ quote t avoid ∧
      (∀ front rest, inner = front ++ q :: rest → Text.escapesNext (q :: front) = true) ∧
      (Text.escapesNext (q :: inner) = false ↔ Text.escapesNext t = false) ∧
      ∃ pieces, inner = pieces.flatten ∧ List.Forall₂ (Spells avoid) t pieces := by
  have opens : ∀ u : Text,
      Text.escapesNext ((Quote.delimiter avoid).char :: u) = Text.escapesNext u :=
    fun u => Text.escapesNext_behind (delimiter_ne_backslash avoid) [] u
  have between : ∀ c, c ≠ (Quote.delimiter avoid).char → c ∉ body t avoid →
      c ∉ quote t avoid := by
    intro c other free
    simp [quote, other, free]
  obtain ⟨noFeed, noReturn⟩ := unbroken_body t avoid
  refine ⟨_, _, rfl, ?_, ?_, ?_, ?_, ?_, ?_, exists_pieces t avoid⟩
  · rcases avoid with _ | _ | _ <;> rfl
  · intro a avoided
    have other := delimiter_ne_avoided avoided
    exact ⟨other, between _ other.symm (not_mem_body t avoided)⟩
  · exact between _ (by rcases avoid with _ | _ | _ <;> decide) noReturn
  · exact between _ (by rcases avoid with _ | _ | _ <;> decide) noFeed
  · intro front rest split
    rw [opens]
    exact guards_body t avoid front rest split
  · rw [opens, escapesNext_body]

-- An escaped delimiter stays, a bare one gets a backslash, and the run at the end takes the closing one.
example : quote "\\'a'\n\"\\".toList (some .double) = "'\\'a\\'\\n&quot;\\'".toList := by decide

end Phrasebook.Literal
