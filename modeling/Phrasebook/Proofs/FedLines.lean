import Phrasebook.Proofs.EditScripts

/-!
# Lines that end in line feeds

A text cut behind its line feeds gives lines that make the text again (`flatten_fedLines`), and lines of
which all but the last end in line feeds are found again in the text they make (`fedLines_flatten`). Where
nothing else ends lines, these are the lines that are compared (`linesWithEnds_eq_fedLines`).
-/

namespace Phrasebook.LineDiff

open Text (isLineEnd consLine linesWithEnds)

variable {t u line : Text} {ls : List Text}

/-- A text in which nothing but line feeds ends lines. -/
def OnlyFeeds (t : Text) : Prop :=
  ∀ c ∈ t, isLineEnd c = true → c = '\n'

/-- The lines of a text, each with its line feed. -/
def fedLines : Text → List Text
  | [] => []
  | c :: rest => if c = '\n' then [c] :: fedLines rest else consLine c (fedLines rest)

/-- A line feed can stand only at the end of a line. -/
def IsLine (line : Text) : Prop :=
  line ≠ [] ∧ '\n' ∉ line.dropLast

instance (t : Text) : Decidable (OnlyFeeds t) :=
  List.decidableBAll (fun c => isLineEnd c = true → c = '\n') t

/-- Where only line feeds end lines, the lines compared are those cut behind line feeds. -/
lemma linesWithEnds_eq_fedLines (only : OnlyFeeds t) : linesWithEnds t = fedLines t := by
  fun_induction linesWithEnds t with
  | case1 => rfl
  | case2 rest ih =>
    have other := only '\r' (by simp) (by decide)
    exact absurd other (by decide)
  | case3 c rest _ ends ih =>
    obtain rfl := only c (by simp) ends
    rw [fedLines, if_pos rfl, ih fun x mem => only x (List.mem_cons_of_mem _ mem)]
  | case4 c rest _ inside ih =>
    have other : c ≠ '\n' := by
      rintro rfl
      exact inside (by decide)
    rw [fedLines, if_neg other, ih fun x mem => only x (List.mem_cons_of_mem _ mem)]

/-- A character put before the first line stands before the text. -/
lemma flatten_consLine (c : Char) (ls : List Text) : (consLine c ls).flatten = c :: ls.flatten := by
  cases ls <;> rfl

/-- The lines of a text make the text again. -/
lemma flatten_fedLines (t : Text) : (fedLines t).flatten = t := by
  induction t with
  | nil => rfl
  | cons c rest ih =>
    rw [fedLines]
    split
    · rw [List.flatten_cons, ih]
      rfl
    · rw [flatten_consLine, ih]

/-- A single character is a line. -/
lemma isLine_singleton (c : Char) : IsLine [c] :=
  ⟨List.cons_ne_nil _ _, List.not_mem_nil⟩

/-- A line goes on behind any character but a line feed. -/
lemma IsLine.cons {c : Char} (other : c ≠ '\n') (whole : IsLine line) : IsLine (c :: line) := by
  obtain ⟨nonempty, inside⟩ := whole
  refine ⟨List.cons_ne_nil _ _, ?_⟩
  rw [List.dropLast_cons_of_ne_nil nonempty, List.mem_cons, not_or]
  exact ⟨other.symm, inside⟩

/-- A line that does not end in a line feed holds none. -/
lemma IsLine.not_mem (whole : IsLine line) (open' : ¬Fed line) : '\n' ∉ line := by
  obtain ⟨nonempty, inside⟩ := whole
  rw [← List.dropLast_append_getLast nonempty, List.mem_append, not_or]
  refine ⟨inside, fun mem => open' ?_⟩
  rw [Fed, List.getLast?_eq_some_getLast nonempty, ← List.mem_singleton.1 mem]

/-- What a text is cut into are lines. -/
lemma isLine_of_mem (mem : line ∈ fedLines t) : IsLine line := by
  induction t generalizing line with
  | nil => cases mem
  | cons c rest ih =>
    rw [fedLines] at mem
    split at mem
    · rcases List.mem_cons.1 mem with rfl | later
      · exact isLine_singleton c
      · exact ih later
    · rename_i other
      cases lines : fedLines rest with
      | nil =>
        rw [lines] at mem
        obtain rfl := List.mem_singleton.1 mem
        exact isLine_singleton c
      | cons first ls =>
        rw [lines] at mem ih
        rcases List.mem_cons.1 mem with rfl | later
        · exact (ih List.mem_cons_self).cons other
        · exact ih (List.mem_cons_of_mem _ later)

/-- A line feed at the end stays there. -/
lemma Fed.cons {c : Char} (fed : Fed line) : Fed (c :: line) := by
  cases line with
  | nil => cases fed
  | cons x rest => rwa [Fed, List.getLast?_cons_cons]

/-- All lines of a text but the last end in line feeds. -/
lemma closed_fedLines (t : Text) : Closed (fedLines t) := by
  induction t with
  | nil => exact .nil
  | cons c rest ih =>
    rw [fedLines]
    split
    · rename_i feed
      exact .cons (fun _ _ => feed ▸ rfl) ih
    · cases lines : fedLines rest with
      | nil => exact List.pairwise_singleton _ _
      | cons first ls =>
        rw [lines] at ih
        obtain ⟨here, later⟩ := List.pairwise_cons.1 ih
        exact .cons (fun l mem => (here l mem).cons) later

/-- Characters before the first line feed join the first line. -/
lemma fedLines_append (inside : '\n' ∉ u) (t : Text) :
    fedLines (u ++ t) = u.foldr consLine (fedLines t) := by
  induction u with
  | nil => rfl
  | cons c rest ih =>
    rw [List.mem_cons, not_or] at inside
    rw [List.cons_append, fedLines, if_neg (Ne.symm inside.1), ih inside.2, List.foldr_cons]

/-- Characters put before lines join the first of them. -/
lemma foldr_consLine (u line : Text) (ls : List Text) :
    u.foldr consLine (line :: ls) = (u ++ line) :: ls := by
  induction u with
  | nil => rfl
  | cons c rest ih =>
    rw [List.foldr_cons, ih]
    rfl

/-- A line with a line feed is split off. -/
lemma fedLines_cons (whole : IsLine line) (fed : Fed line) (t : Text) :
    fedLines (line ++ t) = line :: fedLines t := by
  obtain ⟨front, rfl⟩ : ∃ front, line = front ++ ['\n'] :=
    ⟨line.dropLast, (List.dropLast_append_getLast? _ fed).symm⟩
  have inside := whole.2
  rw [List.dropLast_concat] at inside
  rw [List.append_assoc, fedLines_append inside]
  exact foldr_consLine front ['\n'] (fedLines t)

/-- Lines that end in line feeds are split off. -/
lemma fedLines_flatten_append (whole : ∀ line ∈ ls, IsLine line ∧ Fed line) (t : Text) :
    fedLines (ls.flatten ++ t) = ls ++ fedLines t := by
  induction ls with
  | nil => rfl
  | cons line ls ih =>
    obtain ⟨here, fed⟩ := whole line List.mem_cons_self
    rw [List.flatten_cons, List.append_assoc, fedLines_cons here fed,
      ih fun l mem => whole l (List.mem_cons_of_mem _ mem)]
    rfl

/-- A line alone is not cut. -/
lemma fedLines_line (whole : IsLine line) : fedLines line = [line] := by
  by_cases fed : Fed line
  · have alone := fedLines_cons whole fed []
    rwa [List.append_nil] at alone
  · obtain ⟨nonempty, inside⟩ := whole
    have split := List.dropLast_append_getLast nonempty
    have last : line.getLast nonempty ≠ '\n' := by
      intro feed
      exact fed ((List.getLast?_eq_some_getLast nonempty).trans (congrArg _ feed))
    rw [← split, fedLines_append inside, fedLines, if_neg last]
    exact foldr_consLine _ _ []

/-- Lines are read back from the text they make, if all but the last end in line feeds. -/
lemma fedLines_flatten (whole : ∀ line ∈ ls, IsLine line) (closed : Closed ls) :
    fedLines ls.flatten = ls := by
  rcases List.eq_nil_or_concat ls with rfl | ⟨front, last, rfl⟩
  · rfl
  · rw [List.concat_eq_append] at *
    have before := (List.pairwise_append.1 closed).2.2
    rw [List.flatten_append, List.flatten_singleton, fedLines_flatten_append, fedLines_line]
    · exact whole last (by simp)
    · exact fun line mem => ⟨whole line (by simp [mem]), before line mem last (by simp)⟩

end Phrasebook.LineDiff
