import Phrasebook.Proofs.RepeatedWiring

/-!
# Wiring only adds lines

The lines of a component's script all stay, in order, when it is wired. An import statement goes
between two of them, and an instance statement, set off by empty lines, goes behind it with only blank
lines in between (`insertInstance_behind_import`).
-/

namespace Phrasebook

namespace Text

lemma lines_of_unbroken {l : Text} (unbroken : '\n' ∉ l) : lines l = [l] := by
  have alone := Comment.lines_unlines (List.cons_ne_nil l []) (by simpa using unbroken)
  rwa [unlines, List.intercalate_singleton] at alone

/-- The lines of a text that is put together of texts are the lines of these. -/
lemma lines_unlines_flatMap {ls : List Text} (nonempty : ls ≠ []) :
    lines (unlines ls) = ls.flatMap lines := by
  induction ls with
  | nil => exact absurd rfl nonempty
  | cons l ls ih =>
    cases ls with
    | nil => rw [unlines, List.intercalate_singleton, List.flatMap_singleton]
    | cons m ls =>
      have joined : unlines (l :: m :: ls) = l ++ '\n' :: unlines (m :: ls) := by
        simp only [unlines, List.intercalate_cons_cons, List.append_assoc, List.singleton_append]
      rw [joined, lines, List.splitOn_append_cons_self, List.flatMap_cons, ← ih (List.cons_ne_nil m ls)]
      rfl

lemma flatMap_lines {ls : List Text} (unbroken : ∀ l ∈ ls, '\n' ∉ l) : ls.flatMap lines = ls := by
  induction ls with
  | nil => rfl
  | cons l ls ih =>
    obtain ⟨first, rest⟩ := List.forall_mem_cons.1 unbroken
    rw [List.flatMap_cons, lines_of_unbroken first, ih rest, List.singleton_append]

end Text

namespace Script

variable {ls : List Text} {n : Nat}

lemma drop_insertLines (new : List Text) (within : n ≤ ls.length) (k : Nat) :
    (insertLines ls n new).drop (n + new.length + k) = (ls.drop n).drop k := by
  have front : (ls.take n ++ new).length = n + new.length := by
    rw [List.length_append, List.length_take, Nat.min_eq_left within]
  rw [insertLines, ← front, List.drop_length_add_append]

/-- An instance that is put in behind an import is set off from it by blank lines only: some that were
there and some that are new. -/
lemma insertInstance_behind_import (within : n ≤ ls.length) (importStatement instanceStatement : Text) :
    ∃ k group, Framed [instanceStatement] group ∧
      insertInstance (insertLines ls n [importStatement]) (n + 1) instanceStatement =
        ls.take n ++ [importStatement] ++ (ls.drop n).take k ++ group ++ (ls.drop n).drop k ∧
      ∀ l ∈ (ls.drop n).take k, Text.isBlankText l = true := by
  obtain ⟨group, framed, put⟩ :=
    exists_framed_insertInstance (insertLines ls n [importStatement]) (n + 1) instanceStatement
  obtain ⟨k, place, blank⟩ := exists_instancePlace (insertLines ls n [importStatement]) (n + 1)
  have behind : (insertLines ls n [importStatement]).drop (n + 1) = ls.drop n :=
    drop_insertLines [importStatement] within 0
  have front : (insertLines ls n [importStatement]).take (n + 1 + k) =
      ls.take n ++ ([importStatement] ++ (ls.drop n).take k) :=
    @Comment.take_insertLines ls [importStatement] n within k
  have rest : (insertLines ls n [importStatement]).drop (n + 1 + k) = (ls.drop n).drop k :=
    drop_insertLines [importStatement] within k
  rw [behind] at blank
  refine ⟨k, group, framed, ?_, blank⟩
  rw [put, place, insertLines, front, rest, ← List.append_assoc (ls.take n)]

/-- The texts that a wired script is put together of: lines of the script, and statements with empty
lines around them. -/
lemma exists_wireComponent (script importStatement instanceStatement : Text) :
    ∃ before between behind imported group : List Text,
      Text.lines script = before ++ between ++ behind ∧
      wireComponent script importStatement instanceStatement =
        Text.unlines (before ++ imported ++ between ++ group ++ behind) ∧
      imported = (if !importStatement.isEmpty && !hasImport script importStatement then
        [importStatement] else []) ∧
      (if !instanceStatement.isEmpty && !hasInstance script instanceStatement then
        Framed [instanceStatement] group
      else group = []) ∧
      (imported ≠ [] → group ≠ [] → ∀ l ∈ between, Text.isBlankText l = true) := by
  unfold wireComponent
  dsimp only
  have within := importPlace_le (Text.lines script)
  have whole := unlines_lines script
  generalize Text.lines script = ls at within whole ⊢
  cases !importStatement.isEmpty && !hasImport script importStatement with
  | true =>
    cases !instanceStatement.isEmpty && !hasInstance script instanceStatement with
    | true =>
      obtain ⟨k, group, framed, put, blank⟩ :=
        insertInstance_behind_import within importStatement instanceStatement
      refine ⟨_, _, _, _, group, ?_, congrArg Text.unlines put, rfl, framed, fun _ _ => blank⟩
      rw [List.append_assoc, List.take_append_drop, List.take_append_drop]
    | false =>
      refine ⟨ls.take (importPlace ls), [], ls.drop (importPlace ls), _, [], ?_, ?_, rfl, rfl,
        fun _ filled => absurd rfl filled⟩
      · rw [List.append_nil, List.take_append_drop]
      · rw [List.append_nil, List.append_nil]
        rfl
  | false =>
    cases !instanceStatement.isEmpty && !hasInstance script instanceStatement with
    | true =>
      obtain ⟨group, framed, put⟩ := exists_framed_insertInstance ls (importSection ls) instanceStatement
      generalize instancePlace ls (importSection ls) = n at put
      refine ⟨ls.take n, [], ls.drop n, [], group, ?_, ?_, rfl, framed,
        fun filled => absurd rfl filled⟩
      · rw [List.append_nil, List.take_append_drop]
      · rw [List.append_nil, List.append_nil]
        exact congrArg Text.unlines put
    | false =>
      exact ⟨[], [], ls, [], [], rfl, whole.symm, rfl, rfl, fun filled => absurd rfl filled⟩

/-- A frame stays one when the statement in it is taken as its lines. -/
lemma Framed.flatMap_lines {statement : Text} {group : List Text} (framed : Framed [statement] group) :
    Framed (Text.lines statement) (group.flatMap Text.lines) := by
  obtain ⟨above, below, rfl, few, empty⟩ := framed
  have single : ∀ l ∈ above ++ below, '\n' ∉ l := by
    intro l mem
    rw [empty l mem]
    exact List.not_mem_nil
  obtain ⟨upper, lower⟩ := List.forall_mem_append.1 single
  refine ⟨above, below, ?_, few, empty⟩
  rw [List.flatMap_append, List.flatMap_append, List.flatMap_singleton, Text.flatMap_lines upper,
    Text.flatMap_lines lower]

lemma lacks_iff {statement : Text} {present : Bool} :
    statement ≠ [] ∧ present = false ↔ (!statement.isEmpty && !present) = true := by
  simp

/-- Wiring a component only adds lines to its script. The lines of the script stay, all and in order.
The import statement is put among them once, exactly if there is one and the script lacks it, and the
instance statement with at most two empty lines, exactly if there is one and the script lacks it. If
both are put in, the import comes first and only blank lines lie between the two. -/
theorem wireComponent_adds_lines (script importStatement instanceStatement : Text) :
    ∃ before between behind imported group : List Text,
      Text.lines script = before ++ between ++ behind ∧
      Text.lines (wireComponent script importStatement instanceStatement) =
        before ++ imported ++ between ++ group ++ behind ∧
      (if importStatement ≠ [] ∧ hasImport script importStatement = false then
        imported = Text.lines importStatement
      else imported = []) ∧
      (if instanceStatement ≠ [] ∧ hasInstance script instanceStatement = false then
        Framed (Text.lines instanceStatement) group
      else group = []) ∧
      (imported ≠ [] → group ≠ [] → ∀ l ∈ between, Text.isBlankText l = true) := by
  obtain ⟨before, between, behind, imported, group, split, put, isImport, isGroup, blank⟩ :=
    exists_wireComponent script importStatement instanceStatement
  have unbroken : ∀ l ∈ before ++ between ++ behind, '\n' ∉ l := fun l mem =>
    Comment.unbroken_of_mem_lines (split ▸ mem)
  simp only [List.forall_mem_append] at unbroken
  obtain ⟨⟨first, second⟩, third⟩ := unbroken
  have filled : before ++ imported ++ between ++ group ++ behind ≠ [] := by
    have nonempty := lines_ne_nil script
    rw [split] at nonempty
    simp only [ne_eq, List.append_eq_nil_iff] at nonempty ⊢
    tauto
  refine ⟨before, between, behind, imported.flatMap Text.lines, group.flatMap Text.lines, split, ?_,
    ?_, ?_, ?_⟩
  · simp only [put, Text.lines_unlines_flatMap filled, List.flatMap_append, Text.flatMap_lines first,
      Text.flatMap_lines second, Text.flatMap_lines third]
  · simp only [lacks_iff]
    rw [isImport]
    split <;> simp
  · simp only [lacks_iff]
    split at isGroup
    · rename_i needed
      rw [if_pos needed]
      exact isGroup.flatMap_lines
    · rename_i idle
      rw [if_neg idle, isGroup]
      rfl
  · intro hasImport hasGroup
    exact blank (by rintro rfl; exact hasImport rfl) (by rintro rfl; exact hasGroup rfl)

end Script

end Phrasebook
