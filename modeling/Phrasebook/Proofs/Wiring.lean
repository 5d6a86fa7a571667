import Phrasebook.Proofs.Edits
import Phrasebook.Source.Basic

/-!
# Added lines and blocks of components

Adding an import or an instance to a script inserts whole lines and touches no other character
(`edits_wireModule`, `edits_wireComponent`). The blocks of a component stand in its text
(`standsIn_of_template?`, `standsIn_of_script?`), so the edits of a block are edits of the component
(`edits_withBody`).
-/

namespace Phrasebook

namespace Text

/-- Lines joined, with the line feeds of the first part behind its lines. -/
lemma unlines_append (xs : List Text) {ys : List Text} (more : ys ≠ []) :
    unlines (xs ++ ys) = xs.flatMap (· ++ ['\n']) ++ unlines ys := by
  induction xs with
  | nil => rfl
  | cons x xs ih =>
    have behind : xs ++ ys ≠ [] := by simp [more]
    obtain ⟨z, zs, split⟩ := List.exists_cons_of_ne_nil behind
    rw [List.cons_append, List.flatMap_cons, List.append_assoc, ← ih, split]
    simp only [unlines, List.intercalate_cons_cons, List.append_assoc]

/-- Lines joined, with the line feeds of the second part before its lines. -/
lemma unlines_append_behind {xs : List Text} (ys : List Text) (nonempty : xs ≠ []) :
    unlines (xs ++ ys) = unlines xs ++ ys.flatMap ('\n' :: ·) := by
  induction ys generalizing xs with
  | nil => simp
  | cons y ys ih =>
    have joined : unlines (xs ++ [y]) = unlines xs ++ '\n' :: y := by
      obtain ⟨front, last, rfl⟩ := (List.eq_nil_or_concat xs).resolve_left nonempty
      rw [List.concat_eq_append, List.append_assoc, unlines_append front (by simp),
        unlines_append front (by simp)]
      simp [unlines]
    rw [List.append_cons, ih (by simp), joined, List.flatMap_cons, List.append_assoc]

end Text

namespace Script

/-- A statement with blank lines around it. -/
def SetsOff (statement : Text) (lines : List Text) : Prop :=
  ∃ above below, lines = above ++ statement :: below ∧ ∀ l ∈ above ++ below, l = []

/-- The rule for adding a statement: nothing makes way for whole lines, which are put at the start of
a line or behind the end of the script. -/
inductive InsertsLines (statement : Text) (u : Text) (start stop : Nat) : Text → Prop where
  | above {lines : List Text} :
    SetsOff statement lines → start = stop → (start = 0 ∨ u[start - 1]? = some '\n') →
    InsertsLines statement u start stop (lines.flatMap (· ++ ['\n']))
  | below {lines : List Text} :
    SetsOff statement lines → start = stop → start = u.length →
    InsertsLines statement u start stop (lines.flatMap ('\n' :: ·))

variable {statement : Text} {ls new : List Text} {n : Nat}

/-- A place behind whole lines is the start of a line. -/
lemma lineStart_flatMap (xs : List Text) (rest : Text) :
    let front := xs.flatMap (· ++ ['\n'])
    front.length = 0 ∨ (front ++ rest)[front.length - 1]? = some '\n' := by
  intro front
  rcases List.eq_nil_or_concat xs with rfl | ⟨init, last, rfl⟩
  · exact .inl rfl
  · right
    have ends : front = init.flatMap (· ++ ['\n']) ++ last ++ ['\n'] := by
      simp [front, List.concat_eq_append]
    rw [ends]
    simp

/-- Lines put among others are an insertion into the joined text. -/
lemma edits_insertLines (nonempty : ls ≠ []) (n : Nat) (sets : SetsOff statement new) :
    ∃ es, Edits (InsertsLines statement) (Text.unlines ls) es
      (Text.unlines (insertLines ls n new)) := by
  unfold insertLines
  have split : ls.take n ++ ls.drop n = ls := List.take_append_drop n ls
  cases rest : ls.drop n with
  | nil =>
    have whole : ls.take n = ls := by rw [← split, rest, List.append_nil, List.take_take]; simp
    have start : Edits (InsertsLines statement) (Text.unlines ls) [] (Text.unlines ls) := .nil _
    have edit := start.snoc (Nat.le_refl _) (Nat.le_refl _) (.below sets rfl rfl)
    rw [List.take_length, List.drop_length, List.append_nil,
      ← Text.unlines_append_behind new nonempty] at edit
    rw [whole, List.append_nil]
    exact ⟨_, edit⟩
  | cons l rest' =>
    have more : l :: rest' ≠ [] := List.cons_ne_nil _ _
    have joined : Text.unlines ls =
        (ls.take n).flatMap (· ++ ['\n']) ++ Text.unlines (l :: rest') := by
      rw [← Text.unlines_append _ more, ← rest, split]
    rw [joined, Text.unlines_append _ more, List.flatMap_append]
    generalize Text.unlines (l :: rest') = behind
    have start : Edits (InsertsLines statement) ((ls.take n).flatMap (· ++ ['\n']) ++ behind) []
      ((ls.take n).flatMap (· ++ ['\n']) ++ behind) := .nil _
    have edit := start.snoc (Nat.le_refl _) (by simp) (.above sets rfl (lineStart_flatMap _ _))
    rw [List.take_left, List.drop_left] at edit
    exact ⟨_, edit⟩

/-- The rule for adding statements of a list. -/
def Wires (statements : List Text) : EditRule := fun u start stop r =>
  ∃ s ∈ statements, InsertsLines s u start stop r

/-- The statement of an instance is put in as lines. -/
lemma edits_insertInstance (nonempty : ls ≠ []) (n : Nat) (statement : Text) :
    ∃ es, Edits (InsertsLines statement) (Text.unlines ls) es
      (Text.unlines (insertInstance ls n statement)) := by
  unfold insertInstance
  dsimp only
  split
  · exact edits_insertLines nonempty n ⟨[[]], [], rfl, by simp⟩
  · split
    · exact edits_insertLines nonempty n ⟨[[]], [[]], rfl, by simp⟩
    · exact edits_insertLines nonempty _ ⟨[], [[]], rfl, by simp⟩

/-- Inserting lines leaves some. -/
lemma insertLines_ne_nil (nonempty : ls ≠ []) (n : Nat) (new : List Text) : insertLines ls n new ≠ [] := by
  intro empty
  unfold insertLines at empty
  simp only [List.append_eq_nil_iff] at empty
  apply nonempty
  rw [← List.take_append_drop n ls, empty.1.1, empty.2]
  rfl

/-- The lines of a script make it again. -/
lemma unlines_lines (script : Text) : Text.unlines (Text.lines script) = script :=
  List.intercalate_splitOn '\n'

/-- A script has a line. -/
lemma lines_ne_nil (script : Text) : Text.lines script ≠ [] :=
  List.splitOn_ne_nil '\n' script

/-- Wiring a module puts in its statement. -/
lemma edits_wireModule (script statement : Text) :
    ∃ es, Edits (Wires [statement]) script es (wireModule script statement) := by
  unfold wireModule
  split
  · exact ⟨[], .nil _⟩
  · obtain ⟨es, edits⟩ := edits_insertLines (lines_ne_nil script) (importPlace (Text.lines script))
      (⟨[], [], rfl, by simp⟩ : SetsOff statement [statement])
    rw [unlines_lines] at edits
    exact ⟨es, edits.mono fun inserts => ⟨_, List.mem_cons_self, inserts⟩⟩

/-- Wiring a component puts in its two statements. -/
lemma edits_wireComponent (script importStatement instanceStatement : Text) :
    ∃ es, Edits (Wires [importStatement, instanceStatement]) script es
      (wireComponent script importStatement instanceStatement) := by
  unfold wireComponent
  dsimp only
  split
  · exact ⟨[], .nil _⟩
  · have nonempty := lines_ne_nil script
    -- first the import, then the instance behind it, each where it is missing
    have first : ∀ needed : Bool, ∃ es, ∃ ls n,
        (if needed = true then
          (insertLines (Text.lines script) (importPlace (Text.lines script)) [importStatement],
            importPlace (Text.lines script) + 1)
        else (Text.lines script, importSection (Text.lines script))) = (ls, n) ∧ ls ≠ [] ∧
        Edits (Wires [importStatement, instanceStatement]) script es (Text.unlines ls) := by
      intro needed
      cases needed with
      | false =>
        refine ⟨[], _, _, rfl, nonempty, ?_⟩
        rw [unlines_lines]
        exact .nil _
      | true =>
        obtain ⟨es, edits⟩ := edits_insertLines nonempty (importPlace (Text.lines script))
          (⟨[], [], rfl, by simp⟩ : SetsOff importStatement [importStatement])
        rw [unlines_lines] at edits
        exact ⟨es, _, _, rfl, insertLines_ne_nil nonempty _ _,
          edits.mono fun inserts => ⟨_, List.mem_cons_self, inserts⟩⟩
    obtain ⟨es, ls, n, placed, nonempty, edits⟩ :=
      first (!importStatement.isEmpty && !hasImport script importStatement)
    rw [placed]
    dsimp only
    split
    · obtain ⟨fs, more⟩ := edits_insertInstance nonempty n instanceStatement
      refine ⟨_, edits.trans (more.mono fun inserts => ?_)⟩
      exact ⟨_, List.mem_cons_of_mem _ List.mem_cons_self, inserts⟩
    · exact ⟨es, edits⟩

end Script

namespace Component

variable {name t tag rest : Text} {b : Block}

/-- A start tag and the rest behind it make up the text. -/
lemma append_of_startTag? (opens : startTag? name t = some (tag, rest)) : t = tag ++ rest := by
  unfold startTag? at opens
  split at opens
  · cases opens
  · rename_i inner folded
    split at opens
    · split at opens
      · rename_i c behind closes
        obtain ⟨rfl, rfl⟩ := Prod.mk.inj (Option.some.inj opens)
        have suffix : behind <:+ t := by
          have first : inner <:+ t := by
            unfold afterFolded? at folded
            split at folded
            · cases folded
              exact List.drop_suffix _ t
            · cases folded
          have second : c :: behind <:+ inner := closes ▸ List.dropWhile_suffix _
          exact (List.suffix_cons c behind).trans (second.trans first)
        obtain ⟨front, rfl⟩ := suffix
        simp
      · cases opens
    · cases opens

/-- A block whose body stands in a text where the block says. -/
def Block.StandsIn (b : Block) (t : Text) : Prop :=
  ∃ before behind, t = before ++ b.body ++ behind ∧ b.start = before.length

/-- An outermost block stands where it says. -/
lemma exists_of_outermostFrom {pos : Nat} (found : outermostFrom name pos t = some b) :
    ∃ before behind, t = before ++ b.body ++ behind ∧ b.start = pos + before.length := by
  induction t generalizing pos with
  | nil => cases found
  | cons c cs ih =>
    unfold outermostFrom at found
    split at found
    · obtain ⟨before, behind, split, start⟩ := ih found
      refine ⟨c :: before, behind, by rw [split]; rfl, ?_⟩
      rw [List.length_cons]
      omega
    · rename_i tag rest opens
      obtain ⟨n, -, rfl⟩ := Option.map_eq_some_iff.1 found
      refine ⟨tag, rest.drop n, ?_, rfl⟩
      rw [List.append_assoc, List.take_append_drop]
      exact append_of_startTag? opens

/-- The template stands in its text. -/
lemma standsIn_of_template? (found : template? t = some b) : b.StandsIn t := by
  obtain ⟨before, behind, split, start⟩ := exists_of_outermostFrom found
  exact ⟨before, behind, split, start.trans (Nat.zero_add _)⟩

/-- The scripts stand in their text. -/
lemma standsIn_of_mem_scripts (mem : b ∈ scripts t) : b.StandsIn t := by
  obtain ⟨h, hit, rfl⟩ := List.mem_map.1 mem
  obtain ⟨prev, read⟩ := Text.hits_read hit
  unfold blockShape at read
  split at read
  · cases read
  · rename_i tag rest opens
    obtain ⟨n, -, same⟩ := Option.map_eq_some_iff.1 read
    have value : (tag, rest.take n) = h.value := (Prod.mk.inj same).2
    have inside : h.start ≤ t.length := by
      apply Nat.le_of_not_lt
      intro outside
      rw [List.drop_of_length_le (Nat.le_of_lt outside)] at opens
      cases opens
    refine ⟨t.take h.start ++ tag, rest.drop n, ?_, ?_⟩
    · rw [← value, List.append_assoc, List.append_assoc, List.take_append_drop,
        ← append_of_startTag? opens, List.take_append_drop]
    · rw [← value, List.length_append, List.length_take, Nat.min_eq_left inside]

/-- The script that is taken stands in its text. -/
lemma standsIn_of_script? (found : script? t = some b) : b.StandsIn t := by
  apply standsIn_of_mem_scripts
  unfold script? at found
  dsimp only at found
  cases setup : (scripts t).find? fun b => hasWord "setup".toList b.tag with
  | some b' =>
    rw [setup] at found
    cases found
    exact List.mem_of_find?_eq_some setup
  | none =>
    rw [setup] at found
    exact List.mem_of_head? found

/-- The edits of the body of a block are edits of the text that it stands in. -/
lemma edits_withBody {rule : EditRule} {log : List Edit} {body : Text} (stands : b.StandsIn t)
    (edits : Edits rule b.body log body) :
    Edits (fun _ _ _ _ => True) t (log.map (Edit.behind b.start)) (withBody t b body) := by
  obtain ⟨before, behind, split, start⟩ := stands
  have replaced : withBody t b body = before ++ body ++ behind := by
    unfold withBody
    rw [start, split, List.append_assoc before b.body, List.take_left,
      List.drop_length_add_append, List.drop_left]
  rw [replaced, split, start]
  exact edits.embed before behind fun _ => trivial

end Component

end Phrasebook
