import Phrasebook.Config.Basic
import Phrasebook.Proofs.ImportSearch

/-!
# Wiring a script twice

A script is left alone exactly if nothing is missing from it (`wireComponent_eq_self_iff`,
`wireModule_eq_self_iff`), so wiring it again changes nothing exactly if the statements that were put
in are found. They are not found where a comment runs over the place at which they were put; nor is an
older import into the middle of which the instance was put.
-/

namespace Phrasebook.Script

open Comment (Harmless codeLines runsInto)

/-! ## Statements on lines of their own -/

/-- A statement on one line that imports a module. -/
structure ImportLine (module statement : Text) : Prop where
  /-- The module is the one that is looked for. -/
  named : Text.firstFit fromModule? statement = some module
  /-- The statement is found by that search. -/
  found : importsFrom module statement = true
  harmless : Harmless [statement]
  unbroken : '\n' ∉ module
  undivided : ';' ∉ module

/-- Whether a line calls a function and is no import. -/
def createsOn (callee line : Text) : Bool :=
  !"import".toList.isPrefixOf (Text.strip line) && callsOn callee line

/-- A statement on one line that calls a function, without quotes and with a semicolon at its end. -/
structure InstanceLine (callee statement : Text) : Prop where
  /-- The function is the one that is looked for. -/
  called : Text.firstFit calleeAt? statement = some callee
  /-- The statement is found by that search. -/
  found : createsOn callee statement = true
  harmless : Harmless [statement]
  ends : ∃ front, statement = front ++ [';'] ∧ front.any Prose.isQuote = false

variable {module callee statement importStatement instanceStatement : Text}

lemma ImportLine.isEmpty (line : ImportLine module statement) : statement.isEmpty = false := by
  cases statement with
  | nil => cases line.named
  | cons c t => rfl

lemma InstanceLine.isEmpty (line : InstanceLine callee statement) : statement.isEmpty = false := by
  cases statement with
  | nil => cases line.called
  | cons c t => rfl

lemma ImportLine.hasImport_eq_block (line : ImportLine module statement) (script : Text) :
    hasImport script statement = importsFrom module (Comment.block (codeLines script)) := by
  rw [hasImport_eq line.named, importsFrom_strip]

lemma InstanceLine.hasInstance_eq_any (line : InstanceLine callee statement) (script : Text) :
    hasInstance script statement = (codeLines script).any (createsOn callee) := by
  simp only [hasInstance, line.called, codeLines]
  rfl

lemma createsOn_nil (callee : Text) : createsOn callee [] = false := by
  cases callee with
  | nil => rfl
  | cons c t => rfl

/-- A line that imports is found among any others. -/
lemma ImportLine.importsFrom_of_mem (line : ImportLine module statement) {ls : List Text}
    (mem : statement ∈ ls) : importsFrom module (Comment.block ls) = true := by
  obtain ⟨p, reads, inner⟩ := importsFrom_iff.1 line.found
  obtain ⟨xs, ys, rfl⟩ := List.append_of_mem mem
  refine importsFrom_iff.2 ⟨p, reads, inner.trans ⟨Comment.block xs ++ ['\n'], Comment.block ys, ?_⟩⟩
  rw [Comment.block_append]
  simp [Comment.block]

/-! ## Places of statements -/

lemma sectionFrom_le {pos found : Nat} (isOpen : Bool) (ls : List Text) (within : found ≤ pos) :
    sectionFrom pos found isOpen ls ≤ pos + ls.length := by
  induction ls generalizing pos found isOpen with
  | nil => exact within
  | cons l ls ih =>
    have next : pos + 1 + ls.length = pos + (l :: ls).length := by
      rw [List.length_cons, Nat.add_assoc, Nat.add_comm 1]
    have later : found ≤ pos + 1 := Nat.le_succ_of_le within
    rw [← next]
    unfold sectionFrom
    dsimp only
    split
    · exact ih _ (Nat.le_refl _)
    · split
      · exact ih _ later
      · split
        · exact ih _ (Nat.le_refl _)
        · split
          · exact later.trans (Nat.le_add_right _ _)
          · exact ih _ later

lemma importSection_le (ls : List Text) : importSection ls ≤ ls.length := by
  have bound := sectionFrom_le false ls (Nat.le_refl 0)
  rwa [Nat.zero_add] at bound

lemma importPlace_le (ls : List Text) : importPlace ls ≤ ls.length := by
  unfold importPlace
  dsimp only
  split
  · exact importSection_le ls
  · exact (List.takeWhile_prefix _).length_le

/-- The number of the line at which an instance statement is put: behind the blank lines that follow
line `n`, unless nothing else follows. -/
def instancePlace (ls : List Text) (n : Nat) : Nat :=
  let blanks := ((ls.drop n).takeWhile Text.isBlankText).length
  if ls.length ≤ n + blanks then n else n + blanks

/-- Only blank lines stand before the place of an instance statement. -/
lemma exists_instancePlace (ls : List Text) (n : Nat) :
    ∃ k, instancePlace ls n = n + k ∧ ∀ l ∈ (ls.drop n).take k, Text.isBlankText l = true := by
  unfold instancePlace
  dsimp only
  split
  · refine ⟨0, rfl, ?_⟩
    rintro l ⟨⟩
  · refine ⟨_, rfl, fun l mem => ?_⟩
    rw [← List.prefix_iff_eq_take.1 (List.takeWhile_prefix _)] at mem
    exact List.mem_takeWhile_imp mem

lemma instancePlace_le {ls : List Text} {n : Nat} (within : n ≤ ls.length) :
    instancePlace ls n ≤ ls.length := by
  unfold instancePlace
  dsimp only
  split
  · exact within
  · rename_i beyond
    exact Nat.le_of_lt (Nat.lt_of_not_le beyond)

/-- Lines with at most two empty lines around them. -/
def Framed (inner group : List Text) : Prop :=
  ∃ above below : List Text, group = above ++ inner ++ below ∧ (above ++ below).length ≤ 2 ∧
    ∀ l ∈ above ++ below, l = []

/-- An instance statement is put into a script with a frame of empty lines. -/
lemma exists_framed_insertInstance (ls : List Text) (n : Nat) (statement : Text) :
    ∃ group, Framed [statement] group ∧
      insertInstance ls n statement = insertLines ls (instancePlace ls n) group := by
  unfold insertInstance instancePlace
  dsimp only
  split
  · exact ⟨_, ⟨[[]], [], rfl, by simp, by simp⟩, rfl⟩
  · split
    · rename_i none
      rw [none]
      exact ⟨_, ⟨[[]], [[]], rfl, by simp, by simp⟩, rfl⟩
    · exact ⟨_, ⟨[], [[]], rfl, by simp, by simp⟩, rfl⟩

/-- An instance statement is put into a script as lines. -/
lemma exists_insertInstance (ls : List Text) (n : Nat) (statement : Text) :
    ∃ new, SetsOff statement new ∧
      insertInstance ls n statement = insertLines ls (instancePlace ls n) new := by
  obtain ⟨group, ⟨above, below, rfl, -, empty⟩, put⟩ := exists_framed_insertInstance ls n statement
  exact ⟨_, ⟨above, below, List.append_assoc .., empty⟩, put⟩

/-! ## What is found among put-in lines -/

lemma SetsOff.harmless {new : List Text} (sets : SetsOff statement new)
    (plain : Harmless [statement]) : Harmless new := by
  obtain ⟨above, below, rfl, empty⟩ := sets
  have front : Harmless above :=
    Comment.harmless_of_empty fun l mem => empty l (List.mem_append_left _ mem)
  have back : Harmless below :=
    Comment.harmless_of_empty fun l mem => empty l (List.mem_append_right _ mem)
  exact front.append (plain.append back)

variable {script : Text} {n : Nat} {new : List Text}

/-- A search in single lines finds a put-in line unless a comment runs over the place. -/
lemma any_codeLines_insertLines {test : Text → Bool} (empty : test [] = false)
    (within : n ≤ (Text.lines script).length) (harmless : Harmless new) :
    (codeLines (Text.unlines (insertLines (Text.lines script) n new))).any test =
      ((codeLines script).any test || (!runsInto script n && new.any test)) := by
  have parts : (codeLines script).any test =
      (((codeLines script).take n).any test || ((codeLines script).drop n).any test) := by
    rw [← List.any_append, List.take_append_drop]
  rw [Comment.codeLines_insertLines within harmless, insertLines, List.any_append, List.any_append, parts]
  cases runsInto script n with
  | true =>
    have blank : (new.map fun _ => ([] : Text)).any test = false := by
      rw [List.any_map]
      simp [empty]
    rw [if_pos rfl, blank]
    simp
  | false =>
    rw [if_neg Bool.false_ne_true, Bool.or_right_comm]
    rfl

/-- The search for imports does not see lines inside of a comment. -/
lemma ImportLine.hasImport_of_runsInto (line : ImportLine module statement)
    (within : n ≤ (Text.lines script).length) (harmless : Harmless new)
    (crossed : runsInto script n = true) :
    hasImport (Text.unlines (insertLines (Text.lines script) n new)) statement =
      hasImport script statement := by
  rw [line.hasImport_eq_block, line.hasImport_eq_block, Comment.codeLines_insertLines within harmless, if_pos crossed,
    insertLines, importsFrom_empty_lines line.unbroken, List.take_append_drop]

/-- An instance statement ends what is before it, so imports are looked for before and behind it. -/
lemma InstanceLine.importsFrom_setsOff (line : InstanceLine callee statement) (undivided : ';' ∉ module)
    (unbroken : '\n' ∉ module) (sets : SetsOff statement new) (xs ys : List Text) :
    importsFrom module (Comment.block (xs ++ new ++ ys)) =
      (importsFrom module (Text.unlines xs) || importsFrom module (Text.unlines ys)) := by
  obtain ⟨above, below, rfl, empty⟩ := sets
  obtain ⟨front, rfl, unquoted⟩ := line.ends
  have spaces : (Comment.block above).any Prose.isQuote = false := by
    rw [List.any_eq_false]
    intro c mem
    obtain ⟨l, inner, place⟩ := List.mem_flatMap.1 mem
    rw [empty l (List.mem_append_left _ inner), List.mem_singleton] at place
    rw [place]
    decide
  have split : Comment.block (xs ++ (above ++ (front ++ [';']) :: below) ++ ys) =
      (Comment.block xs ++ (Comment.block above ++ '\n' :: front)) ++ ';' :: Comment.block (below ++ ys) := by
    simp [Comment.block]
  have plain : (Comment.block above ++ '\n' :: front).any Prose.isQuote = false := by
    rw [List.any_append, List.any_cons, spaces, unquoted]
    rfl
  have lines : below = below.map fun _ => [] :=
    (List.map_id below).symm.trans
      (List.map_congr_left fun l mem => empty l (List.mem_append_right _ mem))
  rw [split, importsFrom_semicolon undivided, importsFrom_append_unquoted plain, importsFrom_unlines,
    importsFrom_unlines, lines]
  exact congrArg _ (importsFrom_empty_lines unbroken [] below ys)

/-! ## One statement put in -/

lemma lt_length_insertLines (filled : new ≠ []) (script : Text) (n : Nat) :
    script.length < (Text.unlines (insertLines (Text.lines script) n new)).length := by
  have nonempty := lines_ne_nil script
  have before := Comment.length_unlines nonempty
  have after := Comment.length_unlines (insertLines_ne_nil nonempty n new)
  have grown : 0 < Comment.extent new := by
    cases new with
    | nil => exact absurd rfl filled
    | cons l new =>
      rw [Comment.extent]
      omega
  have whole := Comment.extent_append ((Text.lines script).take n) ((Text.lines script).drop n)
  rw [List.take_append_drop] at whole
  rw [unlines_lines] at before
  rw [insertLines, Comment.extent_append, Comment.extent_append] at after
  rw [insertLines]
  omega

lemma ImportLine.lines_insertImport (line : ImportLine module statement) (script : Text) :
    Text.lines (insertImport script statement) =
      insertLines (Text.lines script) (importPlace (Text.lines script)) [statement] :=
  Comment.lines_unlines (insertLines_ne_nil (lines_ne_nil script) _ _)
    (Comment.unbroken_insertLines (fun _ => Comment.unbroken_of_mem_lines) line.harmless.unbroken)

lemma ImportLine.mem_codeLines_insertImport (line : ImportLine module statement)
    (free : runsInto script (importPlace (Text.lines script)) = false) :
    statement ∈ codeLines (insertImport script statement) := by
  rw [insertImport, Comment.codeLines_insertLines (importPlace_le _) line.harmless, free,
    if_neg Bool.false_ne_true, insertLines]
  simp

/-- An import that is put in is found unless a comment runs over its place. -/
lemma ImportLine.hasImport_insertImport (line : ImportLine module statement) (script : Text) :
    hasImport (insertImport script statement) statement =
      (hasImport script statement || !runsInto script (importPlace (Text.lines script))) := by
  cases crossed : runsInto script (importPlace (Text.lines script)) with
  | true =>
    rw [Bool.not_true, Bool.or_false]
    exact line.hasImport_of_runsInto (importPlace_le _) line.harmless crossed
  | false =>
    rw [Bool.not_false, Bool.or_true, line.hasImport_eq_block]
    exact line.importsFrom_of_mem (line.mem_codeLines_insertImport crossed)

/-- An instance that is put in is found unless a comment runs over its place. -/
lemma InstanceLine.hasInstance_insertInstance (line : InstanceLine callee statement)
    (within : n ≤ (Text.lines script).length) :
    hasInstance (Text.unlines (insertInstance (Text.lines script) n statement)) statement =
      (hasInstance script statement || !runsInto script (instancePlace (Text.lines script) n)) := by
  obtain ⟨new, sets, put⟩ := exists_insertInstance (Text.lines script) n statement
  have found : new.any (createsOn callee) = true := by
    obtain ⟨above, below, rfl, -⟩ := sets
    exact List.any_eq_true.2 ⟨statement, by simp, line.found⟩
  rw [put, line.hasInstance_eq_any, line.hasInstance_eq_any, any_codeLines_insertLines (createsOn_nil callee)
    (instancePlace_le within) (sets.harmless line.harmless), found, Bool.and_true]

/-- With an instance put in, an import is found on either side of it, or where it was found before if
the instance is inside of a comment. -/
lemma ImportLine.hasImport_insertInstance (line : ImportLine module importStatement)
    (instanceLine : InstanceLine callee instanceStatement) (within : n ≤ (Text.lines script).length) :
    hasImport (Text.unlines (insertInstance (Text.lines script) n instanceStatement)) importStatement =
      (let k := instancePlace (Text.lines script) n
      if runsInto script k then hasImport script importStatement
      else importsFrom module (Text.unlines ((codeLines script).take k)) ||
        importsFrom module (Text.unlines ((codeLines script).drop k))) := by
  obtain ⟨new, sets, put⟩ := exists_insertInstance (Text.lines script) n instanceStatement
  have harmless := sets.harmless instanceLine.harmless
  have bound := instancePlace_le within
  rw [put]
  dsimp only
  split
  · rename_i crossed
    exact line.hasImport_of_runsInto bound harmless crossed
  · rename_i free
    rw [line.hasImport_eq_block, Comment.codeLines_insertLines bound harmless, if_neg free, insertLines]
    exact instanceLine.importsFrom_setsOff line.undivided line.unbroken sets _ _

/-! ## A component's script -/

lemma wireComponent_of_hasImport (instanceLine : InstanceLine callee instanceStatement)
    (imported : hasImport script importStatement = true) :
    wireComponent script importStatement instanceStatement =
      if hasInstance script instanceStatement then script
      else Text.unlines (insertInstance (Text.lines script) (importSection (Text.lines script))
        instanceStatement) := by
  unfold wireComponent
  dsimp only
  rw [imported, instanceLine.isEmpty]
  cases hasInstance script instanceStatement <;> simp

lemma wireComponent_of_not_hasImport (line : ImportLine module importStatement)
    (instanceLine : InstanceLine callee instanceStatement)
    (missing : hasImport script importStatement = false) :
    wireComponent script importStatement instanceStatement =
      if hasInstance script instanceStatement then insertImport script importStatement
      else Text.unlines (insertInstance (Text.lines (insertImport script importStatement))
        (importPlace (Text.lines script) + 1) instanceStatement) := by
  unfold wireComponent
  dsimp only
  rw [missing, line.isEmpty, instanceLine.isEmpty, line.lines_insertImport, insertImport]
  cases hasInstance script instanceStatement <;> simp

lemma lt_length_insertInstance (script : Text) (n : Nat) (statement : Text) :
    script.length < (Text.unlines (insertInstance (Text.lines script) n statement)).length := by
  obtain ⟨new, ⟨above, below, rfl, -⟩, put⟩ := exists_insertInstance (Text.lines script) n statement
  rw [put]
  exact lt_length_insertLines (by simp) script _

lemma lt_length_insertImport (script statement : Text) :
    script.length < (insertImport script statement).length :=
  lt_length_insertLines (List.cons_ne_nil _ _) script _

/-- A component's script is left alone exactly if it has the import and the instance. -/
lemma wireComponent_eq_self_iff (line : ImportLine module importStatement)
    (instanceLine : InstanceLine callee instanceStatement) (script : Text) :
    wireComponent script importStatement instanceStatement = script ↔
      hasImport script importStatement = true ∧ hasInstance script instanceStatement = true := by
  have longer : ∀ t : Text, script.length < t.length → t ≠ script := by
    rintro t less rfl
    exact Nat.lt_irrefl _ less
  have first := lt_length_insertImport script importStatement
  cases imported : hasImport script importStatement with
  | true =>
    rw [wireComponent_of_hasImport instanceLine imported]
    cases hasInstance script instanceStatement with
    | true => simp
    | false => simpa using longer _ (lt_length_insertInstance script _ _)
  | false =>
    rw [wireComponent_of_not_hasImport line instanceLine imported]
    cases hasInstance script instanceStatement with
    | true => simpa using longer _ first
    | false => simpa using longer _ (first.trans (lt_length_insertInstance _ _ _))

/-- The place behind a put-in import lies in the script. -/
lemma ImportLine.importPlace_lt (line : ImportLine module statement) (script : Text) :
    importPlace (Text.lines script) + 1 ≤ (Text.lines (insertImport script statement)).length := by
  rw [line.lines_insertImport, insertLines, List.length_append, List.length_append, List.length_take,
    Nat.min_eq_left (importPlace_le _), List.length_singleton]
  exact Nat.le_add_right _ _

/-- An instance goes behind a put-in import with nothing but blank lines between the two, so a comment
runs over its place exactly if one runs over the place of the import. -/
lemma ImportLine.runsInto_insertImport (line : ImportLine module statement) (script : Text) :
    let imported := insertImport script statement
    runsInto imported (instancePlace (Text.lines imported) (importPlace (Text.lines script) + 1)) =
      runsInto script (importPlace (Text.lines script)) := by
  intro imported
  have below : (Text.lines imported).drop (importPlace (Text.lines script) + 1) =
      (Text.lines script).drop (importPlace (Text.lines script)) := by
    rw [show Text.lines imported = _ from line.lines_insertImport script, insertLines]
    apply List.drop_left'
    rw [List.length_append, List.length_take, Nat.min_eq_left (importPlace_le _), List.length_singleton]
  obtain ⟨k, same, blank⟩ :=
    exists_instancePlace (Text.lines imported) (importPlace (Text.lines script) + 1)
  rw [below] at blank
  rw [same]
  exact Comment.runsInto_insertLines (importPlace_le _) line.harmless blank

/-- Where the import was missing, all is found in the wired script unless a comment runs over the place
of the import. -/
lemma found_of_missing_import (line : ImportLine module importStatement)
    (instanceLine : InstanceLine callee instanceStatement)
    (missing : hasImport script importStatement = false) :
    let wired := wireComponent script importStatement instanceStatement
    hasImport wired importStatement = true ∧ hasInstance wired instanceStatement = true ↔
      runsInto script (importPlace (Text.lines script)) = false := by
  intro wired
  have result : wired = _ := wireComponent_of_not_hasImport line instanceLine missing
  have first : hasImport (insertImport script importStatement) importStatement =
      !runsInto script (importPlace (Text.lines script)) := by
    rw [line.hasImport_insertImport, missing, Bool.false_or]
  cases present : hasInstance script instanceStatement with
  | true =>
    have kept : hasInstance (insertImport script importStatement) instanceStatement = true := by
      rw [instanceLine.hasInstance_eq_any] at present ⊢
      rw [insertImport, any_codeLines_insertLines (createsOn_nil callee) (importPlace_le _) line.harmless,
        present, Bool.true_or]
    rw [result, present, if_pos rfl, first, kept]
    simp
  | false =>
    have within := line.importPlace_lt script
    rw [result, present, if_neg Bool.false_ne_true, instanceLine.hasInstance_insertInstance within,
      line.hasImport_insertInstance instanceLine within]
    dsimp only
    rw [line.runsInto_insertImport]
    cases free : runsInto script (importPlace (Text.lines script)) with
    | true =>
      rw [if_pos rfl, first, free]
      simp
    | false =>
      -- the import stands on one side of the instance
      have mem := line.mem_codeLines_insertImport free
      rw [if_neg Bool.false_ne_true, importsFrom_unlines, importsFrom_unlines]
      generalize instancePlace _ _ = k
      rw [← List.take_append_drop k (codeLines _), List.mem_append] at mem
      rcases mem with above | behind
      · rw [line.importsFrom_of_mem above]
        simp
      · rw [line.importsFrom_of_mem behind]
        simp

/-- The number of the line at which the first missing statement is put. -/
def wiringPlace (script importStatement : Text) : Nat :=
  let ls := Text.lines script
  if hasImport script importStatement then instancePlace ls (importSection ls) else importPlace ls

/-- Wiring a component's script again changes nothing exactly if nothing was missing; or if no comment
runs over the place of the first missing statement and an import that was there is not cut by it. -/
lemma wireComponent_twice_iff (line : ImportLine module importStatement)
    (instanceLine : InstanceLine callee instanceStatement) (script : Text) :
    let wire := fun s => wireComponent s importStatement instanceStatement
    let place := wiringPlace script importStatement
    wire (wire script) = wire script ↔
      hasImport script importStatement = true ∧ hasInstance script instanceStatement = true ∨
      runsInto script place = false ∧
        (hasImport script importStatement = true →
          importsFrom module (Text.unlines ((codeLines script).take place)) = true ∨
          importsFrom module (Text.unlines ((codeLines script).drop place)) = true) := by
  intro wire place
  show wireComponent (wire script) _ _ = wire script ↔ _
  rw [wireComponent_eq_self_iff line instanceLine]
  cases imported : hasImport script importStatement with
  | false =>
    have here : place = importPlace (Text.lines script) := by
      show wiringPlace _ _ = _
      rw [wiringPlace, imported, if_neg Bool.false_ne_true]
    have found : hasImport (wire script) importStatement = true ∧
        hasInstance (wire script) instanceStatement = true ↔ _ :=
      found_of_missing_import line instanceLine imported
    rw [here, found]
    simp
  | true =>
    have here : place = instancePlace (Text.lines script) (importSection (Text.lines script)) := by
      show wiringPlace _ _ = _
      rw [wiringPlace, imported, if_pos rfl]
    have within := importSection_le (Text.lines script)
    have result : wire script = _ := wireComponent_of_hasImport instanceLine imported
    cases present : hasInstance script instanceStatement with
    | true =>
      rw [result, present, if_pos rfl, imported, present]
      simp
    | false =>
      rw [result, present, if_neg Bool.false_ne_true, instanceLine.hasInstance_insertInstance within,
        line.hasImport_insertInstance instanceLine within, present, ← here]
      dsimp only
      cases runsInto script place with
      | true => simp
      | false => simp

/-! ## A script of its own -/

lemma importsLookup_nil : importsLookup [] = false := by
  rfl

/-- A script of its own is left alone exactly if it has the import or one that will do. -/
lemma wireModule_eq_self_iff (line : ImportLine module statement) (script : Text) :
    wireModule script statement = script ↔
      (hasImport script statement || (codeLines script).any importsLookup) = true := by
  unfold wireModule
  rw [line.isEmpty, Bool.false_or]
  split
  · rename_i found
    exact iff_of_true rfl found
  · rename_i missing
    refine iff_of_false (fun same => ?_) missing
    have longer := lt_length_insertImport script statement
    rw [same] at longer
    exact Nat.lt_irrefl _ longer

/-- Wiring a script of its own again changes nothing exactly if nothing was missing or no comment runs
over the place of the import. -/
lemma wireModule_twice_iff (line : ImportLine module statement) (script : Text) :
    wireModule (wireModule script statement) statement = wireModule script statement ↔
      hasImport script statement = true ∨ (codeLines script).any importsLookup = true ∨
      runsInto script (importPlace (Text.lines script)) = false := by
  rw [wireModule_eq_self_iff line, ← or_assoc, ← Bool.or_eq_true]
  cases found : hasImport script statement || (codeLines script).any importsLookup with
  | true =>
    rw [(wireModule_eq_self_iff line script).2 found, found]
    simp
  | false =>
    have result : wireModule script statement = insertImport script statement := by
      unfold wireModule
      rw [line.isEmpty, Bool.false_or, if_neg]
      exact Bool.eq_false_iff.1 found
    obtain ⟨missing, without⟩ := Bool.or_eq_false_iff.1 found
    rw [result, line.hasImport_insertImport, missing, insertImport,
      any_codeLines_insertLines importsLookup_nil (importPlace_le _) line.harmless, without]
    cases runsInto script (importPlace (Text.lines script)) <;> simp

/-! ## The default statements -/

lemma importLine_standard : ImportLine "vue-i18n".toList Config.standard.vue.importStatement where
  named := by decide
  found := by decide
  harmless := Comment.harmless_singleton (by decide) ⟨by decide, by decide⟩ (by decide)
  unbroken := by decide
  undivided := by decide

lemma instanceLine_standard : InstanceLine "useI18n".toList Config.standard.vue.instanceStatement where
  called := by decide
  found := by decide
  harmless := Comment.harmless_singleton (by decide) ⟨by decide, by decide⟩ (by decide)
  ends := ⟨"const \x7b t \x7d = useI18n()".toList, rfl, by decide⟩

lemma importLine_module_standard (suffix : Text) :
    ImportLine "@/i18n".toList (Config.standard.scriptOptionsFor suffix).importStatement := by
  have same : (Config.standard.scriptOptionsFor suffix).importStatement =
      Config.standard.typescript.importStatement := by
    unfold Config.scriptOptionsFor
    split
    · rfl
    · rfl
  rw [same]
  exact {
    named := by decide
    found := by decide
    harmless := Comment.harmless_singleton (by decide) ⟨by decide, by decide⟩ (by decide)
    unbroken := by decide
    undivided := by decide }

/-- With the default statements, wiring a component's script again changes nothing exactly if neither
statement was missing; or if no comment runs over the place of the first missing one and an import that
was there is not cut by the instance. Wiring a script of its own again changes nothing exactly if it
had an import or no comment runs over the place of the import. -/
theorem standard_wiring_settles_iff (script suffix : Text) :
    (let importStatement := Config.standard.vue.importStatement
    let instanceStatement := Config.standard.vue.instanceStatement
    let wire := fun s => wireComponent s importStatement instanceStatement
    let place := wiringPlace script importStatement
    wire (wire script) = wire script ↔
      hasImport script importStatement = true ∧ hasInstance script instanceStatement = true ∨
      runsInto script place = false ∧
        (hasImport script importStatement = true →
          importsFrom "vue-i18n".toList (Text.unlines ((codeLines script).take place)) = true ∨
          importsFrom "vue-i18n".toList (Text.unlines ((codeLines script).drop place)) = true)) ∧
    (let statement := (Config.standard.scriptOptionsFor suffix).importStatement
    let wire := fun s => wireModule s statement
    wire (wire script) = wire script ↔
      hasImport script statement = true ∨ (codeLines script).any importsLookup = true ∨
      runsInto script (importPlace (Text.lines script)) = false) :=
  ⟨wireComponent_twice_iff importLine_standard instanceLine_standard script,
    wireModule_twice_iff (importLine_module_standard suffix) script⟩

/-- Inside of a comment of several lines both imports are put in once more with each run, and an import
whose lines are divided by the instance is put in once more. -/
theorem standard_wiring_unsettled :
    let wire := fun s =>
      wireComponent s Config.standard.vue.importStatement Config.standard.vue.instanceStatement
    let wireOwn := fun s => wireModule s (Config.standard.scriptOptionsFor ".ts".toList).importStatement
    let commented := "/*\nnote\n*/\nconst a = 1\n".toList
    let divided := "import \x7b\n  useI18n, // moved from 'x'\n\x7d from 'vue-i18n'\n".toList
    wire (wire commented) ≠ wire commented ∧ wireOwn (wireOwn commented) ≠ wireOwn commented ∧
      wire (wire divided) ≠ wire divided := by
  intro wire wireOwn commented divided
  obtain ⟨component, own⟩ := standard_wiring_settles_iff commented ".ts".toList
  obtain ⟨cut, -⟩ := standard_wiring_settles_iff divided ".ts".toList
  refine ⟨?_, ?_, ?_⟩
  · exact mt component.1 (by decide +kernel)
  · exact mt own.1 (by decide +kernel)
  · exact mt cut.1 (by decide +kernel)

end Phrasebook.Script
