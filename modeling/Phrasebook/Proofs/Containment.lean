import Phrasebook.Proofs.FileTrees
import Phrasebook.Source.Batch

/-!
# Failures stay with their file

The work on a file ends in a result, whatever goes wrong on the way. If the file is passed over or
its text does not change, the tree is as before; if something goes wrong, it is as before or has one
new file, the backup (`AddsFile`). A file that fails or is passed over leaves no phrase behind
(`process_contained`). All ways in which the work may end are listed once (`process_cases`).
-/

namespace Phrasebook

open Files

/-- A tree with one more file, in a place where at most a link stood. -/
structure FileTree.AddsFile (t t' : FileTree) (place : Location) (bytes : Bytes) : Prop where
  free : ∀ n, t.node? place = some n → ∃ target, n = .link target
  stands : t'.node? place = some (.file bytes)
  kept : ∀ loc, loc ≠ place → t'.node? loc = t.node? loc
  working : t'.working = t.working

lemma FileTree.addsFile_put {t : FileTree} {place : Location} (below : place ≠ [])
    (free : ∀ n, t.node? place = some n → ∃ target, n = .link target) (bytes : Bytes) :
    t.AddsFile (t.put place (.file bytes)) place bytes where
  free := free
  stands := node?_put_self below _
  kept := fun _ other => node?_put_of_ne below _ other
  working := rfl

/-- A failed write leaves the tree as it was, if it makes no folders. -/
lemma FileTree.write_failed {t t' : FileTree} {p : Path} {bytes : Bytes} {disk : Disk}
    {i : Incident} (kept : (t.makeFolders p.parent).1 = t)
    (failed : t.write p bytes disk = (t', some i)) : t' = t := by
  rcases write_cases kept bytes disk with ⟨g, idle⟩ | ⟨loc, -, -, moves⟩
  · exact (Prod.mk.inj (failed.symm.trans idle)).1
  · exact nomatch (Prod.mk.inj (failed.symm.trans moves)).2

namespace Source

variable {t : FileTree} {p : Path} {folder : Location}

lemma parent_backupPath (p : Path) (text : Text) : (backupPath p text).parent = p.parent := by
  simp [backupPath, Path.withName, Path.child, Path.parent]

/-- The end of a backup: the tree is as before, or holds the backup as a new file. -/
lemma backup_cases (located : t.locate true p.parent = .ok folder) (text : Text) (disk : Disk) :
    (∃ fault, backup t p text disk = (t, fault)) ∨
      (backup t p text disk =
          (t.put (folder ++ [(backupPath p text).name]) (.file (Utf8.encode text)), none) ∧
        ∀ n, t.node? (folder ++ [(backupPath p text).name]) = some n → ∃ target, n = .link target) := by
  unfold backup
  dsimp only
  split
  · rename_i f _
    exact .inl ⟨some f, rfl⟩
  · split
    · exact .inl ⟨none, rfl⟩
    · rename_i missing
      have parent := parent_backupPath p text
      generalize backupPath p text = target at parent missing
      have kept : (t.makeFolders target.parent).1 = t := by
        rw [parent]
        exact FileTree.makeFolders_of_located located
      rcases FileTree.write_cases kept (Utf8.encode text) disk with ⟨f, idle⟩ | ⟨loc, above, named, moves⟩
      · exact .inl ⟨some f, idle⟩
      · have found := (FileTree.locate_of_locateParent above).1
        rw [parent, located] at found
        obtain rfl := Except.ok.inj found
        refine .inr ⟨moves, fun n stands => ?_⟩
        cases n with
        | link target => exact ⟨target, rfl⟩
        | folder => exact absurd (FileTree.exists?_of_stands above named stands nofun) missing
        | file bytes => exact absurd (FileTree.exists?_of_stands above named stands nofun) missing

/-- If saving fails, the tree is as before or holds the backup as a new file. -/
lemma save_failed {o : Options} {before after : Text} {disk : Disk} {t' : FileTree} {i : Incident}
    (located : t.locate true p.parent = .ok folder)
    (failed : save t p o before after disk = (t', some i)) :
    t' = t ∨ o.backup = true ∧
      t.AddsFile t' (folder ++ [(backupPath p before).name]) (Utf8.encode before) := by
  have plain := FileTree.makeFolders_of_located located
  unfold save at failed
  split at failed
  · cases failed
  · split at failed
    · rename_i keeps
      rcases backup_cases located before disk with ⟨fault, idle⟩ | ⟨made, free⟩
      · rw [idle] at failed
        cases fault with
        | some g =>
          cases failed
          exact .inl rfl
        | none => exact .inl (FileTree.write_failed plain failed)
      · -- the file is written where the backup stands already
        have below : folder ++ [(backupPath p before).name] ≠ [] := by simp
        rw [made] at failed
        obtain rfl := FileTree.write_failed (FileTree.makeFolders_put located below free _) failed
        exact .inr ⟨keeps, FileTree.addsFile_put below free _⟩
    · exact .inl (FileTree.write_failed plain failed)

/-- The folder of a file that can be read is found. -/
lemma locate_parent_of_readText {text : Text} (read : readText t p = .ok text) :
    ∃ folder, t.locate true p.parent = .ok folder := by
  have found : ∃ loc, t.locate true p = .ok loc := by
    unfold readText FileTree.readBytes FileTree.stat at read
    cases located : t.locate true p with
    | ok loc => exact ⟨loc, rfl⟩
    | error f =>
      rw [located] at read
      cases read
  obtain ⟨loc, located⟩ := found
  obtain ⟨folder, above, -⟩ := FileTree.locate_parent located
  exact ⟨folder, above⟩

lemma isLink_of_precheck {maxSize : Option Int} (checked : precheck t p maxSize = .ok none) :
    t.isLink p = false := by
  unfold precheck at checked
  split at checked
  · cases checked
  · split at checked
    · cases checked
    · rename_i direct
      exact Bool.eq_false_iff.2 direct

/-- How the work on a file may leave the tree and the phrases behind, by its end. -/
def Contained (o : Options) (t : FileTree) (p : Path) (w : Worked) : Prop :=
  match w.outcome with
  | .skipped _ => w.tree = t ∧ w.phrases = .empty
  | .failed _ =>
    (w.tree = t ∨ o.backup = true ∧ ∃ text folder, readText t p = .ok text ∧
      t.locate true p.parent = .ok folder ∧
      t.AddsFile w.tree (folder ++ [(backupPath p text).name]) (Utf8.encode text)) ∧
    w.phrases = .empty
  | .done _ changed _ => changed = false → w.tree = t

/-- The work on a file that came to no new text: the tree is as it was, and there are no phrases. -/
inductive Fruitless (t : FileTree) (p : Path) : Worked → Prop where
  | failed (f : FileFault) (records : List Log.Record) : Fruitless t p (fail t p f records)
  | skipped (reason : Skip) (records : List Log.Record) :
    Fruitless t p { tree := t, outcome := .skipped reason, records := records }

/-- The end of the work on a file that was worked on, from how it was saved. -/
def finished (p : Path) (o : Options) (text : Text) (q : Progress) :
    FileTree × Option Incident → Worked
  | (t, some i) => fail t p (.access i) (leftAloneRecords q.leftAlone)
  | (t, none) =>
    { tree := t
      outcome := .done q.replaced (q.text != text)
        (if (q.text != text) && o.showDiff then some (LineDiff.unified text q.text p.toText)
          else none)
      phrases := q.registry
      records := leftAloneRecords q.leftAlone ++ doneRecords p q.replaced }

lemma process_eq_finished {c : Config} {o : Options} {text : Text} {q : Progress}
    {work : Text → Except Failure Progress}
    (checked : precheck t p o.maxSize = .ok none)
    (chosen : worker c o.parts (Path.lower p.suffix) = .ok work)
    (read : readText t p = .ok text) (worked : work text = .ok q) (disk : Disk) :
    process c o t p disk = finished p o text q
      (if q.text != text then save t p o text q.text disk else (t, none)) := by
  simp only [process, checked, chosen, read, workOn, worked]
  generalize (if (q.text != text) = true then save t p o text q.text disk else (t, none)) = saved
  obtain ⟨t', fault⟩ := saved
  cases fault <;> rfl

/-- The work on a file is fruitless, whatever the disk does and whether the run writes or not; or there
is a new text. -/
lemma process_cases (c : Config) (o : Options) (t : FileTree) (p : Path) :
    (∃ w, Fruitless t p w ∧ ∀ o' : Options, o'.maxSize = o.maxSize → o'.parts = o.parts → ∀ disk,
        process c o' t p disk = w) ∨
      ∃ work text q, precheck t p o.maxSize = .ok none ∧
        worker c o.parts (Path.lower p.suffix) = .ok work ∧ readText t p = .ok text ∧
        work text = .ok q := by
  cases checked : precheck t p o.maxSize with
  | error f =>
    refine .inl ⟨_, .failed (.access ⟨f, [p]⟩) [], fun o' size parts disk => ?_⟩
    simp only [process, size, checked]
  | ok reason =>
    cases reason with
    | some reason =>
      refine .inl ⟨_, .skipped reason [skipRecord p reason], fun o' size parts disk => ?_⟩
      simp only [process, size, checked]
    | none =>
      cases chosen : worker c o.parts (Path.lower p.suffix) with
      | error reason =>
        refine .inl ⟨_, .skipped reason [], fun o' size parts disk => ?_⟩
        simp only [process, size, parts, checked, chosen]
      | ok work =>
        cases read : readText t p with
        | error f =>
          refine .inl ⟨_, .failed (.ofRead p f) [], fun o' size parts disk => ?_⟩
          simp only [process, size, parts, checked, chosen, read]
        | ok text =>
          cases worked : work text with
          | error f =>
            refine .inl ⟨_, .failed (.overflow f.overflow) (leftAloneRecords f.leftAlone),
              fun o' size parts disk => ?_⟩
            simp only [process, size, parts, checked, chosen, read, workOn, worked]
          | ok q => exact .inr ⟨work, text, q, rfl, rfl, rfl, worked⟩

lemma Fruitless.contained {w : Worked} (fruitless : Fruitless t p w) (o : Options) :
    Contained o t p w := by
  cases fruitless with
  | failed f records => exact ⟨.inl rfl, rfl⟩
  | skipped reason records => exact ⟨rfl, rfl⟩

lemma contained_finished {o : Options} {text : Text} {q : Progress} {disk : Disk}
    (read : readText t p = .ok text) :
    Contained o t p (finished p o text q
      (if q.text != text then save t p o text q.text disk else (t, none))) := by
  obtain ⟨folder, above⟩ := locate_parent_of_readText read
  cases changed : q.text != text with
  | false => exact fun _ => rfl
  | true =>
    rw [if_pos rfl]
    cases saved : save t p o text q.text disk with
    | mk after fault =>
      cases fault with
      | some f =>
        refine ⟨?_, rfl⟩
        rcases save_failed above saved with same | ⟨keeps, adds⟩
        · exact .inl same
        · exact .inr ⟨keeps, text, folder, read, above, adds⟩
      | none =>
        intro same
        cases changed.symm.trans same

lemma contained_process (c : Config) (o : Options) (t : FileTree) (p : Path) (disk : Disk) :
    Contained o t p (process c o t p disk) := by
  rcases process_cases c o t p with ⟨w, fruitless, ended⟩ | ⟨work, text, q, checked, chosen, read, worked⟩
  · rw [ended o rfl rfl disk]
    exact fruitless.contained o
  · rw [process_eq_finished checked chosen read worked]
    exact contained_finished read

/-- The work on one file always adds one result. A file that is passed over or does not change leaves
the tree as it was. A file with which something goes wrong, on whatever disk, leaves it as it was too,
or with one new file, its backup. Unless the work is done, the phrases of the run are as before. -/
theorem process_contained (c : Config) (o : Options) (b : Batch) (p : Path) (disk : Disk) :
    let b' := Batch.process c o b p disk
    ∃ outcome, b'.results = b.results ++ [⟨p, outcome⟩] ∧
      match outcome with
      | .skipped _ => b'.tree = b.tree ∧ b'.registry = b.registry
      | .failed _ =>
        (b'.tree = b.tree ∨ o.backup = true ∧ ∃ text folder, readText b.tree p = .ok text ∧
          b.tree.locate true p.parent = .ok folder ∧
          b.tree.AddsFile b'.tree (folder ++ [(backupPath p text).name]) (Utf8.encode text)) ∧
        b'.registry = b.registry
      | .done _ changed _ => changed = false → b'.tree = b.tree := by
  intro b'
  refine ⟨(process c o b.tree p disk).outcome, rfl, ?_⟩
  have contained := contained_process c o b.tree p disk
  have merged : (process c o b.tree p disk).phrases = .empty → b'.registry = b.registry := by
    intro missing
    show b.registry.merge (process c o b.tree p disk).phrases.phrases = b.registry
    rw [missing]
    rfl
  have tree : b'.tree = (process c o b.tree p disk).tree := rfl
  unfold Contained at contained
  rw [tree]
  cases ended : (process c o b.tree p disk).outcome with
  | skipped reason =>
    rw [ended] at contained
    exact ⟨contained.1, merged contained.2⟩
  | failed fault =>
    rw [ended] at contained
    exact ⟨contained.1, merged contained.2⟩
  | done replaced changed diff =>
    rw [ended] at contained
    exact contained

end Source

end Phrasebook
