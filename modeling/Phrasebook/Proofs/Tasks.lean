import Phrasebook.Proofs.Containment
import Phrasebook.Proofs.Sights

/-!
# The work on a file among others

The steps of the work on a file, taken one after another, come to what `process` does (`Stage.step`).
A step looks at a few places (`Task.sights`) and puts a file in at most one, which is the place of the
file or of its backup (`Touches`). So in any tree that looks the same at these places the step goes
the same way and puts the same file there (`Stage.parallel`).
-/

namespace Phrasebook

open Files

namespace Source

variable {c : Config} {o : Options} {t u u' : FileTree} {p : Path} {disk : Disk} {text : Text}
  {q : Progress} {k : Task} {records : List Log.Record} {loc : Location}

/-- What is read is the text of the bytes of a file, with its line ends folded. -/
lemma exists_of_readText (read : readText t p = .ok text) :
    ∃ bytes old, t.readBytes p = .ok bytes ∧ Utf8.decode bytes = .ok old ∧
      text = Text.foldNewlines old := by
  unfold readText at read
  cases file : t.readBytes p with
  | error f =>
    rw [file] at read
    cases read
  | ok bytes =>
    rw [file, textOf] at read
    cases decoded : Utf8.decode bytes with
    | error f =>
      rw [decoded] at read
      cases read
    | ok old =>
      rw [decoded] at read
      exact ⟨bytes, old, rfl, decoded, (Except.ok.inj read).symm⟩

lemma readBytes_of_readText (read : readText t p = .ok text) :
    ∃ bytes, t.readBytes p = .ok bytes := by
  obtain ⟨bytes, -, file, -, -⟩ := exists_of_readText read
  exact ⟨bytes, file⟩

/-- A file whose text is to change. -/
structure ToChange (c : Config) (o : Options) (t : FileTree) (p : Path) (text : Text)
    (q : Progress) : Prop where
  checked : precheck t p o.maxSize = .ok none
  read : readText t p = .ok text
  worked : ∃ work, worker c o.parts (Path.lower p.suffix) = .ok work ∧ work text = .ok q
  other : (q.text != text) = true
  writes : o.dryRun = false

lemma ToChange.process_eq (change : ToChange c o t p text q) (disk : Disk) :
    process c o t p disk = finished p o text q (save t p o text q.text disk) := by
  obtain ⟨work, chosen, worked⟩ := change.worked
  rw [process_eq_finished change.checked chosen change.read worked, if_pos change.other]

lemma ToChange.save_of_backup (change : ToChange c o t p text q) (keeps : o.backup = true)
    (made : backup t p text disk = (u, none)) :
    save t p o text q.text disk = u.writeText p q.text disk := by
  simp only [save, change.writes, keeps, made, Bool.false_eq_true, if_false, if_true]

lemma ToChange.save_of_bare (change : ToChange c o t p text q) (bare : o.backup = false) :
    save t p o text q.text disk = t.writeText p q.text disk := by
  simp only [save, change.writes, bare, Bool.false_eq_true, if_false]

namespace Task

/-- The stages of the work on a file: the tree, how far the work has come, and the log. -/
inductive Stage (c : Config) (o : Options) (disk : Disk) (t : FileTree) (p : Path) :
    FileTree → Task → List Log.Record → Prop where
  | waiting :
    Stage c o disk t p t .waiting []
  | inspected {work : Text → Except Failure Progress} :
    precheck t p o.maxSize = .ok none →
    worker c o.parts (Path.lower p.suffix) = .ok work →
    Stage c o disk t p t (.inspected work) []
  | changed {text : Text} {q : Progress} :
    ToChange c o t p text q →
    Stage c o disk t p t (.changed text q) (leftAloneRecords q.leftAlone)
  | kept {text : Text} {q : Progress} {u : FileTree} :
    ToChange c o t p text q →
    o.backup = true →
    backup t p text disk = (u, none) →
    Stage c o disk t p u (.kept text q) (leftAloneRecords q.leftAlone)
  | ended {w : Worked} :
    process c o t p disk = w →
    Stage c o disk t p w.tree (.ended w.outcome w.phrases) w.records

lemma Stage.inspect : Stage c o disk t p (inspect c o p t).tree (inspect c o p t).task
    (inspect c o p t).records := by
  unfold Task.inspect
  split
  · rename_i f failed
    exact .ended (by simp only [process, failed])
  · rename_i reason passed
    exact .ended (w := ⟨t, .skipped reason, .empty, [skipRecord p reason]⟩)
      (by simp only [process, passed])
  · rename_i checked
    split
    · rename_i reason none
      exact .ended (w := ⟨t, .skipped reason, .empty, []⟩) (by simp only [process, checked, none])
    · rename_i work chosen
      exact .inspected checked chosen

lemma Stage.read {work : Text → Except Failure Progress}
    (checked : precheck t p o.maxSize = .ok none)
    (chosen : worker c o.parts (Path.lower p.suffix) = .ok work) :
    Stage c o disk t p (read o p work t).tree (read o p work t).task
      (Task.read o p work t).records := by
  unfold Task.read
  split
  · rename_i f failed
    exact .ended (by simp only [process, checked, chosen, failed])
  · rename_i text read
    split
    · rename_i f failed
      exact .ended (by simp only [process, checked, chosen, read, workOn, failed])
    · rename_i q worked
      dsimp only
      split
      · rename_i both
        obtain ⟨other, writes⟩ := Bool.and_eq_true_iff.1 both
        exact .changed ⟨checked, read, ⟨work, chosen, worked⟩, other, by simpa using writes⟩
      · rename_i idle
        have saved : (if (q.text != text) = true then save t p o text q.text disk
            else (t, none)) = (t, none) := by
          cases other : q.text != text with
          | false => rfl
          | true =>
            have dry : o.dryRun = true := by simpa [other] using idle
            simp only [save, dry, if_true]
        have whole := process_eq_finished checked chosen read worked disk
        rw [saved] at whole
        exact .ended whole

lemma Stage.store (change : ToChange c o t p text q)
    (saved : save t p o text q.text disk = u.writeText p q.text disk) :
    Stage c o disk t p (store o p disk text q u).tree (store o p disk text q u).task
      (leftAloneRecords q.leftAlone ++ (Task.store o p disk text q u).records) := by
  have whole := change.process_eq disk
  rw [saved] at whole
  unfold Task.store
  split
  · rename_i t' f written
    rw [written] at whole
    exact .ended whole
  · rename_i t' written
    rw [written] at whole
    exact .ended whole

lemma Stage.keep (change : ToChange c o t p text q) (keeps : o.backup = true) :
    Stage c o disk t p (keep p disk text q t).tree (keep p disk text q t).task
      (leftAloneRecords q.leftAlone ++ (Task.keep p disk text q t).records) := by
  unfold Task.keep
  split
  · rename_i t' f made
    have saved : save t p o text q.text disk = (t', some f) := by
      simp only [save, change.writes, keeps, made, Bool.false_eq_true, if_false, if_true]
    have whole := change.process_eq disk
    rw [saved] at whole
    exact .ended whole
  · rename_i t' made
    rw [List.append_nil]
    exact .kept change keeps made

/-- A step leads from a stage to a later one, so the steps of the work come to what `process` does. -/
lemma Stage.step (stage : Stage c o disk t p u k records) :
    Stage c o disk t p (k.step c o p disk u).tree (k.step c o p disk u).task
      (records ++ (k.step c o p disk u).records) := by
  cases stage with
  | waiting => exact .inspect
  | inspected checked chosen => exact .read checked chosen
  | changed change =>
    simp only [Task.step]
    split
    · rename_i keeps
      exact .keep change keeps
    · rename_i bare
      exact .store change (change.save_of_bare (Bool.eq_false_iff.2 bare))
  | kept change keeps made => exact .store change (change.save_of_backup keeps made)
  | ended whole =>
    simp only [Task.step, List.append_nil]
    exact .ended whole

end Task

/-! ## Where the work puts files -/

/-- The places in which the work on a file may put one. -/
inductive Touches (t : FileTree) (p : Path) (loc : Location) : Prop where
  /-- The place of the file. -/
  | file {bytes : Bytes} :
    t.isLink p = false → t.locate true p = .ok loc → t.node? loc = some (.file bytes) →
    Touches t p loc
  /-- The place of its backup, where no file stands. -/
  | backup {text : Text} :
    readText t p = .ok text → loc ∈ t.writeSights (backupPath p text) →
    (∀ bytes, t.node? loc ≠ some (.file bytes)) → Touches t p loc

/-- A tree in which the folder of a file is still the one that it was. -/
structure SameFolder (t u : FileTree) (p : Path) : Prop where
  refused : ∃ f, u.makeFolder p.parent = .error f ∧ f ≠ .notFound
  above : ∀ folder, u.locateParent p = .ok folder → t.locateParent p = .ok folder

lemma sameFolder_self (read : readText t p = .ok text) : SameFolder t t p := by
  obtain ⟨folder, above⟩ := locate_parent_of_readText read
  exact ⟨FileTree.makeFolder_refused (FileTree.locateParent_of_located above), fun _ found => found⟩

/-- A backup leaves the folder of its file where it was, or hides it. -/
lemma sameFolder_backup (read : readText t p = .ok text) (made : backup t p text disk = (u, none)) :
    SameFolder t u p := by
  obtain ⟨folder, above⟩ := locate_parent_of_readText read
  rcases backup_cases above text disk with ⟨fault, idle⟩ | ⟨put, free⟩
  · cases made.symm.trans idle
    exact sameFolder_self read
  · cases made.symm.trans put
    have below : folder ++ [(backupPath p text).name] ≠ [] := by simp
    refine ⟨FileTree.makeFolder_refused (FileTree.locateParent_put above below free _), ?_⟩
    intro loc found
    obtain ⟨rfl, before⟩ := FileTree.locateParent_of_put above below free found
    exact before

/-! ## Steps in other trees -/

/-- The same step in two trees: it leaves both as they are or puts the same file in both, in a place
that it may touch. -/
inductive Stepped.Parallel (touched : Location → Prop) (u u' : FileTree) :
    Stepped → Stepped → Prop where
  | still (k : Task) (records : List Log.Record) :
    Parallel touched u u' ⟨u, k, records⟩ ⟨u', k, records⟩
  | put {place : Location} (bytes : Bytes) (k : Task) (records : List Log.Record) :
    touched place → place ≠ [] →
    Parallel touched u u' ⟨u.put place (.file bytes), k, records⟩
      ⟨u'.put place (.file bytes), k, records⟩

namespace Task

/-- The places that the next step looks at. -/
def sights (u : FileTree) (p : Path) : Task → List Location
  | .changed text _ => u.writeSights (backupPath p text) ++ u.writeSights p
  | .kept .. => u.writeSights p
  | .ended .. => []
  | _ => u.sights false p ++ u.sights true p

lemma precheck_congr (like : t.LooksLike u' (t.sights false p ++ t.sights true p))
    (same : t.isLink p = false → ∀ loc, t.locate true p = .ok loc → u'.node? loc = t.node? loc)
    (maxSize : Option Int) : precheck u' p maxSize = precheck t p maxSize := by
  have unfollowed := like.mono (List.subset_append_left _ _)
  unfold precheck
  rw [FileTree.obstacle?_congr unfollowed, FileTree.isLink_congr unfollowed]
  cases direct : t.isLink p with
  | true => rfl
  | false =>
    have size : u'.sizeOf p = t.sizeOf p := by
      rw [FileTree.sizeOf, FileTree.sizeOf,
        FileTree.stat_congr (like.mono (List.subset_append_right _ _)) (same direct)]
    rw [size]

lemma inspect_parallel (c : Config) (o : Options)
    (like : t.LooksLike u' (t.sights false p ++ t.sights true p))
    (same : t.isLink p = false → ∀ loc, t.locate true p = .ok loc → u'.node? loc = t.node? loc) :
    Stepped.Parallel (Touches t p) t u' (inspect c o p t) (inspect c o p u') := by
  unfold Task.inspect
  rw [precheck_congr like same]
  split
  · exact .still ..
  · exact .still ..
  · split
    · exact .still ..
    · exact .still ..

lemma read_parallel (o : Options) (work : Text → Except Failure Progress)
    (like : t.LooksLike u' (t.sights true p))
    (same : ∀ loc, t.locate true p = .ok loc → u'.node? loc = t.node? loc) :
    Stepped.Parallel (Touches t p) t u' (read o p work t) (read o p work u') := by
  have bytes : readText u' p = readText t p := by
    rw [readText, readText, FileTree.readBytes, FileTree.readBytes, FileTree.stat_congr like same]
  unfold Task.read
  rw [bytes]
  split
  · exact .still ..
  · split
    · exact .still ..
    · dsimp only
      split
      · exact .still ..
      · exact .still ..

lemma keep_parallel (disk : Disk) (q : Progress) (read : readText t p = .ok text)
    (like : t.LooksLike u' (t.writeSights (backupPath p text))) :
    Stepped.Parallel (Touches t p) t u' (keep p disk text q t) (keep p disk text q u') := by
  have target : t.LooksLike u' (t.sights true (backupPath p text)) := by
    refine like.mono fun loc mem => ?_
    simp only [FileTree.writeSights, List.mem_append]
    exact .inl (.inl (.inl mem))
  unfold Task.keep backup FileTree.incident?
  dsimp only
  rw [FileTree.obstacle?_congr target, FileTree.exists?_congr target]
  cases t.obstacle? true (backupPath p text) with
  | some f => exact .still ..
  | none =>
    cases missing : t.exists? (backupPath p text) with
    | true => exact .still ..
    | false =>
      simp only [Bool.false_eq_true, if_false]
      obtain ⟨f, refused, other⟩ := (sameFolder_self read).refused
      rw [← parent_backupPath p text] at refused
      rcases FileTree.write_congr like refused other (Utf8.encode text) disk with
        ⟨g, failed, failed'⟩ | ⟨folder, located, named, moves, moves'⟩
      · simp only [FileTree.writeText, failed, failed']
        exact .still ..
      · simp only [FileTree.writeText, moves, moves']
        refine .put _ _ _ (.backup read ?_ fun bytes stands => ?_) (by simp)
        · simp only [FileTree.writeSights, List.mem_append]
          exact .inl (.inl (.inl (FileTree.mem_sights_of_locateParent located named)))
        · rw [FileTree.exists?_of_stands located named stands nofun] at missing
          cases missing

lemma store_parallel (o : Options) (disk : Disk) (text : Text) (q : Progress) {old : Text}
    (direct : t.isLink p = false) (read : readText t p = .ok old) (folder : SameFolder t u p)
    (like : u.LooksLike u' (u.writeSights p)) :
    Stepped.Parallel (Touches t p) u u' (store o p disk text q u) (store o p disk text q u') := by
  obtain ⟨f, refused, other⟩ := folder.refused
  unfold Task.store
  rcases FileTree.write_congr like refused other (Utf8.encode q.text) disk with
    ⟨g, failed, failed'⟩ | ⟨above, located, named, moves, moves'⟩
  · simp only [FileTree.writeText, failed, failed']
    exact .still ..
  · simp only [FileTree.writeText, moves, moves']
    obtain ⟨bytes, file⟩ := readBytes_of_readText read
    have before := folder.above above located
    have stands := FileTree.node?_of_readBytes before named direct file
    have leads := FileTree.locate_of_stands before named stands nofun
    exact .put _ _ _ (.file direct leads stands) (by simp)

/-- A step goes the same way in a tree that looks the same at the places that it looks at. -/
lemma Stage.parallel (stage : Stage c o disk t p u k records)
    (like : u.LooksLike u' (k.sights u p))
    (same : u = t → t.isLink p = false → ∀ loc, t.locate true p = .ok loc →
      u'.node? loc = t.node? loc) :
    Stepped.Parallel (Touches t p) u u' (k.step c o p disk u) (k.step c o p disk u') := by
  cases stage with
  | waiting => exact inspect_parallel c o like (same rfl)
  | inspected checked chosen =>
    exact read_parallel o _ (like.mono (List.subset_append_right _ _))
      (same rfl (isLink_of_precheck checked))
  | changed change =>
    simp only [Task.step]
    split
    · exact keep_parallel disk _ change.read (like.mono (List.subset_append_left _ _))
    · exact store_parallel o disk _ _ (isLink_of_precheck change.checked) change.read
        (sameFolder_self change.read) (like.mono (List.subset_append_right _ _))
  | kept change keeps made =>
    exact store_parallel o disk _ _ (isLink_of_precheck change.checked) change.read
      (sameFolder_backup change.read made) like
  | ended whole => exact .still ..

/-! ## The work on a file alone -/

/-- The tree as the work on a file alone has left it. -/
def own (c : Config) (o : Options) (disk : Disk) (t : FileTree) (p : Path) : Task → FileTree
  | .kept text _ => (backup t p text disk).1
  | .ended .. => (process c o t p disk).tree
  | _ => t

lemma Stage.eq_own (stage : Stage c o disk t p u k records) : u = k.own c o disk t p := by
  cases stage with
  | waiting => rfl
  | inspected checked chosen => rfl
  | changed change => rfl
  | kept change keeps made => simp only [own, made]
  | ended whole => simp only [own, whole]

/-- What a step changes stays so until the end: the file does not go where its backup went. -/
lemma Stage.node?_process (stage : Stage c o disk t p u k records)
    (moved : u.node? loc ≠ t.node? loc) :
    (process c o t p disk).tree.node? loc = u.node? loc := by
  cases stage with
  | waiting => exact absurd rfl moved
  | inspected checked chosen => exact absurd rfl moved
  | changed change => exact absurd rfl moved
  | ended whole => rw [whole]
  | @kept text q u change keeps made =>
    have folder := sameFolder_backup change.read made
    obtain ⟨f, refused, other⟩ := folder.refused
    have alone : (u.makeFolders p.parent).1 = u := by
      rw [FileTree.makeFolders_of_refused refused other]
    rw [change.process_eq, change.save_of_backup keeps made, FileTree.writeText]
    rcases FileTree.write_cases alone (Utf8.encode q.text) disk with
      ⟨g, failed⟩ | ⟨above, located, named, moves⟩
    · rw [failed]
      rfl
    · rw [moves]
      obtain ⟨bytes, file⟩ := readBytes_of_readText change.read
      have stands := FileTree.node?_of_readBytes (folder.above above located) named
        (isLink_of_precheck change.checked) file
      have apart : loc ≠ above ++ [p.name] := by
        rintro rfl
        obtain ⟨base, found⟩ := locate_parent_of_readText change.read
        rcases backup_cases found text disk with ⟨fault, idle⟩ | ⟨put, free⟩
        · cases made.symm.trans idle
          exact moved rfl
        · cases made.symm.trans put
          rw [FileTree.node?_put (by simp)] at moved
          split at moved
          · rename_i same
            rw [same] at stands
            obtain ⟨target, link⟩ := free _ stands
            cases link
          · exact moved rfl
      simp only [finished]
      exact FileTree.node?_put_of_ne (by simp) _ apart

end Task

/-- The places that the work on a file looks at. -/
def looks (t : FileTree) (p : Path) : List Location :=
  t.sights false p ++ t.sights true p ++
    match readText t p with
    | .ok text => t.writeSights (backupPath p text) ++ t.writeSights p
    | .error _ => []

lemma mem_looks_of_readText (read : readText t p = .ok text)
    (mem : loc ∈ t.writeSights (backupPath p text) ++ t.writeSights p) : loc ∈ looks t p := by
  simp only [looks, read]
  exact List.mem_append_right _ mem

lemma Task.Stage.mem_looks (stage : Task.Stage c o disk t p u k records)
    (mem : loc ∈ k.sights u p) : loc ∈ looks t p := by
  cases stage with
  | waiting => exact List.mem_append_left _ mem
  | inspected checked chosen => exact List.mem_append_left _ mem
  | changed change => exact mem_looks_of_readText change.read mem
  | kept change keeps made =>
    refine mem_looks_of_readText change.read (List.mem_append_right _ ?_)
    obtain ⟨base, found⟩ := locate_parent_of_readText change.read
    rcases backup_cases found _ disk with ⟨fault, idle⟩ | ⟨put, -⟩
    · cases made.symm.trans idle
      exact mem
    · cases made.symm.trans put
      exact FileTree.mem_writeSights_of_put (by simp) mem
  | ended whole => cases mem

end Source

end Phrasebook
