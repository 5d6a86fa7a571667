import Phrasebook.Proofs.Pools
import Phrasebook.Proofs.Preservation
import Phrasebook.Proofs.Registrations

/-!
# Batches and single files

A batch with one thread comes to what the files come to one after another, whatever they are
(`processBatch_one`). With more threads, and in any order, this holds of files that are apart
(`processBatch_agrees`).
-/

namespace Phrasebook

open Files

namespace Source

variable {c : Config} {o : Options} {t : FileTree} {disk : Disk} {p : Path} {paths : List Path}
  {threads : Nat}

/-! ## The phrases of a file -/

lemma selfKeyed_localizeBlock {style : Localize.Style} {terms : List Term} {finish : Text → Text}
    {b : Component.Block} {p q : Progress} (self : p.registry.SelfKeyed)
    (done : localizeBlock style terms finish b p = .ok q) : q.registry.SelfKeyed := by
  have run := Localize.selfKeyed_localize self style b.body terms
  obtain ⟨s, ran, rfl⟩ := localizeBlock_eq_ok done
  rw [ran] at run
  exact run

lemma selfKeyed_localizeComponent {parts : Parts} {registry : Registry} {text : Text} {q : Progress}
    (self : registry.SelfKeyed) (done : localizeComponent c parts registry text = .ok q) :
    q.registry.SelfKeyed := by
  obtain ⟨p, first, second⟩ := localizeComponent_eq_ok done
  have markup : p.registry.SelfKeyed := by
    rcases first with rfl | first
    · exact self
    · rcases localizeTemplate_eq_ok first with rfl | ⟨b, -, first⟩
      · exact self
      · exact selfKeyed_localizeBlock self first
  rcases second with rfl | second
  · exact markup
  · rcases localizeScript_eq_ok second with rfl | ⟨b, -, second⟩
    · exact markup
    · exact selfKeyed_localizeBlock markup second

lemma selfKeyed_localizeModule {suffix text : Text} {registry : Registry} {q : Progress}
    (self : registry.SelfKeyed) (done : localizeModule c suffix registry text = .ok q) :
    q.registry.SelfKeyed := by
  have run := Localize.selfKeyed_localize self ⟨.script, (c.scriptOptionsFor suffix).method⟩ text
    (moduleTerms c suffix text)
  obtain ⟨s, ran, rfl⟩ := localizeModule_eq_ok done
  rw [ran] at run
  exact run

lemma selfKeyed_of_worker {parts : Parts} {suffix text : Text}
    {work : Text → Except Failure Progress} {q : Progress}
    (chosen : worker c parts suffix = .ok work) (done : work text = .ok q) : q.registry.SelfKeyed := by
  rcases worker_eq_ok chosen with ⟨-, rfl⟩ | ⟨-, -, rfl⟩
  · exact selfKeyed_localizeComponent Registry.selfKeyed_empty done
  · exact selfKeyed_localizeModule Registry.selfKeyed_empty done

lemma selfKeyed_process (c : Config) (o : Options) (t : FileTree) (p : Path) (disk : Disk) :
    (process c o t p disk).phrases.SelfKeyed := by
  rcases process_cases c o t p with ⟨w, fruitless, ended⟩ | ⟨work, text, q, checked, chosen, read, worked⟩
  · rw [ended o rfl rfl disk]
    cases fruitless <;> exact Registry.selfKeyed_empty
  · rw [process_eq_finished checked chosen read worked]
    generalize (if q.text != text then save t p o text q.text disk else (t, none)) = saved
    obtain ⟨t', fault⟩ := saved
    cases fault with
    | some f => exact Registry.selfKeyed_empty
    | none => exact selfKeyed_of_worker chosen worked

/-- A file with which something went wrong has no phrases, so all phrases of a file go into the
registry of the run, by way of a registry of its own. -/
lemma gathered_process (c : Config) (o : Options) (t : FileTree) (p : Path) (disk : Disk)
    (r : Registry) :
    (if (Result.mk p (process c o t p disk).outcome).succeeded then
        r.merge (Registry.empty.merge (process c o t p disk).phrases.phrases).phrases
      else r) = r.merge (process c o t p disk).phrases.phrases := by
  rw [Registry.phrases_merge_empty]
  split
  · rfl
  · rename_i failed
    have contained := contained_process c o t p disk
    unfold Contained at contained
    cases ended : (process c o t p disk).outcome with
    | failed f =>
      rw [ended] at contained
      rw [contained.2]
      rfl
    | skipped reason =>
      rw [ended] at failed
      exact absurd rfl failed
    | done n changed diff =>
      rw [ended] at failed
      exact absurd rfl failed

namespace Pool

/-- A file that is worked on as a whole in a pool is one more file of a sequence. -/
lemma report_finish (registry : Registry) (pool : Pool) (p : Path) :
    (pool.finish c o disk p).report registry = Batch.process c o (pool.report registry) p disk := by
  have gathered := gathered_process c o pool.tree p disk (pool.gather registry)
  simp only [report, finish, Batch.process, results, List.filterMap_append, List.filterMap_cons,
    List.filterMap_nil, Batch.mk.injEq, true_and, and_true]
  rw [← gathered]
  simp only [gather, List.foldl_append, List.foldl_cons, List.foldl_nil]

lemma report_foldl_finish (registry : Registry) (pool : Pool) (paths : List Path) :
    (paths.foldl (finish c o disk) pool).report registry =
      paths.foldl (fun b p => Batch.process c o b p disk) (pool.report registry) := by
  induction paths generalizing pool with
  | nil => rfl
  | cons p paths ih => rw [List.foldl_cons, List.foldl_cons, ih, report_finish]

end Pool

/-- With one thread, a batch is the same as its files one after another. -/
lemma processBatch_one (one : threads ≤ 1) (c : Config) (o : Options) (t : FileTree)
    (registry : Registry) (paths : List Path) (disk : Disk) (schedule : Nat → Nat) :
    processBatch c o t registry paths disk threads schedule =
      processEach c o t registry paths disk := by
  cases paths with
  | nil => rfl
  | cons p paths =>
    have enough : Task.waiting.rank + stepsPerFile * paths.length ≤
        stepsPerFile * (p :: paths).length := by
      rw [Task.rank, List.length_cons, Nat.mul_succ, Nat.add_comm]
    have run : (Pool.mk t ([] ++ (p, .waiting) :: paths.map (·, .waiting)) ([] ++ [])).run c o disk
          threads schedule (stepsPerFile * (p :: paths).length) =
        (p :: paths).foldl (Pool.finish c o disk) ⟨t, [], []⟩ :=
      Pool.run_one one (fun _ mem => (List.not_mem_nil mem).elim) rfl .waiting schedule enough
    rw [processBatch, processEach]
    have report := congrArg (Pool.report registry) run
    rw [Pool.report_foldl_finish] at report
    exact report

/-! ## Files that are apart -/

/-- Two runs that come to the same: the results in order, what stands where, and the registry. -/
structure Batch.Agrees (b b' : Batch) : Prop where
  results : b.results = b'.results
  nodes : ∀ loc, b.tree.node? loc = b'.tree.node? loc
  registry : b.registry = b'.registry

/-- Two runs over the same files in another order that come to the same: each file has the same
result, the same stands where it stood, and the registries hold the same entries, each with its key
as its text, and no conflicts. -/
structure Batch.Rearranged (b b' : Batch) : Prop where
  results : b.results.Perm b'.results
  nodes : ∀ loc, b.tree.node? loc = b'.tree.node? loc
  entries : ∀ e, e ∈ b.registry.phrases.entries ↔ e ∈ b'.registry.phrases.entries
  self : b.registry.SelfKeyed ∧ b'.registry.SelfKeyed

section Apart

variable (apart : paths.Pairwise (Apart c o disk t)) (threads : Nat) (schedule : Nat → Nat)

include apart

lemma merged_processBatch :
    let pool := (Pool.start t paths).run c o disk threads schedule (stepsPerFile * paths.length)
    pool.Merged c o disk t paths ∧ ∀ e ∈ pool.tasks, e.2.isEnded = true :=
  ⟨(Pool.merged_start c o disk t paths).run apart schedule _,
    Pool.ended_of_run c o disk threads schedule (Pool.rank_start t paths).le⟩

/-- Each file has the result that it has alone. -/
lemma results_processBatch (registry : Registry) :
    (processBatch c o t registry paths disk threads schedule).results =
      paths.map fun p => ⟨p, (process c o t p disk).outcome⟩ := by
  obtain ⟨merged, ended⟩ := merged_processBatch apart threads schedule
  rw [processBatch, Pool.report, Pool.results, merged.tasks_eq ended, List.filterMap_map]
  exact congrFun List.filterMap_eq_map' paths

/-- The registry takes up the phrases that each file has alone. -/
lemma registry_processBatch (registry : Registry) :
    (processBatch c o t registry paths disk threads schedule).registry =
      paths.foldl (fun r p => r.merge (process c o t p disk).phrases.phrases) registry := by
  obtain ⟨merged, ended⟩ := merged_processBatch apart threads schedule
  rw [processBatch, Pool.report, Pool.gather, merged.tasks_eq ended, List.foldl_map]
  simp only [gathered_process]

end Apart

/-- The keys that files bring into a registry, each with itself as its text. -/
lemma mem_keys_foldl_merge (paths : List Path) {r : Registry} (self : r.SelfKeyed) {k : Text} :
    (paths.foldl (fun r p => r.merge (process c o t p disk).phrases.phrases) r).SelfKeyed ∧
      (k ∈ (paths.foldl (fun r p => r.merge (process c o t p disk).phrases.phrases)
          r).phrases.keys ↔
        k ∈ r.phrases.keys ∨ ∃ p ∈ paths, k ∈ (process c o t p disk).phrases.phrases.keys) := by
  induction paths generalizing r with
  | nil => simpa using self
  | cons p paths ih =>
    obtain ⟨whole, keys⟩ := ih (self.merge (selfKeyed_process c o t p disk))
    refine ⟨whole, ?_⟩
    rw [List.foldl_cons, keys, Registry.merge, Registry.mem_keys_registerAll, or_assoc]
    simp [Mapping.keys]

/-- A file that the work on another one changes is no concern of a path that leads elsewhere. -/
lemma spares_of_put {q : Path} {place loc : Location} {old new : Bytes} (below : place ≠ [])
    (stands : t.node? place = some (.file old))
    (ended : (process c o t p disk).tree = t.put place (.file new))
    (leads : t.locate true q = .ok loc) (other : loc ≠ place) : Spares c o disk t p q := by
  have only : ∀ l, (process c o t p disk).tree.node? l ≠ t.node? l → l = place := by
    intro l moved
    by_contra elsewhere
    rw [ended, FileTree.node?_put_of_ne below _ elsewhere] at moved
    exact moved rfl
  constructor
  · intro l moved _ here
    rw [only l moved, leads] at here
    exact other (Except.ok.inj here)
  · intro l moved free
    rw [only l moved] at free
    exact absurd stands (free old)

/-! ## A script of one line -/

/-- A line with a phrase. -/
def phraseLine : Text := "const a = '中'\n".toList

/-- What becomes of it. -/
def lookupLines : Text := "import { i18n } from '@/i18n';\nconst a = i18n.global.t('中')\n".toList

/-- The work on a script with the one text or the other. -/
lemma localizeModule_lines :
    (∃ q, localizeModule default ".ts".toList .empty phraseLine = .ok q ∧ q.replaced = 1 ∧
      q.text = lookupLines) ∧
    ∃ q, localizeModule default ".ts".toList .empty lookupLines = .ok q ∧ q.replaced = 0 ∧
      q.text = lookupLines := by
  have found : ∀ (text : Text) (n : Nat),
      (localizeModule default ".ts".toList .empty text).toOption.any
        (fun q => q.replaced == n && q.text == lookupLines) = true →
      ∃ q, localizeModule default ".ts".toList .empty text = .ok q ∧ q.replaced = n ∧
        q.text = lookupLines := by
    intro text n worked
    cases ended : localizeModule default ".ts".toList .empty text with
    | error f =>
      rw [ended] at worked
      cases worked
    | ok q =>
      rw [ended] at worked
      obtain ⟨count, same⟩ := Bool.and_eq_true_iff.1 worked
      exact ⟨q, rfl, beq_iff_eq.1 count, beq_iff_eq.1 same⟩
  exact ⟨found phraseLine 1 (by decide +kernel), found lookupLines 0 (by decide +kernel)⟩

lemma process_phraseLine {folder drafts : Location} (located : t.locateParent p = .ok folder)
    (named : FileTree.namesEntry p = true) (script : Path.lower p.suffix = ".ts".toList)
    (drafted : t.locateFolder (t.draftFolder p) = .ok drafts)
    (stands : t.node? (folder ++ [p.name]) = some (.file (Utf8.encode phraseLine))) :
    (process default {} t p).outcome = .done 1 true none ∧
      (process default {} t p).tree =
        t.put (folder ++ [p.name]) (.file (Utf8.encode lookupLines)) := by
  obtain ⟨q, worked, one, text⟩ := localizeModule_lines.1
  have chosen : worker default {} (Path.lower p.suffix) =
      .ok (localizeModule default ".ts".toList .empty) := by
    rw [script]
    rfl
  have decoded : Utf8.decode (Utf8.encode phraseLine) = .ok phraseLine := rfl
  have other : q.text ≠ Text.foldNewlines phraseLine := by
    rw [text]
    decide
  have saved := process_of_stands (c := default) (o := {}) located named stands drafted
    (rfl : Disk.sound.mishap p = none)
    (fun limit same => .inr (by cases same; decide)) chosen decoded worked other rfl rfl
  rw [one, text] at saved
  exact saved

lemma process_lookupLines {folder : Location} (located : t.locateParent p = .ok folder)
    (named : FileTree.namesEntry p = true) (script : Path.lower p.suffix = ".ts".toList)
    (stands : t.node? (folder ++ [p.name]) = some (.file (Utf8.encode lookupLines))) :
    (process default {} t p).outcome = .done 0 false none ∧ (process default {} t p).tree = t := by
  obtain ⟨q, worked, zero, text⟩ := localizeModule_lines.2
  have chosen : worker default {} (Path.lower p.suffix) =
      .ok (localizeModule default ".ts".toList .empty) := by
    rw [script]
    rfl
  have decoded : Utf8.decode (Utf8.encode lookupLines) = .ok lookupLines := rfl
  have same : (process default {} t p).outcome = .done q.replaced false .none ∧
      (process default {} t p).tree = t :=
    process_of_same located named stands (fun limit same => .inr (by cases same; decide)) chosen
      decoded worked text
  rw [zero] at same
  exact same

/-- A batch with one thread, or of files that are apart, comes to what its files come to one after
another. Files that are apart come to the same in any order, with any number of threads. -/
theorem processBatch_agrees
    (fair : threads ≤ 1 ∨ paths.Pairwise (Apart c o disk t)) (registry : Registry)
    (schedule : Nat → Nat) :
    Batch.Agrees (processBatch c o t registry paths disk threads schedule)
        (processEach c o t registry paths disk) ∧
      (paths.Pairwise (Apart c o disk t) → ∀ others, others.Perm paths → ∀ threads' schedule',
        Batch.Rearranged (processBatch c o t .empty others disk threads' schedule')
          (processBatch c o t .empty paths disk threads schedule)) := by
  constructor
  · rcases fair with one | apart
    · rw [processBatch_one one]
      exact ⟨rfl, fun _ => rfl, rfl⟩
    · rw [← processBatch_one (Nat.le_refl 1) c o t registry paths disk schedule]
      obtain ⟨merged, ended⟩ := merged_processBatch apart threads schedule
      obtain ⟨merged', ended'⟩ := merged_processBatch apart 1 schedule
      constructor
      · rw [results_processBatch apart, results_processBatch apart]
      · exact merged'.node?_eq merged ended' ended fun _ => Iff.rfl
      · rw [registry_processBatch apart, registry_processBatch apart]
  · intro apart others perm threads' schedule'
    have apart' : others.Pairwise (Apart c o disk t) :=
      (perm.pairwise_iff Apart.symm).2 apart
    obtain ⟨merged, ended⟩ := merged_processBatch apart threads schedule
    obtain ⟨merged', ended'⟩ := merged_processBatch apart' threads' schedule'
    have first := fun k => @mem_keys_foldl_merge c o t disk paths _ Registry.selfKeyed_empty k
    have second := fun k => @mem_keys_foldl_merge c o t disk others _ Registry.selfKeyed_empty k
    have self := And.intro (second []).1 (first []).1
    rw [← registry_processBatch apart threads schedule,
      ← registry_processBatch apart' threads' schedule'] at self
    constructor
    · rw [results_processBatch apart, results_processBatch apart']
      exact perm.map _
    · exact merged.node?_eq merged' ended ended' fun p => perm.symm.mem_iff
    · intro e
      rw [self.1.mem_entries, self.2.mem_entries, registry_processBatch apart,
        registry_processBatch apart', (first e.1).2, (second e.1).2]
      simp only [perm.mem_iff]
    · exact self

/-- Two files next to each other are apart. -/
theorem processBatch_agrees_two_files :
    let t := ((FileTree.empty []).put ["a.ts".toList] (.file (Utf8.encode phraseLine))).put
      ["b.ts".toList] (.file (Utf8.encode phraseLine))
    let p : Path := ⟨0, ["a.ts".toList]⟩
    let q : Path := ⟨0, ["b.ts".toList]⟩
    [p, q].Pairwise (Apart default {} .sound t) ∧
      Batch.Agrees (processBatch default {} t .empty [p, q] .sound 2 id)
        (processEach default {} t .empty [p, q]) ∧
      Batch.Rearranged (processBatch default {} t .empty [q, p] .sound 2 id)
        (processBatch default {} t .empty [p, q] .sound 2 id) := by
  intro t p q
  have above : ∀ name, t.locateParent ⟨0, [name]⟩ = .ok [] := fun _ =>
    FileTree.locateFolder_root rfl 0
  have drafts : ∀ name, t.locateFolder (t.draftFolder ⟨0, [name]⟩) = .ok [] := fun _ =>
    FileTree.locateFolder_root rfl 1
  have first := process_phraseLine (above "a.ts".toList) (by decide) (by decide) (drafts _) rfl
  have second := process_phraseLine (above "b.ts".toList) (by decide) (by decide) (drafts _) rfl
  have leads := FileTree.locate_of_stands (above "a.ts".toList) (by decide)
    (rfl : t.node? ["a.ts".toList] = some (.file (Utf8.encode phraseLine))) nofun
  have leads' := FileTree.locate_of_stands (above "b.ts".toList) (by decide)
    (rfl : t.node? ["b.ts".toList] = some (.file (Utf8.encode phraseLine))) nofun
  have apart : [p, q].Pairwise (Apart default {} .sound t) := by
    refine List.pairwise_pair.2 ⟨?_, ?_⟩
    · exact spares_of_put (by decide) rfl first.2 leads' (by decide)
    · exact spares_of_put (by decide) rfl second.2 leads (by decide)
  obtain ⟨agrees, rearranged⟩ := @processBatch_agrees default {} t .sound [p, q] 2 (.inr apart) .empty
    id
  exact ⟨apart, agrees, rearranged apart [q, p] (.swap ..) 2 id⟩

/-! ## Files that are not apart -/

/-- A backup goes under a new name next to its file. -/
lemma backup_of_free {folder drafts : Location} {text : Text}
    (located : t.locateParent p = .ok folder) (named : FileTree.namesEntry (backupPath p text) = true)
    (drafted : t.locateFolder (t.draftFolder p) = .ok drafts)
    (free : t.node? (folder ++ [(backupPath p text).name]) = none)
    (short : isTooLong (backupPath p text).name = false)
    (sound : disk.mishap (backupPath p text) = none) :
    backup t p text disk =
      (t.put (folder ++ [(backupPath p text).name]) (.file (Utf8.encode text)), none) := by
  have parent := parent_backupPath p text
  have above : t.locateParent (backupPath p text) = .ok folder := by
    rw [FileTree.locateParent, parent]
    exact located
  have drafts' : t.locateFolder (t.draftFolder (backupPath p text)) = .ok drafts := by
    rw [← drafted, FileTree.draftFolder, FileTree.draftFolder, parent]
    rfl
  have lost : t.stat (backupPath p text) = .error .notFound := by
    obtain ⟨k, whole⟩ := FileTree.walk_of_parent above named true
    simp only [FileTree.namesEntry, Bool.and_eq_true, bne_iff_ne] at named
    rw [FileTree.stat, whole, FileTree.walk_of_absent named.2 free, absence_of_short short]
  have missing : t.exists? (backupPath p text) = false := by rw [FileTree.exists?, lost]
  unfold backup
  simp only [FileTree.incident?, FileTree.obstacle?_of_absence lost rfl, Option.map_none, missing,
    Bool.false_eq_true, if_false]
  exact FileTree.write_of_free above named (by simp [free]) (fun _ => short) drafts' sound _

lemma name_backupPath (p : Path) (text : Text) :
    (backupPath p text).name =
      p.name ++ '.' :: (Digest.sha1 (Utf8.encode text)).take 8 ++ ".bak".toList := by
  rw [backupPath, Path.withName, Path.child, Path.name, List.getLast?_concat, Option.getD_some]

lemma length_lt_backupPath (p : Path) (text : Text) :
    p.name.length + 4 < (backupPath p text).name.length := by
  have tail : ".bak".toList.length = 4 := rfl
  rw [name_backupPath, List.length_append, List.length_append, List.length_cons, tail]
  omega

lemma namesEntry_backupPath (p : Path) (text : Text) :
    FileTree.namesEntry (backupPath p text) = true := by
  have other : (backupPath p text).name ≠ "..".toList := by
    intro same
    have long := length_lt_backupPath p text
    rw [same, show "..".toList.length = 2 from rfl] at long
    omega
  rw [FileTree.namesEntry, bne_iff_ne.2 other]
  simp [backupPath, Path.withName, Path.child]

/-- A file in the root folder that changes is written after its text was kept under a new name. -/
lemma ToChange.process_of_fresh {name text : Text} {q : Progress} {old : Bytes}
    (change : ToChange c o t ⟨0, [name]⟩ text q) (keeps : o.backup = true) (root : t.working = [])
    (named : FileTree.namesEntry ⟨0, [name]⟩ = true) (stands : t.node? [name] = some (.file old))
    (absent : t.node? [(backupPath ⟨0, [name]⟩ text).name] = none)
    (short : isTooLong (backupPath ⟨0, [name]⟩ text).name = false) :
    process c o t ⟨0, [name]⟩ = finished ⟨0, [name]⟩ o text q
      ((t.put [(backupPath ⟨0, [name]⟩ text).name] (.file (Utf8.encode text))).put [name]
        (.file (Utf8.encode q.text)), none) := by
  have located : t.locateParent ⟨0, [name]⟩ = .ok [] := FileTree.locateFolder_root root 0
  have drafted : t.locateFolder (t.draftFolder ⟨0, [name]⟩) = .ok [] := by
    rw [FileTree.draftFolder, root]
    exact FileTree.locateFolder_root root 1
  have made := backup_of_free located (namesEntry_backupPath _ text) drafted absent short
    (rfl : Disk.sound.mishap _ = none)
  have other : [name] ≠ [(backupPath ⟨0, [name]⟩ text).name] := by
    intro same
    have long := length_lt_backupPath ⟨0, [name]⟩ text
    rw [← List.head_eq_of_cons_eq same] at long
    exact absurd long (Nat.not_lt.2 (Nat.le_add_right ..))
  generalize there : t.put ([] ++ [(backupPath ⟨0, [name]⟩ text).name])
    (.file (Utf8.encode text)) = u at made
  have base : u.working = [] := by
    rw [← there]
    exact root
  have above : u.locateParent ⟨0, [name]⟩ = .ok [] := FileTree.locateFolder_root base 0
  have drafts : u.locateFolder (u.draftFolder ⟨0, [name]⟩) = .ok [] := by
    rw [FileTree.draftFolder, base]
    exact FileTree.locateFolder_root base 1
  have still : u.node? [name] = some (.file old) := by
    rw [← there]
    exact (FileTree.node?_put_of_ne (by simp) _ other).trans stands
  have written := FileTree.write_of_free above named (by simp [Path.name, still])
    (by simp [Path.name, still]) drafts (rfl : Disk.sound.mishap _ = none) (Utf8.encode q.text)
  rw [change.process_eq .sound, change.save_of_backup keeps made, FileTree.writeText, written, ← there]
  rfl

/-- A file is to change if the line with a phrase is read from it. -/
lemma toChange_phraseLine {folder : Location} {bytes : Bytes} {text : Text}
    (located : t.locateParent p = .ok folder) (named : FileTree.namesEntry p = true)
    (script : Path.lower p.suffix = ".ts".toList)
    (stands : t.node? (folder ++ [p.name]) = some (.file bytes))
    (decoded : Utf8.decode bytes = .ok text) (folded : Text.foldNewlines text = phraseLine)
    (small : (bytes.length : Int) ≤ 2097152) :
    ∃ q, ToChange default { backup := true } t p phraseLine q ∧ q.replaced = 1 := by
  obtain ⟨q, worked, one, changed⟩ := localizeModule_lines.1
  refine ⟨q, ?_, one⟩
  constructor
  case checked =>
    refine precheck_of_stands located named stands fun limit same => .inr ?_
    cases same
    exact small
  case read => rw [readText_of_stands located named stands decoded, folded]
  case worked =>
    refine ⟨localizeModule default ".ts".toList .empty, ?_, worked⟩
    rw [script]
    rfl
  case other =>
    rw [changed]
    decide
  case writes => rfl

/-- A path behind a file leads nowhere, and neither does one behind nothing. -/
lemma process_behind {name last : Text} (named : name ≠ "..".toList)
    (short : isTooLong name = false) (root : t.working = []) :
    (t.node? [name] = none →
      (process default { backup := true } t ⟨0, [name, last]⟩).outcome =
        .failed (.access ⟨.notFound, [⟨0, [name, last]⟩]⟩)) ∧
    (∀ bytes, t.node? [name] = some (.file bytes) →
      (process default { backup := true } t ⟨0, [name, last]⟩).outcome =
        .failed (.access ⟨.notFolder, [⟨0, [name, last]⟩]⟩)) := by
  have failing : ∀ f, f.isAbsence = true →
      (∀ follow, t.locate follow ⟨0, [name, last]⟩ = .error f) →
      (process default { backup := true } t ⟨0, [name, last]⟩).outcome =
        .failed (.access ⟨f, [⟨0, [name, last]⟩]⟩) := by
    intro f absent lost
    have checked : precheck t ⟨0, [name, last]⟩ (some 2097152) = .error f := by
      simp [precheck, FileTree.obstacle?, FileTree.isLink, FileTree.sizeOf, FileTree.stat, lost, absent]
    simp only [process, checked]
    rfl
  constructor
  · intro absent
    refine failing _ rfl fun follow => ?_
    rw [FileTree.locate, root, ← absence_of_short short]
    exact @FileTree.walk_of_absent t [] name named absent follow _ [last]
  · intro bytes file
    refine failing _ rfl fun follow => ?_
    rw [FileTree.locate, root]
    exact FileTree.walk_of_file named file ..

/-- Two paths to one file, by way of double dots. -/
lemma results_of_shared_file :
    let t := ((FileTree.empty []).put ["x".toList] .folder).put ["a.ts".toList]
      (.file (Utf8.encode phraseLine))
    let p : Path := ⟨0, ["a.ts".toList]⟩
    let q : Path := ⟨0, ["x".toList, "..".toList, "a.ts".toList]⟩
    (processBatch default {} t .empty [p, q]).results =
        [⟨p, .done 1 true none⟩, ⟨q, .done 0 false none⟩] ∧
      (processBatch default {} t .empty [q, p]).results =
        [⟨q, .done 1 true none⟩, ⟨p, .done 0 false none⟩] := by
  intro t p q
  let tree (bytes : Bytes) : FileTree :=
    ((FileTree.empty []).put ["x".toList] .folder).put ["a.ts".toList] (.file bytes)
  have above : ∀ bytes, (tree bytes).locateParent p = .ok [] := fun bytes =>
    FileTree.locateFolder_root rfl 0
  have above' : ∀ bytes, (tree bytes).locateParent q = .ok [] := by
    intro bytes
    refine FileTree.locateFolder_of_node? ?_ rfl
    show FileTree.walk (tree bytes) true _ [] ["x".toList, "..".toList] = .ok []
    rw [FileTree.walk_of_folder (by decide) rfl, FileTree.walk_dots, FileTree.walk.eq_1]
    rfl
  -- under whichever path the file is worked on first, it changes, and then it does not
  have first : (process default {} t p).outcome = .done 1 true none ∧
      (process default {} t p).tree = tree (Utf8.encode lookupLines) :=
    process_phraseLine (above _) (by decide) (by decide) (FileTree.locateFolder_root rfl 1) rfl
  have first' : (process default {} t q).outcome = .done 1 true none ∧
      (process default {} t q).tree = tree (Utf8.encode lookupLines) :=
    process_phraseLine (above' _) (by decide) (by decide) (FileTree.locateFolder_root rfl 1) rfl
  have second := process_lookupLines (above (Utf8.encode lookupLines)) (by decide) (by decide) rfl
  have second' := process_lookupLines (above' (Utf8.encode lookupLines)) (by decide) (by decide) rfl
  rw [processBatch_one (Nat.le_refl 1), processBatch_one (Nat.le_refl 1)]
  simp only [processEach, List.foldl_cons, List.foldl_nil, Batch.process, first, first', second.1,
    second'.1, List.nil_append, List.cons_append, and_self]

/-- A path that goes on behind the place where the backup of a file is put. -/
lemma results_of_path_behind_backup :
    let t := (FileTree.empty []).put ["a.ts".toList] (.file (Utf8.encode phraseLine))
    let p : Path := ⟨0, ["a.ts".toList]⟩
    let q := (backupPath p phraseLine).child "b.ts".toList
    (⟨q, .failed (.access ⟨.notFolder, [q]⟩)⟩ : Result) ∈
        (processBatch default { backup := true } t .empty [p, q]).results ∧
      (⟨q, .failed (.access ⟨.notFound, [q]⟩)⟩ : Result) ∈
        (processBatch default { backup := true } t .empty [q, p]).results := by
  intro t p q
  generalize naming : (backupPath p phraseLine).name = name
  have shape : q = ⟨0, [name, "b.ts".toList]⟩ := by
    rw [← naming]
    rfl
  have long : p.name.length + 4 < name.length := naming ▸ length_lt_backupPath p phraseLine
  have short : isTooLong name = false := by
    apply isTooLong_eq_false
    rw [← naming, name_backupPath, List.length_append, List.length_append, List.length_cons,
      List.length_take]
    have size : p.name.length = 4 ∧ ".bak".toList.length = 4 := ⟨rfl, rfl⟩
    omega
  have named : name ≠ "..".toList := by
    rintro rfl
    exact absurd long (by decide)
  have other : [name] ≠ [p.name] := by
    intro same
    rw [List.head_eq_of_cons_eq same] at long
    exact absurd long (by decide)
  have absent : t.node? [name] = none :=
    FileTree.node?_put_of_ne (by simp) _ other
  have kept : ∃ bytes, (process default { backup := true } t p).tree.node? [name] =
      some (.file bytes) ∧ (process default { backup := true } t p).tree.working = [] := by
    have located : t.locateParent p = .ok [] := FileTree.locateFolder_root rfl 0
    obtain ⟨r, change, -⟩ := toChange_phraseLine located (by decide) rfl rfl
      (rfl : Utf8.decode (Utf8.encode phraseLine) = .ok phraseLine) rfl (by decide)
    have whole := change.process_of_fresh rfl rfl (by decide) rfl (naming ▸ absent) (naming ▸ short)
    rw [whole, naming]
    refine ⟨Utf8.encode phraseLine, ?_, rfl⟩
    simp only [finished]
    exact (FileTree.node?_put_of_ne (by simp) _ other).trans (FileTree.node?_put_self (by simp) _)
  obtain ⟨bytes, stands, root⟩ := kept
  rw [processBatch_one (Nat.le_refl 1), processBatch_one (Nat.le_refl 1), shape]
  simp only [processEach, List.foldl_cons, List.foldl_nil, Batch.process]
  constructor
  · rw [(process_behind named short root).2 bytes stands]
    exact List.mem_append_right _ List.mem_cons_self
  · rw [(process_behind named short rfl).1 absent]
    exact List.mem_cons_self

/-- The order of the files matters where two paths lead to one file: its phrase is found under the
first of them. It matters too where a path goes on behind the backup of another file. -/
theorem processBatch_order_matters :
    let p : Path := ⟨0, ["a.ts".toList]⟩
    (let t := ((FileTree.empty []).put ["x".toList] .folder).put ["a.ts".toList]
        (.file (Utf8.encode phraseLine))
      let q : Path := ⟨0, ["x".toList, "..".toList, "a.ts".toList]⟩
      p ≠ q ∧ (∀ text, backupPath p text ≠ q ∧ backupPath q text ≠ p) ∧
        (processBatch default {} t .empty [p, q]).results =
          [⟨p, .done 1 true none⟩, ⟨q, .done 0 false none⟩] ∧
        (processBatch default {} t .empty [q, p]).results =
          [⟨q, .done 1 true none⟩, ⟨p, .done 0 false none⟩]) ∧
    (let t := (FileTree.empty []).put ["a.ts".toList] (.file (Utf8.encode phraseLine))
      let q := (backupPath p phraseLine).child "b.ts".toList
      p ≠ q ∧ (∀ text, backupPath p text ≠ q ∧ backupPath q text ≠ p) ∧
        (⟨q, .failed (.access ⟨.notFolder, [q]⟩)⟩ : Result) ∈
          (processBatch default { backup := true } t .empty [p, q]).results ∧
        (⟨q, .failed (.access ⟨.notFound, [q]⟩)⟩ : Result) ∈
          (processBatch default { backup := true } t .empty [q, p]).results) := by
  intro p
  -- paths with another number of names are others, and a backup has as many as its file
  have apart : ∀ {q : Path}, q.parts.length ≠ 1 → p ≠ q := by
    rintro q longer rfl
    exact longer rfl
  have kept : ∀ {q : Path}, q.parts.length ≠ 1 → q.parts ≠ [] →
      ∀ text, backupPath p text ≠ q ∧ backupPath q text ≠ p := by
    intro q longer nonempty text
    constructor
    · rintro rfl
      exact longer rfl
    · intro same
      have count := congrArg (fun r => r.parts.length) same
      simp only [backupPath, Path.withName, Path.child, Path.parent, List.length_append,
        List.length_dropLast, List.length_cons, List.length_nil, p] at count
      have positive := List.length_pos_iff.2 nonempty
      omega
  refine ⟨?_, ?_⟩
  · intro t q
    exact ⟨apart (by decide), kept (by decide) (by decide), results_of_shared_file⟩
  · intro t q
    have long : q.parts.length = 2 := rfl
    exact ⟨apart (by omega), kept (by omega) (by simp [q, Path.child]),
      results_of_path_behind_backup⟩

end Source

end Phrasebook
