import Phrasebook.Source.Task

/-!
# Batches of source files

The files of a run are worked on in a pool with some number of threads, each file with a registry of
its own; when all are done, these go into the registry of the run in the order of the files. Which of
the files goes on next is left to a schedule. A run may also only list the phrases without changing
any file.
-/

namespace Phrasebook.Source

/-- What a run has come to. -/
structure Batch where
  /-- The files. -/
  tree : FileTree
  /-- The results, in the order of the files. -/
  results : List Result
  /-- The phrases. -/
  registry : Registry
  /-- What is to be logged. -/
  records : List Log.Record

/-- Adds the work on one more file, with the phrases going into the registry of the run at once. -/
def Batch.process (c : Config) (o : Options) (b : Batch) (p : Path)
    (disk : Files.Disk := .sound) : Batch :=
  let w := Source.process c o b.tree p disk
  { tree := w.tree
    results := b.results ++ [⟨p, w.outcome⟩]
    registry := b.registry.merge w.phrases.phrases
    records := b.records ++ w.records }

/-- Works on files one after another. -/
def processEach (c : Config) (o : Options) (t : FileTree) (registry : Registry)
    (paths : List Path) (disk : Files.Disk := .sound) : Batch :=
  paths.foldl (fun b p => Batch.process c o b p disk) ⟨t, [], registry, []⟩

/-- The files of a run under work. -/
structure Pool where
  /-- The tree. -/
  tree : FileTree
  /-- The files, in order, and how far the work on each has come. -/
  tasks : List (Path × Task)
  /-- What is to be logged. -/
  records : List Log.Record

namespace Pool

/-- The pool before any work has begun. -/
def start (t : FileTree) (paths : List Path) : Pool :=
  ⟨t, paths.map (·, .waiting), []⟩

/-- The places of the files that may go on: those under work, and the next one if a thread is free. -/
def ready (threads : Nat) (pool : Pool) : List Nat :=
  let running := (pool.tasks.zipIdx.filter (·.1.2.isRunning)).map Prod.snd
  if running.length < max 1 threads then
    running ++ (pool.tasks.findIdx? (·.2.isWaiting)).toList
  else running

/-- One step of the work on the file at a place. -/
def step (c : Config) (o : Options) (disk : Files.Disk) (pool : Pool) (i : Nat) : Pool :=
  match pool.tasks[i]? with
  | none => pool
  | some (p, k) =>
    let s := k.step c o p disk pool.tree
    ⟨s.tree, pool.tasks.set i (p, s.task), pool.records ++ s.records⟩

/-- One step of the work on one of the files that may go on, as `choice` says. -/
def advance (c : Config) (o : Options) (disk : Files.Disk) (threads choice : Nat) (pool : Pool) :
    Pool :=
  match pool.ready threads with
  | [] => pool
  | i :: is => pool.step c o disk ((i :: is).getD (choice % (is.length + 1)) i)

/-- Some number of steps, chosen by a schedule. -/
def run (c : Config) (o : Options) (disk : Files.Disk) (threads : Nat) :
    (Nat → Nat) → Nat → Pool → Pool
  | _, 0, pool => pool
  | schedule, n + 1, pool =>
    run c o disk threads (fun k => schedule (k + 1)) n
      (pool.advance c o disk threads (schedule 0))

/-- The results of the files whose work has come to its end. -/
def results (pool : Pool) : List Result :=
  pool.tasks.filterMap fun e =>
    match e.2 with
    | .ended outcome _ => some ⟨e.1, outcome⟩
    | _ => none

/-- A registry with the phrases of all files with which nothing went wrong. -/
def gather (registry : Registry) (pool : Pool) : Registry :=
  pool.tasks.foldl (fun r e =>
    match e.2 with
    | .ended outcome phrases =>
      if (Result.mk e.1 outcome).succeeded then r.merge (Registry.empty.merge phrases.phrases).phrases
      else r
    | _ => r) registry

/-- What the run has come to. -/
def report (registry : Registry) (pool : Pool) : Batch :=
  ⟨pool.tree, pool.results, pool.gather registry, pool.records⟩

end Pool

/-- How many steps the work on a file takes at most. -/
def stepsPerFile : Nat := 4

/-- Works on files in a pool of threads. -/
def processBatch (c : Config) (o : Options) (t : FileTree) (registry : Registry)
    (paths : List Path) (disk : Files.Disk := .sound) (threads : Nat := 1)
    (schedule : Nat → Nat := fun _ => 0) : Batch :=
  ((Pool.start t paths).run c o disk threads schedule (stepsPerFile * paths.length)).report registry

/-- Adds the phrases of one more file, which stays as it is. -/
def Batch.scan (c : Config) (parts : Parts) (b : Batch) (p : Path) : Batch :=
  match Files.readText b.tree p with
  | .error f =>
    { b with
      results := b.results ++ [⟨p, .failed (.ofRead p f)⟩]
      records := b.records ++
        [⟨.error, "Failed to scan ".toList ++ p.toText ++ ": ".toList ++ f.message p⟩] }
  | .ok text =>
    let found := terms c parts (Path.lower p.suffix) text
    { b with
      results := b.results ++ [⟨p, .done found.length false none⟩]
      registry := b.registry.registerAll (found.map fun t => (t.content, t.content)) }

/-- Lists the phrases of files in order. -/
def scanBatch (c : Config) (parts : Parts) (t : FileTree) (registry : Registry)
    (paths : List Path) : Batch :=
  paths.foldl (Batch.scan c parts) ⟨t, [], registry, []⟩

namespace Batch

/-- The number of files. -/
def scanned (b : Batch) : Nat :=
  b.results.length

/-- The number of files with which nothing went wrong. -/
def succeeded (b : Batch) : Nat :=
  b.results.countP Result.succeeded

/-- The number of files with which something went wrong. -/
def failed (b : Batch) : Nat :=
  b.results.countP (!·.succeeded)

/-- The number of terms. -/
def extracted (b : Batch) : Nat :=
  b.results.foldl (fun n r => n + r.extracted) 0

/-- The number of files whose text changed. -/
def changed (b : Batch) : Nat :=
  b.results.countP Result.changed

/-- The summary of a run. -/
def summary (b : Batch) (dryRun : Bool) : List Text :=
  ["=== Done ===".toList,
    "Files scanned:    ".toList ++ Text.ofNat b.scanned,
    "Files succeeded:  ".toList ++ Text.ofNat b.succeeded,
    "Terms extracted:  ".toList ++ Text.ofNat b.extracted,
    "Unique keys:      ".toList ++ Text.ofNat b.registry.size] ++
  (if b.failed = 0 then [] else ["Files failed:     ".toList ++ Text.ofNat b.failed]) ++
  (if dryRun then ["Dry run: no source files were modified.".toList] else [])

end Batch

end Phrasebook.Source
