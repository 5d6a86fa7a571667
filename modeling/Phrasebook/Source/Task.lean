import Phrasebook.Source.File

/-!
# The work on a file in steps

The files of a run may be worked on at the same time. The work on each goes on in steps: the file is
inspected, read, backed up and written. Between two of them the work on other files may go on.
-/

namespace Phrasebook.Source

/-- How far the work on a file has come. -/
inductive Task where
  /-- It has not begun. -/
  | waiting
  /-- The file has been inspected, and there is work to do. -/
  | inspected (work : Text → Except Failure Progress)
  /-- The file has been read, and it is to change. -/
  | changed (text : Text) (progress : Progress)
  /-- The text before has been kept. -/
  | kept (text : Text) (progress : Progress)
  /-- It has come to its end. -/
  | ended (outcome : Outcome) (phrases : Registry)

/-- What a step leaves behind. -/
structure Stepped where
  /-- The files. -/
  tree : FileTree
  /-- How far the work has come. -/
  task : Task
  /-- What is to be logged. -/
  records : List Log.Record := []

/-- The step with which the work comes to its end. -/
def Stepped.last (w : Worked) : Stepped :=
  ⟨w.tree, .ended w.outcome w.phrases, w.records⟩

namespace Task

/-- Whether the work has not begun. -/
def isWaiting : Task → Bool
  | waiting => true
  | _ => false

/-- Whether the work has come to its end. -/
def isEnded : Task → Bool
  | ended .. => true
  | _ => false

/-- Whether the work has begun and not come to its end. -/
def isRunning (k : Task) : Bool :=
  !k.isWaiting && !k.isEnded

/-- The end of the work on a file that was worked on. -/
def conclude (t : FileTree) (p : Path) (o : Options) (text : Text) (q : Progress) : Stepped :=
  let changed := q.text != text
  let diff := if changed && o.showDiff then some (LineDiff.unified text q.text p.toText) else none
  .last { tree := t, outcome := .done q.replaced changed diff, phrases := q.registry
          records := doneRecords p q.replaced }

/-- Looks whether there is work to do on a file. -/
def inspect (c : Config) (o : Options) (p : Path) (t : FileTree) : Stepped :=
  match precheck t p o.maxSize with
  | .error f => .last (fail t p (.access ⟨f, [p]⟩) [])
  | .ok (some reason) =>
    .last { tree := t, outcome := .skipped reason, records := [skipRecord p reason] }
  | .ok none =>
    match worker c o.parts (Path.lower p.suffix) with
    | .error reason => .last { tree := t, outcome := .skipped reason }
    | .ok work => ⟨t, inspected work, []⟩

/-- Reads a file and works on its text. -/
def read (o : Options) (p : Path) (work : Text → Except Failure Progress) (t : FileTree) : Stepped :=
  match Files.readText t p with
  | .error f => .last (fail t p (.ofRead p f) [])
  | .ok text =>
    match work text with
    | .error f => .last (fail t p (.overflow f.overflow) (leftAloneRecords f.leftAlone))
    | .ok q =>
      let left := leftAloneRecords q.leftAlone
      if q.text != text && !o.dryRun then ⟨t, changed text q, left⟩
      else
        let last := conclude t p o text q
        { last with records := left ++ last.records }

/-- Keeps the text before. -/
def keep (p : Path) (disk : Files.Disk) (text : Text) (q : Progress) (t : FileTree) : Stepped :=
  match Files.backup t p text disk with
  | (t, some i) => .last (fail t p (.access i) [])
  | (t, none) => ⟨t, kept text q, []⟩

/-- Writes the new text. -/
def store (o : Options) (p : Path) (disk : Files.Disk) (text : Text) (q : Progress) (t : FileTree) :
    Stepped :=
  match t.writeText p q.text disk with
  | (t, some i) => .last (fail t p (.access i) [])
  | (t, none) => conclude t p o text q

/-- One step of the work on a file. -/
def step (c : Config) (o : Options) (p : Path) (disk : Files.Disk) (t : FileTree) : Task → Stepped
  | waiting => inspect c o p t
  | inspected work => read o p work t
  | changed text q => if o.backup then keep p disk text q t else store o p disk text q t
  | kept text q => store o p disk text q t
  | ended outcome phrases => ⟨t, ended outcome phrases, []⟩

end Task

end Phrasebook.Source
