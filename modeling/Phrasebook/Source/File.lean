import Phrasebook.Files.Backup
import Phrasebook.Files.Read
import Phrasebook.LineDiff.Unified
import Phrasebook.Log
import Phrasebook.Source.Basic
import Phrasebook.Text.Quoted

/-!
# Source files

One source file is read, worked on, and written back if it changed. Whatever goes wrong stays with
the file: it is logged and told in the result, and neither the files nor the phrases of the run
change.
-/

namespace Phrasebook.Source

/-- What is to be done with source files. -/
structure Options where
  /-- The parts that are worked on. -/
  parts : Parts := {}
  /-- Whether nothing is written. -/
  dryRun : Bool := false
  /-- Whether the text before is kept. -/
  backup : Bool := false
  /-- Whether the changes are shown. -/
  showDiff : Bool := false
  /-- The size in bytes beyond which files are passed over; none or zero for no limit. -/
  maxSize : Option Int := some 2097152
  deriving Repr, DecidableEq

/-- Why a file was passed over. -/
inductive Skip where
  /-- It is a link. -/
  | link
  /-- It is larger than so many bytes. -/
  | tooLarge (limit : Int)
  /-- It is a script of its own, and those are left out. -/
  | scriptsDisabled
  /-- It is neither a component nor a script. -/
  | unsupported
  deriving Repr, DecidableEq

/-- What is said of a file passed over. -/
def Skip.message : Skip → Text
  | link => "symlink".toList
  | tooLarge limit => "larger than ".toList ++ Text.ofInt limit ++ " bytes".toList
  | scriptsDisabled => "script files disabled".toList
  | unsupported => "unsupported file type".toList

/-- What went wrong with a file. -/
inductive FileFault where
  | access (incident : Files.Incident)
  | encoding (fault : Utf8.Fault)
  | overflow (overflow : Template.Overflow)
  deriving Repr, DecidableEq

/-- The message of a fault. -/
def FileFault.message : FileFault → Text
  | access i => i.message
  | encoding f => f.message
  | overflow o => o.message

/-- A fault in reading the file at a path. -/
def FileFault.ofRead (p : Path) : Files.ReadFault → FileFault
  | .access f => access ⟨f, [p]⟩
  | .encoding f => encoding f

/-- How the work on a file ended. -/
inductive Outcome where
  /-- The file was passed over. -/
  | skipped (reason : Skip)
  /-- Something went wrong. -/
  | failed (fault : FileFault)
  /-- So many terms were replaced, and the text changed or not. -/
  | done (replaced : Nat) (changed : Bool) (diff : Option Text)
  deriving Repr, DecidableEq

/-- The result for a file. -/
structure Result where
  /-- The file. -/
  path : Path
  /-- How the work ended. -/
  outcome : Outcome
  deriving Repr, DecidableEq

namespace Result

/-- Whether nothing went wrong. -/
def succeeded (r : Result) : Bool :=
  match r.outcome with
  | .failed _ => false
  | _ => true

/-- How many terms were replaced. -/
def extracted (r : Result) : Nat :=
  match r.outcome with
  | .done n _ _ => n
  | _ => 0

/-- Whether the text changed. -/
def changed (r : Result) : Bool :=
  match r.outcome with
  | .done _ c _ => c
  | _ => false

/-- The changes, if they are shown. -/
def diff (r : Result) : Option Text :=
  match r.outcome with
  | .done _ _ d => d
  | _ => none

end Result

/-- What the work on a file leaves behind. -/
structure Worked where
  /-- The files. -/
  tree : FileTree
  /-- The result. -/
  outcome : Outcome
  /-- The phrases of the file; none unless the work is done. -/
  phrases : Registry := .empty
  /-- What is to be logged. -/
  records : List Log.Record := []

/-- The reason, if any, to pass over a file before it is read. -/
def precheck (t : FileTree) (p : Path) (maxSize : Option Int) : Except Files.Fault (Option Skip) :=
  match t.obstacle? false p with
  | some f => .error f
  | none =>
    if t.isLink p then .ok (some .link)
    else
      match maxSize with
      | none => .ok none
      | some limit =>
        if limit = 0 then .ok none
        else
          match t.sizeOf p with
          | .error f => .error f
          | .ok n => .ok (if limit < n then some (.tooLarge limit) else none)

/-- The work on a text, by the suffix of its file; a reason if there is none to do. -/
def worker (c : Config) (parts : Parts) (suffix : Text) :
    Except Skip (Text → Except Failure Progress) :=
  if suffix = componentSuffix then .ok (localizeComponent c parts .empty)
  else if scriptSuffixes.contains suffix then
    if parts.ts then .ok (localizeModule c suffix .empty) else .error .scriptsDisabled
  else .error .unsupported

theorem worker_eq_ok {c : Config} {parts : Parts} {suffix : Text}
    {work : Text → Except Failure Progress} (chosen : worker c parts suffix = .ok work) :
    suffix = componentSuffix ∧ work = localizeComponent c parts .empty ∨
      suffix ∈ scriptSuffixes ∧ parts.ts = true ∧ work = localizeModule c suffix .empty := by
  unfold worker at chosen
  split at chosen
  · rename_i component
    exact .inl ⟨component, (Except.ok.inj chosen).symm⟩
  · split at chosen
    · rename_i known
      split at chosen
      · rename_i enabled
        exact .inr ⟨List.contains_iff_mem.1 known, enabled, (Except.ok.inj chosen).symm⟩
      · cases chosen
    · cases chosen

/-- The records of spans that were left alone. -/
def leftAloneRecords (spans : List Text) : List Log.Record :=
  spans.map fun s =>
    ⟨.debug, "Left ".toList ++ Text.displayed s ++ " alone: no safe call site".toList⟩

/-- Writes a changed text back, with a backup of the text before if one is asked for. -/
def save (t : FileTree) (p : Path) (o : Options) (before after : Text)
    (disk : Files.Disk := .sound) : FileTree × Option Files.Incident :=
  if o.dryRun then (t, none)
  else if o.backup then
    match Files.backup t p before disk with
    | (t, some i) => (t, some i)
    | (t, none) => t.writeText p after disk
  else t.writeText p after disk

/-- The record of a file with which something went wrong. -/
def failureRecord (p : Path) (f : FileFault) : Log.Record :=
  ⟨.error, "Failed to process ".toList ++ p.toText ++ ": ".toList ++ f.message⟩

/-- The end of the work on a file with which something went wrong. -/
def fail (t : FileTree) (p : Path) (f : FileFault) (records : List Log.Record) : Worked :=
  { tree := t, outcome := .failed f, records := records ++ [failureRecord p f] }

/-- The record of a file with replaced terms. -/
def doneRecords (p : Path) (replaced : Nat) : List Log.Record :=
  if replaced = 0 then []
  else [⟨.info, p.toText ++ ": ".toList ++ Text.ofNat replaced ++ " term(s)".toList⟩]

/-- The work on a file whose text has been read. -/
def workOn (t : FileTree) (p : Path) (o : Options)
    (work : Text → Except Failure Progress) (text : Text) (disk : Files.Disk := .sound) : Worked :=
  match work text with
  | .error f => fail t p (.overflow f.overflow) (leftAloneRecords f.leftAlone)
  | .ok q =>
    let left := leftAloneRecords q.leftAlone
    let changed := q.text != text
    let diff := if changed && o.showDiff then some (LineDiff.unified text q.text p.toText) else none
    match if changed then save t p o text q.text disk else (t, none) with
    | (t, some i) => fail t p (.access i) left
    | (t, none) =>
      { tree := t, outcome := .done q.replaced changed diff, phrases := q.registry
        records := left ++ doneRecords p q.replaced }

/-- The record of a file that was passed over before it was read. -/
def skipRecord (p : Path) (reason : Skip) : Log.Record :=
  ⟨.warning, "Skipping ".toList ++ p.toText ++ ": ".toList ++ reason.message⟩

/-- The work on one file. -/
def process (c : Config) (o : Options) (t : FileTree) (p : Path) (disk : Files.Disk := .sound) :
    Worked :=
  match precheck t p o.maxSize with
  | .error f => fail t p (.access ⟨f, [p]⟩) []
  | .ok (some reason) =>
    { tree := t, outcome := .skipped reason, records := [skipRecord p reason] }
  | .ok none =>
    match worker c o.parts (Path.lower p.suffix) with
    | .error reason => { tree := t, outcome := .skipped reason }
    | .ok work =>
      match Files.readText t p with
      | .error f => fail t p (.ofRead p f) []
      | .ok text => workOn t p o work text disk

end Phrasebook.Source
