import Phrasebook.Command.Arguments
import Phrasebook.Config.File
import Phrasebook.Files.Glob
import Phrasebook.Mapping.File

/-!
# Sessions

A command works on a console: the files, the log with its level, and what has been printed. It goes
on until it ends with an exit code or fails; what it did before stays done.
-/

namespace Phrasebook.Command

/-- What a command works on. -/
structure Console where
  /-- The files. -/
  tree : FileTree
  /-- The level of the log. -/
  level : Int := Log.standardLevel
  /-- The log so far. -/
  records : List Log.Record := []
  /-- What has been printed. -/
  output : Text := []

/-- What a command does not expect. -/
inductive Failure where
  /-- A path cannot be looked up, or a file cannot be written. -/
  | file (incident : Files.Incident)
  /-- Files cannot be selected. -/
  | select (fault : Files.SelectFault)
  /-- A path cannot be resolved. -/
  | loop (fault : Files.LinkLoop)
  /-- A path has no name to put a suffix on. -/
  | noName (path : Path)
  /-- A path is to be read from no text. -/
  | noText
  /-- Files are to be selected by no pattern. -/
  | noPattern
  /-- The number of workers is left blank. -/
  | noWorkers
  /-- A report is to be named after an output that is left blank. -/
  | noReport
  deriving Repr, DecidableEq

/-- The message of a failure. -/
def Failure.message : Failure → Text
  | file i => i.message
  | select f => f.message
  | loop f => f.message
  | noName p => p.namelessMessage
  | noText => "expected str, bytes or os.PathLike object, not list".toList
  | noPattern => "Unacceptable pattern: []".toList
  | noWorkers => "'>' not supported between instances of 'list' and 'int'".toList
  | noReport => "'list' object has no attribute 'lower'".toList

/-- How a command ends. -/
inductive Ending where
  | exit (code : Nat)
  | failed (failure : Failure)
  deriving Repr, DecidableEq

/-- The steps of a command. -/
abbrev Session := ExceptT Ending (StateM Console)

namespace Session

/-- Prints a text as it is. -/
def write (t : Text) : Session Unit :=
  modify fun c => { c with output := c.output ++ t }

/-- Prints a line. -/
def print (line : Text) : Session Unit :=
  write (line ++ ['\n'])

/-- Prints lines. -/
def printAll (lines : List Text) : Session Unit :=
  lines.forM print

/-- Logs a record, if it is grave enough. -/
def log (r : Log.Record) : Session Unit :=
  modify fun c =>
    if Log.isKept c.level r.severity then { c with records := c.records ++ [r] } else c

/-- Logs records. -/
def logAll (rs : List Log.Record) : Session Unit :=
  rs.forM log

/-- Sets the level of the log, if the name is known. -/
def setLevel (name : Option Text) : Session Unit :=
  modify fun c => { c with level := Log.setLevel c.level name }

/-- Ends with a failure. -/
def fail {α : Type} (f : Failure) : Session α :=
  throw (.failed f)

/-- Ends with an error in the log. -/
def refuse {α : Type} (message : Text) : Session α := do
  log ⟨.error, message⟩
  throw (.exit 1)

/-- The files. -/
def tree : Session FileTree := do
  return (← get).tree

/-- Changes the files. -/
def change (op : FileTree → FileTree × Option Files.Incident) :
    Session (Option Files.Incident) := do
  let c ← get
  let (t, incident) := op c.tree
  set { c with tree := t }
  return incident

/-- The path that a path stands for. -/
def resolve (p : Path) : Session Path := do
  match (← tree).resolve p with
  | .ok q => return q
  | .error f => fail (.loop f)

/-- Looks a path up before it is asked what it leads to. -/
def lookUp (p : Path) : Session Unit := do
  match (← tree).incident? p with
  | some i => fail (.file i)
  | none => return

/-- The text of an operand that must be given. -/
def operand (a : Arguments) (name : String) : Session Text :=
  match a.operand? name with
  | some t => return t
  | none => fail .noText

/-- The configuration that is asked for, or the one of the working folder. -/
def config (a : Arguments) : Session Config := do
  match a.word? "--config" with
  | none =>
    match Config.loadStandard (← tree).system with
    | .ok l =>
      logAll l.records
      return l.config
    | .error i => fail (.file i)
  | some path =>
    let p := Path.ofText path
    match Config.load (← tree).system p with
    | .ok l =>
      logAll l.records
      return l.config
    | .error (.obstacle f) => fail (.file ⟨f, [p]⟩)
    | .error f => refuse (f.message p)

/-- The folder with the sources. -/
def sourceFolder (target : Text) : Session Path := do
  let folder ← resolve (.ofText target)
  lookUp folder
  if (← tree).isFolder folder then return folder
  else refuse ("Target not found or not a directory: ".toList ++ folder.toText)

/-- The mapping in a file that must be right. -/
def mapping (p : Path) : Session Mapping := do
  match Mapping.load (← tree) p with
  | .ok m => return m
  | .error (.obstacle f) => fail (.file ⟨f, [p]⟩)
  | .error f => refuse (f.message p)

/-- Writes a mapping file; tells what went wrong if it cannot be written. -/
def store (p : Path) (m : Mapping) (sort : Bool) : Session (Option Files.Incident) := do
  match ← change fun t => Mapping.store t p m sort with
  | some i => return some i
  | none =>
    log ⟨.info, Mapping.storedMessage p m⟩
    return none

end Session

end Phrasebook.Command
