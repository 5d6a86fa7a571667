import Phrasebook.Files.Read

/-!
# What a system answers

Before a file is read, the system is asked where a run works and what a path leads to. It may answer
with any fault: a file tree is one system, and one whose files are not all permitted is another.
-/

namespace Phrasebook

namespace Files

/-- What a system answers when it is asked about files. -/
structure System where
  /-- The folder in which a run works. -/
  working : Except Fault Path
  /-- What a path leads to, links followed. -/
  stat : Path → Except Fault Node
  /-- The bytes of the file that a path leads to. -/
  read : Path → Except Fault Bytes

namespace System

/-- Whether a path leads to anything; a fault, if this cannot be told. -/
def exists? (s : System) (p : Path) : Except Fault Bool :=
  match s.stat p with
  | .ok _ => .ok true
  | .error f => if f.isAbsence then .ok false else .error f

/-- The text of a file. -/
def readText (s : System) (p : Path) : Except ReadFault Text :=
  textOf (s.read p)

end System

end Files

open Files

namespace FileTree

/-- The working folder as a path, if the folder is there. -/
def workingFolder (t : FileTree) : Except Fault Path :=
  match t.node? t.working with
  | some .folder => .ok t.workingPath
  | _ => .error .notFound

/-- A file tree as a system. -/
def system (t : FileTree) : System where
  working := t.workingFolder
  stat := t.stat
  read := t.readBytes

end FileTree

end Phrasebook
