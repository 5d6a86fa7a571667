import Phrasebook.Files.Read
import Phrasebook.Files.Write
import Phrasebook.Json.Reader
import Phrasebook.Json.Writer
import Phrasebook.Mapping.Basic
import Phrasebook.Text.Quoted

/-!
# Mapping files

A mapping is stored as one JSON object whose members are strings, laid out with a member a line.
-/

namespace Phrasebook.Mapping

/-- Why a file gives no mapping. -/
inductive FileFault where
  /-- The path cannot be looked up. -/
  | obstacle (fault : Files.Fault)
  /-- The path leads to no file. -/
  | missing
  /-- The file cannot be read as a text. -/
  | unreadable (fault : Files.ReadFault)
  /-- The text is not JSON. -/
  | malformed (message : Text)
  /-- The value is no object. -/
  | notObject
  /-- The member is no string. -/
  | notString (key : Text)
  deriving Repr, DecidableEq

/-- The message of a fault in the file at a path. -/
def FileFault.message (p : Path) : FileFault → Text
  | obstacle f => Files.Incident.message ⟨f, [p]⟩
  | missing => "File not found: ".toList ++ p.toText
  | unreadable f => "Cannot read ".toList ++ p.toText ++ ": ".toList ++ f.message p
  | malformed message => "Cannot read ".toList ++ p.toText ++ ": ".toList ++ message
  | notObject => p.toText ++ " does not hold a JSON object".toList
  | notString key => p.toText ++ ": non-string value for key ".toList ++ Text.displayed key

/-- The first member that is no string. -/
def oddMember? (members : Entries Json) : Option Text :=
  (members.find? fun e => e.2.str?.isNone).map Prod.fst

/-- The mapping that the members of an object make. -/
def ofMembers (members : Entries Json) : Except FileFault Mapping :=
  match oddMember? members with
  | some key => .error (.notString key)
  | none => .ok (.ofPairs (members.filterMap fun e => e.2.str?.map (e.1, ·)))

/-- Reads a mapping from a text. -/
def parse (text : Text) : Except FileFault Mapping :=
  match Json.read text with
  | .error f => .error (.malformed (f.message text))
  | .ok (.obj members) => ofMembers members
  | .ok _ => .error .notObject

/-- Reads a mapping file. -/
def load (t : FileTree) (p : Path) : Except FileFault Mapping :=
  match t.obstacle? true p with
  | some f => .error (.obstacle f)
  | none =>
    if !t.isFile p then .error .missing
    else
      match Files.readText t p with
      | .error f => .error (.unreadable f)
      | .ok text => parse text

/-- The text of a mapping. -/
def dump (m : Mapping) : Text :=
  Json.pretty 0 (.obj (m.entries.map fun e => (e.1, .str e.2)))

/-- Writes a mapping file; with `sort` the keys are put in order. -/
def store (t : FileTree) (p : Path) (m : Mapping) (sort : Bool) :
    FileTree × Option Files.Incident :=
  t.writeText p (if sort then m.sorted else m).dump

/-- The record of a mapping file that was written. -/
def storedMessage (p : Path) (m : Mapping) : Text :=
  "Wrote ".toList ++ Text.ofNat m.size ++ " entries to ".toList ++ p.toText

end Phrasebook.Mapping
