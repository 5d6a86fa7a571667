import Phrasebook.Files.Tree
import Phrasebook.Text.LineEnd

/-!
# Reading files as texts
-/

namespace Phrasebook.Files

/-- Why a file cannot be read as a text. -/
inductive ReadFault where
  | access (fault : Fault)
  | encoding (fault : Utf8.Fault)
  deriving Repr, DecidableEq

/-- The message of a fault in the file at a path. -/
def ReadFault.message (p : Path) : ReadFault → Text
  | access f => Incident.message ⟨f, [p]⟩
  | encoding f => f.message

/-- The text that bytes stand for, with a line feed for each kind of line end. -/
def textOf : Except Fault Bytes → Except ReadFault Text
  | .error f => .error (.access f)
  | .ok bytes =>
    match Utf8.decode bytes with
    | .error f => .error (.encoding f)
    | .ok text => .ok (Text.foldNewlines text)

/-- The text of a file. -/
def readText (t : FileTree) (p : Path) : Except ReadFault Text :=
  textOf (t.readBytes p)

end Phrasebook.Files
