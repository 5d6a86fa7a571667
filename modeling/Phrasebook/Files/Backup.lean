import Phrasebook.Digest
import Phrasebook.Files.Write

/-!
# Backups

The text of a file is kept next to it under a name that holds the beginning of its digest, so a text
is kept once.
-/

namespace Phrasebook.Files

/-- Where the backup of a text goes. -/
def backupPath (p : Path) (text : Text) : Path :=
  p.withName (p.name ++ '.' :: (Digest.sha1 (Utf8.encode text)).take 8 ++ ".bak".toList)

/-- Keeps a text next to a file, unless it is kept there already. -/
def backup (t : FileTree) (p : Path) (text : Text) (disk : Disk := .sound) :
    FileTree × Option Incident :=
  let target := backupPath p text
  match t.incident? target with
  | some i => (t, some i)
  | none => if t.exists? target then (t, none) else t.writeText target text disk

end Phrasebook.Files
