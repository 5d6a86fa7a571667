import Phrasebook.Text.Basic
import Phrasebook.Text.Quoted

/-!
# Paths

A path is a list of names, relative or from the root. Empty names and single dots disappear when a
path is read; double dots stay. Two slashes in front, and not more, are kept apart from one.
-/

namespace Phrasebook

/-- A path. -/
structure Path where
  /-- The number of slashes in front: none for a relative path. -/
  slashes : Nat
  /-- The names, in order. -/
  parts : List Text
  deriving Repr, DecidableEq

namespace Path

/-- The names in a text between slashes. -/
def names (t : Text) : List Text :=
  (t.splitOn '/').filter fun name => !name.isEmpty && name != ['.']

/-- Reads a path. -/
def ofText (t : Text) : Path :=
  let n := (t.takeWhile (· == '/')).length
  ⟨if n = 0 then 0 else if n = 2 then 2 else 1, names t⟩

/-- Shorthand for a path given as a string. -/
def ofString (s : String) : Path :=
  ofText s.toList

/-- Writes a path; the empty relative path is a dot. -/
def toText (p : Path) : Text :=
  if p.slashes = 0 && p.parts.isEmpty then ['.']
  else List.replicate p.slashes '/' ++ ['/'].intercalate p.parts

/-- Whether a path starts at the root. -/
def isAbsolute (p : Path) : Bool :=
  0 < p.slashes

/-- The last name; empty if there is none. -/
def name (p : Path) : Text :=
  p.parts.getLast?.getD []

/-- The offset of the dot that starts the suffix of a name: the last one, unless it is the first or
the last character. -/
def suffixStart? (name : Text) : Option Nat :=
  match Text.findLast? ['.'] name with
  | some i => if 0 < i && i + 1 < name.length then some i else none
  | none => none

/-- The suffix of the last name, with its dot. -/
def suffix (p : Path) : Text :=
  match suffixStart? p.name with
  | some i => p.name.drop i
  | none => []

/-- The last name without its suffix. -/
def stem (p : Path) : Text :=
  match suffixStart? p.name with
  | some i => p.name.take i
  | none => p.name

/-- The path without its last name. -/
def parent (p : Path) : Path :=
  ⟨p.slashes, p.parts.dropLast⟩

/-- The path with one more name. -/
def child (p : Path) (name : Text) : Path :=
  ⟨p.slashes, p.parts ++ [name]⟩

/-- A path seen from another one; a path from the root stays as it is. -/
def join (p q : Path) : Path :=
  if q.isAbsolute then q else ⟨p.slashes, p.parts ++ q.parts⟩

/-- The path with another last name. -/
def withName (p : Path) (name : Text) : Path :=
  p.parent.child name

/-- What is said of a path that has no name to put another in place of. -/
def namelessMessage (p : Path) : Text :=
  "PosixPath(".toList ++ Text.displayed p.toText ++ ") has an empty name".toList

/-- The path with another suffix; nothing for a path without a name. -/
def withSuffix? (p : Path) (suffix : Text) : Option Path :=
  if p.name.isEmpty then none else some (p.withName (p.stem ++ suffix))

/-- The names below `root` on the way to a path that starts with `root`. -/
def relativeTo? (p root : Path) : Option Path :=
  if p.slashes = root.slashes && root.parts.isPrefixOf p.parts then
    some ⟨0, p.parts.drop root.parts.length⟩
  else none

/-- The parts by which paths are compared: the slashes in front count as a name. -/
def orderKey (p : Path) : List Text :=
  if p.isAbsolute then List.replicate p.slashes '/' :: p.parts else p.parts

/-- Compares lists of names, name by name. -/
def leParts : List Text → List Text → Bool
  | [], _ => true
  | _ :: _, [] => false
  | a :: as, b :: bs => if a = b then leParts as bs else Text.le a b

/-- Orders paths by their names, not by their texts. -/
def le (p q : Path) : Bool :=
  leParts p.orderKey q.orderKey

/-- A text in small letters, as far as it is ASCII. -/
def lower (t : Text) : Text :=
  t.map Char.toLower

/-- Whether the suffix of a path is `.json`, in any case. -/
def isJson (p : Path) : Bool :=
  lower p.suffix = ".json".toList

end Path

end Phrasebook
