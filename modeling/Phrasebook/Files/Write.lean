import Phrasebook.Files.Tree

/-!
# Writing files

A file is written as a whole by way of a draft: the bytes go into a file of a new name, and that file
is then moved to its path. Each of these steps may go wrong on a disk. The draft never stays behind:
either it has become the file, or it is taken away.
-/

namespace Phrasebook

namespace Files

/-- What may go wrong with the draft of a file. -/
inductive Mishap where
  /-- The draft cannot be made. -/
  | refused (fault : Fault)
  /-- Only so many bytes of the draft can be written. -/
  | cutShort (written : Nat) (fault : Fault)
  /-- The draft cannot be moved. -/
  | stuck (fault : Fault)
  deriving Repr, DecidableEq

/-- The incident that a mishap ends in, for the file at a path with its draft in a folder. The name of
a draft is made up, so its folder is told in its place; bytes are written without a path. -/
def Mishap.incident (drafts p : Path) : Mishap → Incident
  | refused f => ⟨f, [drafts]⟩
  | cutShort _ f => ⟨f, []⟩
  | stuck f => ⟨f, [drafts, p]⟩

/-- How a disk drafts files. -/
structure Disk where
  /-- The name of a draft in a folder. -/
  draftName : FileTree → Location → Text
  /-- Nothing of that name stands in the folder. -/
  fresh : ∀ (t : FileTree) (folder : Location), t.node? (folder ++ [draftName t folder]) = none
  /-- What goes wrong with the draft of the file at a path. -/
  mishap : Path → Option Mishap

end Files

open Files

namespace FileTree

/-- More characters than the names of any place have that is listed. -/
def spareLength (nodes : List (Location × Node)) : Nat :=
  nodes.foldr (fun e n => e.1.flatten.length + n) 1

theorem length_lt_spareLength {nodes : List (Location × Node)} {e : Location × Node}
    (mem : e ∈ nodes) : e.1.flatten.length < spareLength nodes := by
  have positive : ∀ nodes : List (Location × Node), 0 < spareLength nodes := by
    intro nodes
    induction nodes with
    | nil => exact Nat.one_pos
    | cons d ds ih => exact Nat.add_pos_right _ ih
  induction nodes with
  | nil => cases mem
  | cons d ds ih =>
    show e.1.flatten.length < d.1.flatten.length + spareLength ds
    rcases List.mem_cons.1 mem with rfl | mem
    · exact Nat.lt_add_of_pos_right (positive ds)
    · exact Nat.lt_add_left _ (ih mem)

/-- A name that nothing in a tree has. -/
def spareName (t : FileTree) : Text :=
  List.replicate (spareLength t.nodes) '_'

theorem node?_spareName (t : FileTree) (folder : Location) :
    t.node? (folder ++ [t.spareName]) = none := by
  have absent : t.nodes.lookup (folder ++ [t.spareName]) = none := by
    rw [List.lookup_eq_none_iff]
    intro e mem
    rw [bne_iff_ne]
    intro same
    have size := length_lt_spareLength mem
    rw [← same, List.flatten_append, List.length_append] at size
    simp only [List.flatten_cons, List.flatten_nil, List.append_nil, spareName,
      List.length_replicate] at size
    omega
  simp [node?, absent]

end FileTree

/-- A disk on which nothing goes wrong. -/
def Files.Disk.sound : Disk :=
  ⟨fun t _ => t.spareName, FileTree.node?_spareName, fun _ => none⟩

instance : Inhabited Disk := ⟨.sound⟩

namespace FileTree

/-- Puts a file in place of what stands at a path, which must not be a folder; a link is replaced,
not followed. -/
def replaceFile (t : FileTree) (p : Path) (bytes : Bytes) : Except Fault FileTree :=
  match t.locateParent p with
  | .error f => .error f
  | .ok loc =>
    let place := loc ++ [p.name]
    if !namesEntry p then .error .busy
    else
      match t.node? place with
      | some .folder => .error .isFolder
      | some _ => .ok (t.put place (.file bytes))
      | none =>
        if isTooLong p.name then .error .nameTooLong else .ok (t.put place (.file bytes))

/-- Takes away what stands at a place. -/
def remove (t : FileTree) (loc : Location) : FileTree :=
  { t with nodes := t.nodes.filter (·.1 != loc) }

/-- Moves the file at a place to a path, in place of what stands there. -/
def moveFile (t : FileTree) (place : Location) (p : Path) : Except Fault FileTree :=
  match t.node? place with
  | some (.file bytes) => (t.remove place).replaceFile p bytes
  | _ => .error .notFound

/-- The folder in which a new file is drafted before it is moved to its path: the one that stands
above the path when its double dots are taken away by name, links or not. -/
def draftFolder (t : FileTree) (p : Path) : Path :=
  ⟨1, foldDots (startOf p.isAbsolute t.working) p.parent.parts⟩

/-- Writes a file by way of a draft in a folder. -/
def writeVia (t : FileTree) (folder : Location) (p : Path) (bytes : Bytes) (disk : Disk) :
    FileTree × Option Incident :=
  let draft := folder ++ [disk.draftName t folder]
  match disk.mishap p with
  | some m =>
    let left := match m with
      | .refused _ => t
      | .cutShort n _ => (t.put draft (.file (bytes.take n))).remove draft
      | .stuck _ => (t.put draft (.file bytes)).remove draft
    (left, some (m.incident (t.draftFolder p) p))
  | none =>
    let drafted := t.put draft (.file bytes)
    match drafted.moveFile draft p with
    | .ok t => (t, none)
    | .error f => (drafted.remove draft, some ⟨f, [t.draftFolder p, p]⟩)

/-- Writes a file as a whole, with the folders above it: either the new bytes are in place or what
was there stays. -/
def write (t : FileTree) (p : Path) (bytes : Bytes) (disk : Disk := .sound) :
    FileTree × Option Incident :=
  match t.makeFolders p.parent with
  | (t, some i) => (t, some i)
  | (t, none) =>
    match t.locateFolder (t.draftFolder p) with
    | .error f => (t, some ⟨f, [t.draftFolder p]⟩)
    | .ok folder => t.writeVia folder p bytes disk

/-- Writes a text as a file. -/
def writeText (t : FileTree) (p : Path) (text : Text) (disk : Disk := .sound) :
    FileTree × Option Incident :=
  t.write p (Utf8.encode text) disk

end FileTree

end Phrasebook
