import Phrasebook.Files.Ignore
import Phrasebook.Files.Tree

/-!
# Finding the files of a run

The folders below a root are walked, without those that a pattern ignores and without following
links, and the files with one of the wanted extensions are listed in order.
-/

namespace Phrasebook.Files

/-- What the walk looks for. -/
structure Search where
  /-- The root as it was given. -/
  root : Path
  /-- The wanted suffixes. -/
  suffixes : List Text
  /-- The patterns of what is passed over. -/
  patterns : List Text

/-- Whether a path is passed over. -/
def Search.skips (s : Search) (p : Path) : Bool :=
  isIgnored s.patterns (some s.root) p

/-- Whether a file is wanted. -/
def Search.wants (s : Search) (p : Path) : Bool :=
  s.suffixes.contains p.suffix && !s.skips p

/-- Whether a node, found at a path, counts as a folder: it is one, or a link that leads to one. -/
def countsAsFolder (t : FileTree) (p : Path) : Node → Bool
  | .folder => true
  | .file _ => false
  | .link _ => t.isFolder p

/-- The wanted files below the folder at `loc`, which is called `here`, up to `depth` levels down. -/
def walkFolder (t : FileTree) (s : Search) : Nat → Location → Path → List Path
  | 0, _, _ => []
  | depth + 1, loc, here =>
    (t.children loc).flatMap fun (name, node) =>
      let p := here.child name
      match node with
      | .folder => if s.skips p then [] else walkFolder t s depth (loc ++ [name]) p
      | node => if !countsAsFolder t p node && s.wants p then [p] else []

/-- The number of levels of a tree. -/
def depth (t : FileTree) : Nat :=
  t.nodes.foldl (fun n e => max n e.1.length) 0

/-- A suffix with its dot. -/
def withDot (extension : Text) : Text :=
  if extension.head? = some '.' then extension else '.' :: extension

/-- The files below a root with one of the extensions that no pattern ignores, in order. -/
def discover (t : FileTree) (root : Path) (extensions patterns : List Text) : List Path :=
  match t.locate true root with
  | .error _ => []
  | .ok loc =>
    let s : Search := ⟨root, extensions.map withDot, patterns⟩
    (walkFolder t s (depth t + 1) loc root).mergeSort Path.le

end Phrasebook.Files
