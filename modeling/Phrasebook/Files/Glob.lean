import Phrasebook.Files.Tree
import Phrasebook.Files.Wildcard

/-!
# Files by pattern

A pattern of names, with wildcards in them, selects files below a folder; two stars stand for any
number of folders, and links to folders are not followed there.
-/

namespace Phrasebook.Files

/-- Why a pattern is refused. -/
inductive PatternFault where
  /-- The pattern is empty. -/
  | empty
  /-- The pattern starts at the root. -/
  | absolute
  /-- Two stars stand beside other characters. -/
  | starsInName
  /-- The pattern has no name in it. -/
  | noName
  /-- The pattern has no name in it and ends in a slash. -/
  | onlySlash
  deriving Repr, DecidableEq

/-- The message of a refusal. -/
def PatternFault.message : PatternFault → Text
  | empty => "Unacceptable pattern: ''".toList
  | absolute => "Non-relative patterns are unsupported".toList
  | starsInName => "Invalid pattern: '**' can only be an entire path component".toList
  | noName => "tuple index out of range".toList
  | onlySlash =>
    "'_TerminatingSelector' object has no attribute 'select_from'".toList

/-- One step of a pattern. -/
inductive Selector where
  /-- The entry of the given name. -/
  | named (name : Text)
  /-- The entries whose names match a pattern. -/
  | matching (pattern : Text)
  /-- The folder itself and all folders below it. -/
  | anyDepth
  deriving Repr, DecidableEq

/-- The step for a name of a pattern. -/
def Selector.ofName (name : Text) : Except PatternFault Selector :=
  if name = "**".toList then .ok .anyDepth
  else if Text.occurs "**".toList name then .error .starsInName
  else if Wildcard.isWild name then .ok (.matching name)
  else .ok (.named name)

/-- The steps of a pattern, and whether only folders are meant: a pattern that ends in a slash. -/
def selectors (pattern : Text) : Except PatternFault (List Selector × Bool) :=
  if pattern.isEmpty then .error .empty
  else
    let p := Path.ofText pattern
    if p.isAbsolute then .error .absolute
    else
      let foldersOnly := pattern.getLast? == some '/'
      if p.parts.isEmpty then .error (if foldersOnly then .onlySlash else .noName)
      else
        match p.parts.mapM Selector.ofName with
        | .error f => .error f
        | .ok steps => .ok (steps, foldersOnly)

/-- A folder and all folders below it, up to `depth` levels down. -/
def foldersBelow (t : FileTree) : Nat → Location → Path → List Path
  | 0, _, here => [here]
  | depth + 1, loc, here =>
    here :: (t.children loc).flatMap fun (name, node) =>
      match node with
      | .folder => foldersBelow t depth (loc ++ [name]) (here.child name)
      | _ => []

/-- A list without its repetitions. -/
def distinct (ps : List Path) : List Path :=
  ps.foldl (fun seen p => if seen.contains p then seen else seen ++ [p]) []

/-- Looks a path up before it is asked what it leads to. -/
def lookUp (t : FileTree) (p : Path) : Except Incident Unit :=
  match t.incident? p with
  | some i => .error i
  | none => .ok ()

/-- The paths that the steps of a pattern select below a folder. All but the last step select
folders only; so does the last one if `foldersOnly` holds. -/
def select (t : FileTree) (foldersOnly : Bool) : List Selector → Path → Except Incident (List Path)
  | [], here => .ok [here]
  | step :: rest, here =>
    let folders := foldersOnly || !rest.isEmpty
    match step with
    | .named name => do
      let p := here.child name
      lookUp t p
      if if folders then t.isFolder p else t.exists? p then select t foldersOnly rest p
      else return []
    | .matching pattern =>
      match t.locate true here with
      | .error _ => .ok []
      | .ok loc => do
        let found ← (t.children loc).mapM fun (name, _) => do
          let p := here.child name
          if folders then lookUp t p
          if Wildcard.isMatch pattern name && (!folders || t.isFolder p) then
            select t foldersOnly rest p
          else return []
        return found.flatten
    | .anyDepth =>
      match t.locate true here with
      | .error _ => .ok []
      | .ok loc => do
        let found ← (foldersBelow t t.nodes.length loc here).mapM (select t foldersOnly rest)
        return distinct found.flatten

/-- Why no files can be selected. -/
inductive SelectFault where
  /-- A path that is left out cannot be resolved. -/
  | loop (fault : LinkLoop)
  /-- The pattern is refused. -/
  | pattern (fault : PatternFault)
  /-- A path cannot be looked up. -/
  | obstacle (incident : Incident)
  deriving Repr, DecidableEq

/-- The message of a fault. -/
def SelectFault.message : SelectFault → Text
  | loop f => f.message
  | pattern f => f.message
  | obstacle i => i.message

/-- The paths below a folder that a pattern selects. -/
def glob (t : FileTree) (folder : Path) (pattern : Text) : Except SelectFault (List Path) :=
  match selectors pattern with
  | .error f => .error (.pattern f)
  | .ok (steps, foldersOnly) =>
    let found := do
      lookUp t folder
      if t.isFolder folder then select t foldersOnly steps folder else return []
    found.mapError .obstacle

/-- Whether a path stands for one of the paths in `skipped`. -/
def isSkipped (t : FileTree) (skipped : List Path) (p : Path) : Bool :=
  match t.resolve p with
  | .ok q => skipped.contains q
  | .error _ => false

/-- The files below a folder that a pattern selects, in order, without those in `exclude`. -/
def matchingFiles (t : FileTree) (folder : Path) (pattern : Text) (exclude : List Path) :
    Except SelectFault (List Path) :=
  match exclude.mapM t.resolve with
  | .error f => .error (.loop f)
  | .ok skipped =>
    match glob t folder pattern with
    | .error f => .error f
    | .ok ps =>
      match ps.findSome? t.incident? with
      | some i => .error (.obstacle i)
      | none => .ok ((ps.filter fun p => t.isFile p && !isSkipped t skipped p).mergeSort Path.le)

end Phrasebook.Files
