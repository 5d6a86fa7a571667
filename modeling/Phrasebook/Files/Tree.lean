import Phrasebook.Path
import Phrasebook.Text.Quoted
import Phrasebook.Text.Utf8

/-!
# File trees

The files that a run works on are a value: folders, files with their bytes, and links, each at its
place below the root. A path is followed name by name; a link on the way leads on from the folder it
stands in. What can go wrong is a fault with the number and the wording that operating systems give
it; as an incident it comes with the paths that it is about.
-/

namespace Phrasebook

namespace Files

/-- Why an operation on files failed. -/
inductive Fault where
  /-- There is no such file or folder. -/
  | notFound
  /-- What is asked for is not permitted. -/
  | denied
  /-- The folder is in use. -/
  | busy
  /-- Something stands there already. -/
  | exists
  /-- A name on the way is no folder. -/
  | notFolder
  /-- A folder stands where a file is needed. -/
  | isFolder
  /-- There is no room left. -/
  | full
  /-- A name is longer than names may be. -/
  | nameTooLong
  /-- Too many links were followed. -/
  | loop
  deriving Repr, DecidableEq

/-- The number of a fault. -/
def Fault.number : Fault → Nat
  | notFound => 2
  | denied => 13
  | busy => 16
  | .exists => 17
  | notFolder => 20
  | isFolder => 21
  | full => 28
  | nameTooLong => 36
  | loop => 40

/-- The wording of a fault. -/
def Fault.wording : Fault → Text
  | notFound => "No such file or directory".toList
  | denied => "Permission denied".toList
  | busy => "Device or resource busy".toList
  | .exists => "File exists".toList
  | notFolder => "Not a directory".toList
  | isFolder => "Is a directory".toList
  | full => "No space left on device".toList
  | nameTooLong => "File name too long".toList
  | loop => "Too many levels of symbolic links".toList

/-- Whether a fault says no more than that a path leads nowhere. -/
def Fault.isAbsence : Fault → Bool
  | notFound | notFolder | loop => true
  | denied | busy | .exists | isFolder | full | nameTooLong => false

/-- A fault with the paths that it is about: none, one, or the two of a move. -/
structure Incident where
  /-- What went wrong. -/
  fault : Fault
  /-- The paths, in the order in which they are told. -/
  paths : List Path
  deriving Repr, DecidableEq

/-- The message of an incident. -/
def Incident.message (i : Incident) : Text :=
  "[Errno ".toList ++ Text.ofNat i.fault.number ++ "] ".toList ++ i.fault.wording ++
    match i.paths with
    | [] => []
    | p :: ps =>
      ": ".toList ++ Text.displayed p.toText ++
        ps.flatMap fun q => " -> ".toList ++ Text.displayed q.toText

/-- A path that cannot be resolved, because its links lead round. -/
structure LinkLoop where
  /-- As far as the path could be resolved. -/
  path : Path
  deriving Repr, DecidableEq

/-- The message of such a path. -/
def LinkLoop.message (l : LinkLoop) : Text :=
  "Symlink loop from ".toList ++ Text.displayed l.path.toText

/-- What stands at a place. -/
inductive Node where
  | folder
  | file (bytes : Bytes)
  | link (target : Text)
  deriving Repr, DecidableEq

/-- A place: the names from the root down, none of which is a dot or a link. -/
abbrev Location := List Text

/-- How many bytes a name may have. -/
def nameLimit : Nat := 255

/-- Whether nothing can have a name, because it is too long. -/
def isTooLong (name : Text) : Bool :=
  nameLimit < (Utf8.encode name).length

/-- What is at fault where nothing has a name. -/
def absence (name : Text) : Fault :=
  if isTooLong name then .nameTooLong else .notFound

end Files

open Files

/-- The files and folders below the root, and the folder that relative paths start from. -/
structure FileTree where
  /-- What stands where. -/
  nodes : List (Location × Node)
  /-- The working folder. -/
  working : Location

namespace FileTree

/-- A tree with nothing but the working folder and the folders above it. -/
def empty (working : Location) : FileTree :=
  ⟨(List.range working.length).map fun n => (working.take (n + 1), .folder), working⟩

instance : Inhabited FileTree := ⟨empty []⟩

/-- What stands at a place; the root is a folder. -/
def node? (t : FileTree) (loc : Location) : Option Node :=
  if loc.isEmpty then some .folder else t.nodes.lookup loc

/-- The tree with a node put at a place, instead of what stood there. -/
def put (t : FileTree) (loc : Location) (n : Node) : FileTree :=
  { t with nodes :=
      if (t.nodes.lookup loc).isSome then
        t.nodes.map fun e => if e.1 = loc then (loc, n) else e
      else t.nodes ++ [(loc, n)] }

/-- The names and nodes in a folder. -/
def children (t : FileTree) (loc : Location) : List (Text × Node) :=
  t.nodes.filterMap fun e =>
    match e.1.getLast? with
    | some name => if e.1.dropLast = loc then some (name, e.2) else none
    | none => none

/-- How many links may be followed on one way. -/
def linkLimit : Nat := 40

/-- The first folder on the way of a path or of a link's target that stands in `here`. -/
def startOf (absolute : Bool) (here : Location) : Location :=
  if absolute then [] else here

/-- Follows names from the place `here`, up to `links` links; a link at the end is followed if
`follow` holds. -/
def walk (t : FileTree) (follow : Bool) (links : Nat) (here : Location) :
    List Text → Except Fault Location
  | [] => .ok here
  | name :: rest =>
    if name = "..".toList then t.walk follow links here.dropLast rest
    else
      let place := here ++ [name]
      match t.node? place with
      | none => .error (absence name)
      | some .folder => t.walk follow links place rest
      | some (.file _) => if rest.isEmpty then .ok place else .error .notFolder
      | some (.link target) =>
        if rest.isEmpty && !follow then .ok place
        else
          match links with
          | 0 => .error .loop
          | links + 1 =>
            let p := Path.ofText target
            t.walk follow links (startOf p.isAbsolute here) (p.parts ++ rest)
termination_by names => (links, names.length)

/-- The place of a path. -/
def locate (t : FileTree) (follow : Bool) (p : Path) : Except Fault Location :=
  t.walk follow linkLimit (startOf p.isAbsolute t.working) p.parts

/-- What keeps a path from being looked up. That it leads nowhere does not. -/
def obstacle? (t : FileTree) (follow : Bool) (p : Path) : Option Fault :=
  match t.locate follow p with
  | .error f => if f.isAbsence then none else some f
  | .ok _ => none

/-- The same as an incident, links followed. -/
def incident? (t : FileTree) (p : Path) : Option Incident :=
  (t.obstacle? true p).map (Incident.mk · [p])

/-- What a path leads to, links followed. -/
def stat (t : FileTree) (p : Path) : Except Fault Node :=
  match t.locate true p with
  | .error f => .error f
  | .ok loc =>
    match t.node? loc with
    | some n => .ok n
    | none => .error .notFound

/-- Whether a path leads to anything. -/
def exists? (t : FileTree) (p : Path) : Bool :=
  match t.stat p with
  | .ok _ => true
  | .error _ => false

/-- Whether a path leads to a file. -/
def isFile (t : FileTree) (p : Path) : Bool :=
  match t.stat p with
  | .ok (.file _) => true
  | _ => false

/-- Whether a path leads to a folder. -/
def isFolder (t : FileTree) (p : Path) : Bool :=
  match t.stat p with
  | .ok .folder => true
  | _ => false

/-- Whether a path ends in a link. -/
def isLink (t : FileTree) (p : Path) : Bool :=
  match t.locate false p with
  | .error _ => false
  | .ok loc =>
    match t.node? loc with
    | some (.link _) => true
    | _ => false

/-- The size that a folder reports. -/
def folderSize : Nat := 4096

/-- The size of what a path leads to, in bytes. -/
def sizeOf (t : FileTree) (p : Path) : Except Fault Nat :=
  match t.stat p with
  | .ok (.file bytes) => .ok bytes.length
  | .ok _ => .ok folderSize
  | .error f => .error f

/-- The bytes of a file. -/
def readBytes (t : FileTree) (p : Path) : Except Fault Bytes :=
  match t.stat p with
  | .ok (.file bytes) => .ok bytes
  | .ok _ => .error .isFolder
  | .error f => .error f

/-- Whether a path names something in a folder, rather than a folder by dots. -/
def namesEntry (p : Path) : Bool :=
  !p.parts.isEmpty && p.name != "..".toList

/-- The place of the folder that a path leads to. -/
def locateFolder (t : FileTree) (p : Path) : Except Fault Location :=
  match t.locate true p with
  | .error f => .error f
  | .ok loc =>
    match t.node? loc with
    | some .folder => .ok loc
    | _ => .error .notFolder

/-- The place of the folder in which a path names something. -/
def locateParent (t : FileTree) (p : Path) : Except Fault Location :=
  t.locateFolder p.parent

/-- Makes a folder in a folder that is there. -/
def makeFolder (t : FileTree) (p : Path) : Except Fault FileTree :=
  match t.locateParent p with
  | .error f => .error f
  | .ok loc =>
    let place := loc ++ [p.name]
    if !namesEntry p || (t.node? place).isSome then .error .exists
    else if isTooLong p.name then .error .nameTooLong
    else .ok (t.put place .folder)

/-- What is left of a fault in making a folder: nothing, if a folder is there. -/
def folderFault? (t : FileTree) (p : Path) (f : Fault) : Option Incident :=
  if t.isFolder p then none else some ⟨(t.obstacle? true p).getD f, [p]⟩

/-- Makes a folder, and first the folders above it, up to `n` of them. A folder that is there
already will do. What was made before a fault stays. -/
def makeFoldersUpTo (t : FileTree) (p : Path) : Nat → FileTree × Option Incident
  | 0 =>
    match t.makeFolder p with
    | .ok t => (t, none)
    | .error .notFound => (t, some ⟨.notFound, [p]⟩)
    | .error f => (t, t.folderFault? p f)
  | n + 1 =>
    match t.makeFolder p with
    | .ok t => (t, none)
    | .error .notFound =>
      match t.makeFoldersUpTo p.parent n with
      | (t, some f) => (t, some f)
      | (t, none) => t.makeFoldersUpTo p 0
    | .error f => (t, t.folderFault? p f)

/-- Makes a folder and all folders above it that are missing. -/
def makeFolders (t : FileTree) (p : Path) : FileTree × Option Incident :=
  t.makeFoldersUpTo p p.parts.length

/-- A place without the double dots among the names that follow it. -/
def foldDots (here : Location) (names : List Text) : Location :=
  names.foldl (fun loc name => if name = "..".toList then loc.dropLast else loc ++ [name]) here

/-- Follows names as far as they go: what is missing is taken as it is named. The links in `active`
are being followed already; at one of them the names go round, and the rest is taken as it is. The
flag tells whether they do not. -/
def resolveFrom (t : FileTree) (fuel : Nat) (active : List Location) (here : Location) :
    List Text → Location × Bool
  | [] => (here, true)
  | name :: rest =>
    if name = "..".toList then t.resolveFrom fuel active here.dropLast rest
    else
      let place := here ++ [name]
      match t.node? place with
      | some (.link target) =>
        if active.contains place then (foldDots place rest, false)
        else
          match fuel with
          | 0 => (foldDots place rest, false)
          | fuel + 1 =>
            let p := Path.ofText target
            match t.resolveFrom fuel (place :: active) (startOf p.isAbsolute here) p.parts with
            | (loc, true) => t.resolveFrom (fuel + 1) active loc rest
            | (loc, false) => (foldDots loc rest, false)
      | _ => t.resolveFrom fuel active place rest
termination_by names => (fuel, names.length)

/-- The path from the root, without dots and links, that a path stands for. -/
def resolve (t : FileTree) (p : Path) : Except LinkLoop Path :=
  let start := startOf p.isAbsolute t.working
  let found : Path := ⟨1, (t.resolveFrom t.nodes.length [] start p.parts).1⟩
  match t.stat found with
  | .error .loop => .error ⟨found⟩
  | _ => .ok found

/-- The working folder as a path. -/
def workingPath (t : FileTree) : Path :=
  ⟨1, t.working⟩

end FileTree

end Phrasebook
