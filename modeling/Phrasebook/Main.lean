import Phrasebook.Command.Program

/-!
# The command line

The first argument names a program and the others are its arguments. The files below the working
folder, and those that arguments name outside of it, are read into a tree; the program runs on the
tree, and what it changed there is written to disk. Nothing is run on files of which no tree can be
made.
-/

namespace Phrasebook.Main

open Files

/-- The text of a place. -/
def placeText (loc : Location) : String :=
  String.ofList (Path.toText ⟨1, loc⟩)

/-- The paths that a word on the command line may name: the word itself, and what stands behind its
first equals sign. -/
def pathsOf (word : Text) : List Path :=
  [word, (word.dropWhile (· != '=')).drop 1].map Path.ofText

/-- What has been read from disk. -/
structure Reading where
  /-- What stands where. -/
  nodes : List (Location × Node) := []
  /-- The folders whose entries have been read. -/
  opened : List Location := []

/-- What stands at a place. A link is read as one to the place where it ends, since a system only
tells that place; one that ends nowhere cannot be read, nor can what is neither file nor folder. -/
def look (loc : Location) : IO (Option Node) := do
  let here := (← IO.currentDir).join (placeText loc)
  let .ok data ← here.symlinkMetadata.toBaseIO | return none
  match data.type with
  | .dir => return some .folder
  | .file => return some (.file (← IO.FS.readBinFile here).toList)
  | .symlink => return some (.link (← IO.FS.realPath here).toString.toList)
  | .other => throw (.userError ("Neither a file nor a folder: " ++ placeText loc))

mutual

/-- Reads what stands on the way from a folder along names, and at its end with all that is below.
Where a link is on the way, reads on behind it. -/
partial def readAlong (r : Reading) (here : Location) : List Text → IO Reading
  | [] => readBelow r here
  | name :: rest => do
    if name = "..".toList then readAlong r here.dropLast rest
    else
      let place := here ++ [name]
      let known := r.nodes.lookup place
      let some node ← (if known.isSome then pure known else look place) | return r
      let r := if known.isSome then r else { r with nodes := (place, node) :: r.nodes }
      match node with
      | .folder => readAlong r place rest
      | .file _ => return r
      | .link target => readAlong r [] ((Path.ofText target).parts ++ rest)

/-- Reads what is in a folder, unless this has been done. -/
partial def readBelow (r : Reading) (folder : Location) : IO Reading := do
  if r.opened.contains folder then return r
  let mut r := { r with opened := folder :: r.opened }
  for e in ← ((← IO.currentDir).join (placeText folder)).readDir do
    r ← readAlong r folder [e.fileName.toList]
  return r

end

/-- Reads the files of a run: those below the working folder and those that arguments name, also
where the double dots in a name are taken away before links are followed. -/
def loadTree (words : List Text) : IO FileTree := do
  let working := (Path.ofString (← IO.currentDir).toString).parts
  let mut r ← readAlong {} [] working
  for p in words.flatMap pathsOf do
    let start := FileTree.startOf p.isAbsolute working
    r ← readAlong r start p.parts
    r ← readAlong r [] (FileTree.foldDots start p.parts)
  return ⟨r.nodes.reverse, working⟩

/-- Whether a link was replaced over which another one may have led: since links are read as links to
where they end, the other one then leads elsewhere than on disk. -/
def isUncertain (before after : FileTree) : Bool :=
  before.nodes.any fun (loc, node) =>
    match node with
    | .link target =>
      after.node? loc != some node && before.nodes.any fun (other, node) =>
        match node with
        | .link further =>
          other != loc && (Path.ofText target).parts.isPrefixOf (Path.ofText further).parts
        | _ => false
    | _ => false

/-- Writes what differs from the tree before. A file is drafted beside its place and then moved, so
that it is never seen half written. -/
def store (before after : FileTree) : IO Unit :=
  after.nodes.forM fun (loc, node) => do
    if before.node? loc != some node then
      let text := placeText loc
      match node with
      | .folder => IO.FS.createDirAll text
      | .file bytes =>
        let draft := text ++ ".draft"
        IO.FS.writeBinFile draft ⟨bytes.toArray⟩
        IO.FS.rename draft text
      | .link _ => pure ()

/-- The variable of the environment that names the level of the log. -/
def levelVariable : String :=
  "BATCH_I18N_LOG_LEVEL"

/-- The console that a run starts with. -/
def loadConsole (words : List Text) : IO Command.Console := do
  let name := (← IO.getEnv levelVariable).map String.toList
  return { tree := ← loadTree words, level := Log.levelOf name Log.standardLevel }

/-- Runs a program on disk; the result is the exit code. -/
def run (p : Command.Program) (words : List Text) : IO Nat := do
  let start ← loadConsole words
  let (outcome, console) := p.start start words
  if isUncertain start.tree console.tree then
    throw (.userError "A link that other links may lead over was replaced; nothing is written.")
  store start.tree console.tree
  IO.print (String.ofList console.output)
  for r in console.records do
    IO.eprintln (String.ofList r.line)
  match outcome with
  | .complaint message =>
    IO.eprintln (String.ofList message)
    return Command.complaintCode
  | .ended (.exit code) => return code
  | .ended (.failed f) =>
    IO.eprintln (String.ofList f.message)
    return 1

end Phrasebook.Main

open Phrasebook in
/-- The program that the first argument names, with the other arguments. -/
def main (args : List String) : IO UInt32 := do
  match args.map String.toList with
  | name :: words =>
    if let some p := Command.program? name then
      return UInt32.ofNat (← Main.run p words)
  | [] => pure ()
  IO.eprintln "The first argument is the name of one of these programs:"
  for p in Command.programs do
    IO.eprintln p.usage.program
  return UInt32.ofNat Command.complaintCode
