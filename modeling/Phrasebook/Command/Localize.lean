import Phrasebook.Command.Session
import Phrasebook.Files.Discover
import Phrasebook.Source.Batch

/-!
# The commands for sources

One command replaces the terms in all sources below a folder by lookup calls and writes the mapping
of their phrases; the other only lists the phrases.
-/

namespace Phrasebook.Command

open Session

/-- The options that both commands have for the parts of the sources. -/
def partOptions : List Choice :=
  [⟨"--no-template", .nothing, "Skip <template> blocks"⟩,
    ⟨"--no-script", .nothing, "Skip <script> blocks of .vue files"⟩,
    ⟨"--no-ts", .nothing, "Skip standalone .ts/.js files"⟩]

/-- The option for the log level. -/
def levelOption : Choice :=
  ⟨"--log-level", .text, "DEBUG, INFO, WARNING or ERROR"⟩

/-- The parts of the sources that are worked on. -/
def parts (a : Arguments) : Source.Parts where
  template := !a.has "--no-template"
  script := !a.has "--no-script"
  ts := !a.has "--no-ts"

/-- The sources below a folder. -/
def sources (a : Arguments) (c : Config) (folder : Path) : Session (List Path) := do
  return Files.discover (← tree) folder c.fileExtensions (c.ignorePaths ++ a.texts "--ignore")

/-- How many entries a preview shows. -/
def previewLimit : Int := 10

/-- What a preview is headed by. -/
def previewHeading (what : String) (m : Mapping) (output : Path) : Text :=
  what.toList ++ " preview (".toList ++ Text.ofNat m.size ++
    " entries, would be written to ".toList ++ output.toText ++ "):".toList

namespace Localize

/-- What the command takes. -/
def usage : Usage where
  program := "batch-i18n"
  purpose := "Rewrite Chinese text literals into i18n lookup calls"
  operands := [⟨"target", "Folder to process (e.g., src/views/system)", false⟩]
  options :=
    [⟨"--output", .text,
        "Mapping file, or a directory for <folder>.json (default: derived from outputPath)"⟩,
      ⟨"--config", .text, "Config file (default: ./i18n.config.json when present)"⟩,
      ⟨"--init-config", .nothing, "Write a config file with the defaults and exit"⟩] ++
    partOptions ++
    [⟨"--dry-run", .nothing, "Report only; no writes"⟩,
      ⟨"--diff", .nothing, "Print unified diff for changes (with --dry-run)"⟩,
      ⟨"--backup", .nothing, "Write .bak backups before changing a file"⟩,
      ⟨"--ignore", .text, "Extra ignore patterns (repeatable)"⟩,
      ⟨"--threads", .number, "Parallel file workers"⟩,
      ⟨"--max-file-size", .number, "Skip files larger than this many bytes (0 to disable)"⟩,
      levelOption]

/-- A folder must be given, unless a configuration file is to be written. -/
def check (a : Arguments) : Option Fault :=
  match a.operand? "target" with
  | some (_ :: _) => none
  | _ => if a.has "--init-config" then none else some (.missing ["target"])

/-- Writes a configuration file with the defaults, unless there is a file. -/
def writeConfig (p : Path) : Session Unit := do
  lookUp p
  if (← tree).exists? p then
    log ⟨.debug, "Config file ".toList ++ p.toText ++ " already exists".toList⟩
    print ("Config file already exists, left unchanged: ".toList ++ p.toText)
  else
    match ← change fun t => t.writeText p Config.defaultText with
    | some i => fail (.file i)
    | none =>
      log ⟨.info, "Wrote default config to ".toList ++ p.toText⟩
      print ("Wrote default config: ".toList ++ p.toText)

/-- How the sources are worked on. -/
def options (a : Arguments) : Source.Options where
  parts := parts a
  dryRun := a.has "--dry-run"
  backup := a.has "--backup"
  showDiff := a.has "--diff"
  maxSize :=
    if a.isBlank "--max-file-size" then none
    else some ((a.number? "--max-file-size").getD 2097152)

/-- How many files are worked on at the same time. -/
def threads (a : Arguments) : Nat :=
  ((a.number? "--threads").getD 4).toNat

/-- Works on sources. -/
def work (a : Arguments) (c : Config) (files : List Path) : Session Source.Batch := do
  if a.isBlank "--threads" then fail .noWorkers
  let b := Source.processBatch c (options a) (← tree) .empty files .sound (threads a)
  logAll b.records
  modify fun console => { console with tree := b.tree }
  return b

/-- Shows the mapping, or writes it if it is not empty. -/
def deliver (a : Arguments) (output : Path) (m : Mapping) : Session Unit := do
  if a.has "--dry-run" then
    print []
    print (previewHeading "Mapping" m output)
    printAll (m.preview previewLimit)
  else if m.size ≠ 0 then
    match ← store output m false with
    | some i =>
      refuse ("Failed to write mapping ".toList ++ output.toText ++ ": ".toList ++ i.message)
    | none =>
      print []
      print ("Mapping written to: ".toList ++ output.toText)

/-- Works on all sources below a folder. -/
def workBelow (a : Arguments) (target : Text) : Session Unit := do
  let folder ← sourceFolder target
  let c ← config a
  setLevel c.logLevel.str?
  setLevel (a.word? "--log-level")
  let files ← sources a c folder
  print ("Found ".toList ++ Text.ofNat files.length ++ " file(s) under ".toList ++ folder.toText)
  let b ← work a c files
  write (Text.unlines (b.results.filterMap Source.Result.diff))
  deliver a (Mapping.outputFor folder (a.text? "--output") c.outputPath []) b.registry.phrases
  print []
  printAll (b.summary (a.has "--dry-run"))
  print ("Files changed:    ".toList ++ Text.ofNat b.changed)

/-- Runs the command. -/
def run (a : Arguments) : Session Nat := do
  if a.has "--init-config" then
    writeConfig (.ofText ((a.word? "--config").getD Config.fileName))
  else workBelow a (← operand a "target")
  return 0

end Localize

namespace Scan

/-- What the command takes. -/
def usage : Usage where
  program := "batch-i18n-extract"
  purpose := "List Chinese text literals without rewriting"
  operands := [⟨"target", "Folder to scan", true⟩]
  options :=
    [⟨"--output", .text, "Output file, or a directory for <folder>-extract.json"⟩,
      ⟨"--config", .text, "Config file (default: ./i18n.config.json when present)"⟩] ++
    partOptions ++
    [⟨"--ignore", .text, "Extra ignore patterns (repeatable)"⟩,
      ⟨"--dry-run", .nothing, "Print a preview instead of writing the file"⟩,
      levelOption]

/-- Shows the phrases or writes them. -/
def deliver (a : Arguments) (output : Path) (m : Mapping) : Session Unit := do
  if a.has "--dry-run" then
    print (previewHeading "Extract" m output)
    printAll (m.preview previewLimit)
  else
    match ← store output m false with
    | some i => refuse ("Failed to write ".toList ++ output.toText ++ ": ".toList ++ i.message)
    | none => print ("Extract written to: ".toList ++ output.toText)

/-- Runs the command. -/
def run (a : Arguments) : Session Nat := do
  let folder ← sourceFolder (← operand a "target")
  let c ← config a
  setLevel ((a.word? "--log-level").or c.logLevel.str?)
  let files ← sources a c folder
  let b := Source.scanBatch c (parts a) (← tree) .empty files
  logAll b.records
  deliver a (Mapping.outputFor folder (a.text? "--output") c.outputPath "-extract".toList)
    b.registry.phrases
  printAll (b.summary true)
  return 0

end Scan

end Phrasebook.Command
