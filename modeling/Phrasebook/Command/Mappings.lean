import Phrasebook.Command.Localize
import Phrasebook.Mapping.Check
import Phrasebook.Mapping.Difference
import Phrasebook.Mapping.LocaleModule
import Phrasebook.Mapping.Merge
import Phrasebook.Mapping.Spreadsheet

/-!
# The commands for mappings

Mapping files are merged, compared, checked, read from locale modules and written as workbooks.
-/

namespace Phrasebook.Command

open Session

/-- How many keys or clashes are listed. -/
def listLimit : Nat := 10

/-- A text in double quotes, as it is. -/
def inQuotes (t : Text) : Text :=
  '"' :: t ++ ['"']

namespace Merge

/-- What the command takes. -/
def usage : Usage where
  program := "merge-i18n-json"
  purpose := "Merge i18n mapping JSON files"
  operands := []
  options :=
    [⟨"--input", .text, "Folder holding the mapping files (default: directory of outputPath)"⟩,
      ⟨"--pattern", .text, "File name glob (default: *.json)"⟩,
      ⟨"--output", .text, "Merged file (default: ./merged-i18n.json)"⟩,
      ⟨"--overwrite", .nothing, "Later files overwrite earlier values"⟩,
      ⟨"--sort", .nothing, "Sort the merged keys"⟩,
      ⟨"--config", .text, "Config file used to find the default input folder"⟩,
      levelOption]

/-- The folder of the mapping files: the one that is given, or the one that the configuration names
for the output. -/
def inputFolder (a : Arguments) : Session Path := do
  match a.word? "--input" with
  | some folder => return .ofText folder
  | none =>
    let output := Path.ofText (← config a).outputPath
    return if output.isJson then output.parent else output

/-- Where the merged mapping goes. -/
def outputFor (a : Arguments) : Session Path :=
  if a.isBlank "--output" then fail .noText
  else return .ofText ((a.text? "--output").getD "./merged-i18n.json".toList)

/-- The pattern of the names of the mapping files. The output, which is not one of them, is resolved
first. -/
def patternFor (a : Arguments) (output : Path) : Session Text := do
  if a.isBlank "--pattern" then
    let _ ← resolve output
    fail .noPattern
  else return (a.text? "--pattern").getD "*.json".toList

/-- Reads mapping files one by one; those that are not right are passed over. -/
def load : List Path → Session (List (Text × Mapping))
  | [] => return []
  | p :: ps => do
    match Mapping.load (← tree) p with
    | .error (.obstacle f) => fail (.file ⟨f, [p]⟩)
    | .error f =>
      log ⟨.warning, "Skipping ".toList ++ f.message p⟩
      load ps
    | .ok m =>
      print ("  ".toList ++ p.name ++ ": ".toList ++ Text.ofNat m.size ++ " entries".toList)
      return (p.name, m) :: (← load ps)

/-- The lines on a clash. -/
def clashLines (overwrite : Bool) (c : Mapping.Clash) : List Text :=
  ["  Key: ".toList ++ inQuotes c.key,
    "    existing: ".toList ++ inQuotes c.before,
    "    new (".toList ++ c.source ++ "): ".toList ++ inQuotes c.after,
    "    ".toList ++ (if overwrite then "overwritten" else "kept existing value").toList]

/-- The lines on the clashes of a merge. -/
def clashReport (overwrite : Bool) (clashes : List Mapping.Clash) : List Text :=
  if clashes.isEmpty then []
  else
    [[], Text.ofNat clashes.length ++ " duplicate key(s) with different values:".toList, []] ++
    (clashes.take listLimit).flatMap (clashLines overwrite) ++
    (if listLimit < clashes.length then
      ["  ... ".toList ++ Text.ofNat (clashes.length - listLimit) ++ " more not shown".toList]
    else []) ++
    if overwrite then [] else [[], "Hint: pass --overwrite to let later files win.".toList]

/-- Runs the command. -/
def run (a : Arguments) : Session Nat := do
  setLevel (a.text? "--log-level")
  let folder ← inputFolder a
  lookUp folder
  if !(← tree).isFolder folder then
    refuse ("Input folder not found: ".toList ++ folder.toText)
  let output ← outputFor a
  let pattern ← patternFor a output
  match Files.matchingFiles (← tree) folder pattern [output] with
  | .error f => fail (.select f)
  | .ok [] =>
    refuse ("No files matching ".toList ++ pattern ++ " in ".toList ++ folder.toText)
  | .ok files =>
    print ("Merging ".toList ++ Text.ofNat files.length ++ " file(s) from ".toList ++ folder.toText)
    let loaded ← load files
    let result := Mapping.mergeAll (a.has "--overwrite") loaded
    printAll (clashReport (a.has "--overwrite") result.clashes)
    match ← store output result.merged (a.has "--sort") with
    | some i => refuse ("Failed to write ".toList ++ output.toText ++ ": ".toList ++ i.message)
    | none =>
      printAll [[], "=== Merge done ===".toList,
        "Files merged:  ".toList ++ Text.ofNat loaded.length,
        "Total keys:    ".toList ++ Text.ofNat result.merged.size,
        "Conflicts:     ".toList ++ Text.ofNat result.clashes.length]
      print ("Output file:   ".toList ++ (← resolve output).toText)
      return 0

end Merge

namespace Difference

/-- What the command takes. -/
def usage : Usage where
  program := "i18n-json-diff"
  purpose := "Entries of json1 not present in json2"
  operands := [⟨"json1", "Main mapping file", true⟩,
    ⟨"json2", "Mapping whose keys are excluded", true⟩]
  options :=
    [⟨"--output", .text, "Result file (default: ./diff-result.json)"⟩,
      ⟨"--compare-value", .nothing, "Exclude only entries whose key and value both match"⟩,
      levelOption]

/-- The lines on the keys that are left out. -/
def removedReport (removed : List Text) : List Text :=
  if removed.isEmpty then []
  else
    [[], "Removed keys (first ".toList ++ Text.ofNat listLimit ++ "):".toList] ++
    (removed.take listLimit).map ("  - ".toList ++ ·) ++
    if listLimit < removed.length then
      ["  ... ".toList ++ Text.ofNat (removed.length - listLimit) ++ " more".toList]
    else []

/-- Ends with what went wrong, if anything did, in writing the results. -/
def written : Option Files.Incident → Session Unit
  | none => return
  | some i => refuse ("Failed to write results: ".toList ++ i.message)

/-- Runs the command. -/
def run (a : Arguments) : Session Nat := do
  setLevel (a.text? "--log-level")
  let firstName ← operand a "json1"
  let first ← mapping (.ofText firstName)
  let secondName ← operand a "json2"
  let second ← mapping (.ofText secondName)
  let compareText := a.has "--compare-value"
  let d := first.difference second compareText
  printAll ["JSON1: ".toList ++ Text.ofNat first.size ++ " entries".toList,
    "JSON2: ".toList ++ Text.ofNat second.size ++ " entries".toList,
    [],
    "Removed: ".toList ++ Text.ofNat d.removed.length,
    "Kept:    ".toList ++ Text.ofNat d.kept.length]
  printAll (removedReport d.removed)
  if a.isBlank "--output" then fail .noReport
  let outputName := (a.text? "--output").getD "./diff-result.json".toList
  let output := Path.ofText outputName
  let report := Mapping.reportFor outputName
  written (← store output d.result false)
  written (← change fun t =>
    t.writeText report (d.report firstName secondName outputName compareText))
  print []
  print ("Output file: ".toList ++ (← resolve output).toText)
  print ("Report:      ".toList ++ (← resolve report).toText)
  return 0

end Difference

namespace Check

/-- What the command takes. -/
def usage : Usage where
  program := "check-i18n-json"
  purpose := "Check the values of a locale file"
  operands := [⟨"language", "Language code: en, en-US, zh-TW or zh-CN", true⟩,
    ⟨"file", "Locale JSON (or TS object) file", true⟩]
  options := [levelOption]

/-- The lines on an issue, which is number `n`. -/
def issueLines (n : Nat) (i : Check.Issue) : List Text :=
  [Text.ofNat n ++ ". line ".toList ++ Text.ofNat i.line,
    "   key:   ".toList ++ inQuotes i.key,
    "   value: ".toList ++ inQuotes i.value]

/-- The lines on issues, the first of which is number `n`. -/
def allIssueLines : Nat → List Check.Issue → List Text
  | _, [] => []
  | n, i :: is => issueLines n i ++ allIssueLines (n + 1) is

/-- Runs the command. -/
def run (a : Arguments) : Session Nat := do
  setLevel (a.text? "--log-level")
  let language ← operand a "language"
  let p := Path.ofText (← operand a "file")
  lookUp p
  if !(← tree).isFile p then refuse ("File not found: ".toList ++ p.toText)
  match Files.readText (← tree) p with
  | .error f => refuse ("Cannot read ".toList ++ p.toText ++ ": ".toList ++ f.message p)
  | .ok text =>
    print ("Checking ".toList ++ p.toText ++ " (".toList ++ language ++ ")".toList)
    match Check.issues text language with
    | [] =>
      print "No issues found.".toList
      return 0
    | issues =>
      print (Text.ofNat issues.length ++ " value(s) ".toList ++
        (Check.ruleFor language).message.toList ++ ":".toList)
      print []
      printAll (allIssueLines 1 issues)
      return 1

end Check

namespace Convert

/-- What the command takes. -/
def usage : Usage where
  program := "ts-to-json"
  purpose := "Convert an export-default TS object to JSON"
  operands := [⟨"ts_file", "TypeScript/JavaScript module", true⟩]
  options := [⟨"--output", .text, "JSON file (default: same name with .json)"⟩, levelOption]

/-- Where the mapping goes: where it is asked for, or next to the module. -/
def outputFor (a : Arguments) (source : Path) : Session Path :=
  match a.word? "--output" with
  | some output => return .ofText output
  | none =>
    match source.withSuffix? ".json".toList with
    | some p => return p
    | none => fail (.noName source)

/-- Ends with an error in the conversion. -/
def broken {α : Type} (cause : Text) : Session α :=
  refuse ("Conversion failed: ".toList ++ cause)

/-- Runs the command. -/
def run (a : Arguments) : Session Nat := do
  setLevel (a.text? "--log-level")
  let source := Path.ofText (← operand a "ts_file")
  let output ← outputFor a source
  lookUp source
  if !(← tree).isFile source then refuse ("File not found: ".toList ++ source.toText)
  match Files.readText (← tree) source with
  | .error f => broken (f.message source)
  | .ok text =>
    match LocaleModule.read text with
    | .error f => refuse (source.toText ++ ": ".toList ++ f.message)
    | .ok m =>
      match ← store output m false with
      | some i => broken i.message
      | none =>
        print ("Converted ".toList ++ Text.ofNat m.size ++ " entries: ".toList ++
          (← resolve output).toText)
        return 0

end Convert

namespace Export

/-- What the command takes. -/
def usage : Usage where
  program := "i18n-json-to-excel"
  purpose := "Export a mapping JSON as a spreadsheet"
  operands := [⟨"json_file", "Mapping JSON file", true⟩]
  options :=
    [⟨"--output", .text, "Workbook path (default: i18n-excel/<name>.xls)"⟩,
      ⟨"--key-header", .text, "Header of the key column (default: \"Key\")"⟩,
      ⟨"--value-header", .text, "Header of the value column (default: \"Value\")"⟩,
      levelOption]

/-- Where the workbook goes: where it is asked for, or into a folder of its own. -/
def outputFor (a : Arguments) (source : Path) : Path :=
  match a.word? "--output" with
  | some output => .ofText output
  | none => (Path.ofString "i18n-excel").child (source.stem ++ ".xls".toList)

/-- The header of a column: the one that is given, or its default. One that is left blank shows as a
pair of brackets. -/
def header (a : Arguments) (option default : String) : Text :=
  if a.isBlank option then "[]".toList else (a.text? option).getD default.toList

/-- Runs the command. -/
def run (a : Arguments) : Session Nat := do
  setLevel (a.text? "--log-level")
  let source := Path.ofText (← operand a "json_file")
  let output := outputFor a source
  let m ← mapping source
  let workbook := Spreadsheet.render m (header a "--key-header" "Key")
    (header a "--value-header" "Value")
  match ← change fun t => t.writeText output workbook with
  | some i => refuse ("Failed to write ".toList ++ output.toText ++ ": ".toList ++ i.message)
  | none =>
    print ("Exported ".toList ++ Text.ofNat m.size ++ " rows: ".toList ++
      (← resolve output).toText)
    return 0

end Export

end Phrasebook.Command
