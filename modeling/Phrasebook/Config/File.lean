import Phrasebook.Config.Basic
import Phrasebook.Files.System
import Phrasebook.Json.Reader
import Phrasebook.Json.Writer
import Phrasebook.Log

/-!
# Configuration files

A configuration file that is named must be right. One that is merely found in the working folder may
be broken: then a warning is logged and the defaults hold. A path that cannot even be looked up is a
fault in both cases, and so is a working folder that is gone where no file is named.
-/

namespace Phrasebook.Config

/-- The name of the file that is looked for when none is given. -/
def fileName : Text :=
  "i18n.config.json".toList

/-- Why a configuration file is refused. -/
inductive FileFault where
  /-- The path cannot be looked up. -/
  | obstacle (fault : Files.Fault)
  /-- The path leads nowhere. -/
  | missing
  /-- The file cannot be read as a text. -/
  | unreadable (fault : Files.ReadFault)
  /-- The text is not JSON. -/
  | malformed (message : Text)
  /-- The value is no object. -/
  | notObject
  /-- The object is no configuration. -/
  | invalid (fault : Fault)
  deriving Repr, DecidableEq

/-- What is said of a fault in the file at a path. -/
def FileFault.cause (p : Path) : FileFault → Text
  | obstacle f => Files.Incident.message ⟨f, [p]⟩
  | missing => "Config file not found: ".toList ++ p.toText
  | unreadable f => f.message p
  | malformed message => message
  | notObject => p.toText ++ " must contain a JSON object".toList
  | invalid f => f.message

/-- The message of a fault in a file that was named. -/
def FileFault.message (p : Path) (f : FileFault) : Text :=
  match f with
  | unreadable _ | malformed _ =>
    "Failed to read/parse ".toList ++ p.toText ++ ": ".toList ++ f.cause p
  | _ => f.cause p

/-- Reads a configuration from a text; the empty text stands for the empty object. -/
def parse (text : Text) : Except FileFault Config :=
  if text.isEmpty then .ok standard
  else
    match Json.read text with
    | .error f => .error (.malformed (f.message text))
    | .ok (.obj members) =>
      match ofMembers members with
      | .ok c => .ok c
      | .error f => .error (.invalid f)
    | .ok _ => .error .notObject

/-- Reads the configuration file at a path. -/
def readFile (s : Files.System) (p : Path) : Except FileFault Config :=
  match s.exists? p with
  | .error f => .error (.obstacle f)
  | .ok false => .error .missing
  | .ok true =>
    match s.readText p with
    | .error f => .error (.unreadable f)
    | .ok text => parse text

/-- A configuration with the file it came from and what is to be logged. -/
structure Loaded where
  /-- The configuration. -/
  config : Config
  /-- The file it came from. -/
  source : Option Path
  /-- What is to be logged. -/
  records : List Log.Record

/-- The record of a configuration file that was read. -/
def loadedRecord (p : Path) : Log.Record :=
  ⟨.info, "Loaded config file: ".toList ++ p.toText⟩

/-- Loads the configuration file at a path. -/
def load (s : Files.System) (p : Path) : Except FileFault Loaded :=
  match readFile s p with
  | .ok c => .ok ⟨c, some p, [loadedRecord p]⟩
  | .error f => .error f

/-- The record of a configuration file that was passed over. -/
def brokenRecord (p : Path) (f : FileFault) : Log.Record :=
  ⟨.warning, "Failed to load ".toList ++ p.toText ++ ", using defaults: ".toList ++ f.cause p⟩

/-- Loads the configuration file of the working folder, if there is one. -/
def loadStandard (s : Files.System) : Except Files.Incident Loaded :=
  match s.working with
  | .error f => .error ⟨f, []⟩
  | .ok folder =>
    let p := folder.child fileName
    match readFile s p with
    | .ok c => .ok ⟨c, some p, [loadedRecord p]⟩
    | .error (.obstacle f) => .error ⟨f, [p]⟩
    | .error .missing => .ok ⟨standard, none, []⟩
    | .error f => .ok ⟨standard, none, [brokenRecord p f]⟩

/-- The text of a configuration file with the defaults. -/
def defaultText : Text :=
  Json.pretty 0 (.obj defaults) ++ ['\n']

end Phrasebook.Config
