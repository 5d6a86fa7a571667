import Phrasebook.Json.Writer
import Phrasebook.Mapping.Preview
import Phrasebook.Text.Blank

/-!
# Logs

The log of a run is a list of records. A record below the current level is not kept. Levels are
numbers with names; a name that is not known leaves the level as it is.
-/

namespace Phrasebook.Log

/-- How grave a record is. -/
inductive Severity where
  | debug
  | info
  | warning
  | error
  deriving Repr, DecidableEq

namespace Severity

/-- The number of a severity. -/
def number : Severity → Int
  | debug => 10
  | info => 20
  | warning => 30
  | error => 40

/-- The name of a severity. -/
def label : Severity → String
  | debug => "DEBUG"
  | info => "INFO"
  | warning => "WARNING"
  | error => "ERROR"

end Severity

/-- A record of the log. -/
structure Record where
  /-- How grave it is. -/
  severity : Severity
  /-- What it says. -/
  message : Text
  deriving Repr, DecidableEq

/-- The line of a record. -/
def Record.line (r : Record) : Text :=
  r.severity.label.toList ++ ": ".toList ++ r.message

/-- The level of records that are kept when nothing else is said. -/
def standardLevel : Int := 30

/-- The names of levels. -/
def levelNames : List (String × Int) :=
  [("NOTSET", 0), ("DEBUG", 10), ("INFO", 20), ("WARN", 30), ("WARNING", 30), ("ERROR", 40),
    ("CRITICAL", 50), ("FATAL", 50)]

/-- A character as a capital letter, as far as level names go: the dotless i and the long s have
capitals of their own among ASCII letters. -/
def capital (c : Char) : Char :=
  if c = 'ı' then 'I' else if c = 'ſ' then 'S' else c.toUpper

/-- The level of a name, in any case and with white space around it; `standard` for no name or one
that is not known. -/
def levelOf (name : Option Text) (standard : Int) : Int :=
  match name with
  | none => standard
  | some t => (levelNames.lookup (String.ofList ((Text.strip t).map capital))).getD standard

/-- The level after a name is set: the one before, if the name is not known. -/
def setLevel (level : Int) (name : Option Text) : Int :=
  levelOf name (if level = 0 then standardLevel else level)

/-- Whether a record of some severity is kept at a level; level zero stands for the standard one. -/
def isKept (level : Int) (s : Severity) : Bool :=
  (if level = 0 then standardLevel else level) ≤ s.number

/-- Cuts a text to a number of characters and marks the cut. -/
def shorten (limit : Int) (t : Text) : Text :=
  if t.length ≤ limit then t else takeUpTo limit t ++ "…(truncated)".toList

/-- A JSON value on one line without spaces, cut to a number of characters. -/
def compact (limit : Int) (v : Json) : Text :=
  shorten limit (v.line .dense)

end Phrasebook.Log
