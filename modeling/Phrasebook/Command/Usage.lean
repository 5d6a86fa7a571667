import Phrasebook.Text.Basic
import Phrasebook.Text.Quoted

/-!
# What a command takes

A command takes operands, which are told by their order, and options, which are told by their names.
What is wrong with the arguments of a command is a fault with a message.
-/

namespace Phrasebook.Command

/-- What follows the name of an option. -/
inductive Takes where
  | nothing
  | text
  | number
  deriving Repr, DecidableEq

/-- An option of a command. -/
structure Choice where
  /-- Its name, with the dashes. -/
  name : String
  /-- What follows the name. -/
  takes : Takes
  /-- What it is for. -/
  purpose : String
  deriving Repr, DecidableEq

/-- An operand of a command. -/
structure Operand where
  /-- Its name. -/
  name : String
  /-- What it is for. -/
  purpose : String
  /-- Whether it must be given. -/
  required : Bool := true
  deriving Repr, DecidableEq

/-- What a command takes. -/
structure Usage where
  /-- The name of the command. -/
  program : String
  /-- What the command does. -/
  purpose : String
  /-- Its operands, in order. -/
  operands : List Operand
  /-- Its options. -/
  options : List Choice
  deriving Repr, DecidableEq

/-- The names under which a command explains itself. -/
def helpNames : List String :=
  ["-h", "--help"]

/-- What the name of an option stands for. -/
inductive Meaning where
  | help
  | choice (choice : Choice)
  deriving Repr, DecidableEq

/-- The names of all options of a command. -/
def Usage.names (u : Usage) : List (Text × Meaning) :=
  helpNames.map (fun name => (name.toList, .help)) ++
    u.options.map fun o => (o.name.toList, .choice o)

/-- The name of an option in messages. -/
def Meaning.label : Meaning → Text
  | help => "/".toList.intercalate (helpNames.map String.toList)
  | choice o => o.name.toList

/-- What is wrong with the arguments of a command. -/
inductive Fault where
  /-- A name is the beginning of several names. -/
  | ambiguous (given : Text) (names : List Text)
  /-- An option lacks its value. -/
  | needsValue (option : Choice)
  /-- The value of an option is no number. -/
  | notNumber (option : Choice) (given : Text)
  /-- An option has a value but takes none. -/
  | unusedValue (option : Meaning) (given : Text)
  /-- Operands are missing. -/
  | missing (operands : List String)
  /-- There are arguments too many. -/
  | unrecognized (given : List Text)
  deriving Repr, DecidableEq

/-- The message of a fault. -/
def Fault.message : Fault → Text
  | ambiguous given names =>
    "ambiguous option: ".toList ++ given ++ " could match ".toList ++
      ", ".toList.intercalate names
  | needsValue o => "argument ".toList ++ o.name.toList ++ ": expected one argument".toList
  | notNumber o given =>
    "argument ".toList ++ o.name.toList ++ ": invalid int value: ".toList ++ Text.displayed given
  | unusedValue m given =>
    "argument ".toList ++ m.label ++ ": ignored explicit argument ".toList ++ Text.displayed given
  | missing operands =>
    "the following arguments are required: ".toList ++
      ", ".toList.intercalate (operands.map String.toList)
  | unrecognized given => "unrecognized arguments: ".toList ++ " ".toList.intercalate given

/-- What a command says of a fault in its arguments. -/
def Usage.complaint (u : Usage) (f : Fault) : Text :=
  u.program.toList ++ ": error: ".toList ++ f.message

/-- The line that explains an option or an operand. -/
def explain (name purpose : String) : Text :=
  "  ".toList ++ name.toList ++ ": ".toList ++ purpose.toList

/-- The lines in which a command explains itself. -/
def Usage.explanation (u : Usage) : List Text :=
  [u.program.toList ++ ": ".toList ++ u.purpose.toList] ++
    u.operands.map (fun o => explain o.name o.purpose) ++
    u.options.map fun o => explain o.name o.purpose

end Phrasebook.Command
