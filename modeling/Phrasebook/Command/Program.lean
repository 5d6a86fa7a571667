import Phrasebook.Command.Mappings

/-!
# Programs

A program is a command with what it takes. It runs on files with the texts of its arguments.
-/

namespace Phrasebook.Command

/-- A command with what it takes. -/
structure Program where
  /-- What it takes. -/
  usage : Usage
  /-- What is wrong with arguments that are well formed. -/
  check : Arguments → Option Fault := fun _ => none
  /-- What it does; the result is its exit code. -/
  run : Arguments → Session Nat

/-- All programs. -/
def programs : List Program :=
  [{ usage := Localize.usage, check := Localize.check, run := Localize.run },
    { usage := Scan.usage, run := Scan.run },
    { usage := Merge.usage, run := Merge.run },
    { usage := Difference.usage, run := Difference.run },
    { usage := Check.usage, run := Check.run },
    { usage := Convert.usage, run := Convert.run },
    { usage := Export.usage, run := Export.run }]

/-- The program of a name. -/
def program? (name : Text) : Option Program :=
  programs.find? fun p => p.usage.program.toList == name

/-- How the run of a program ended. -/
inductive Outcome where
  /-- Its arguments were wrong. -/
  | complaint (message : Text)
  /-- It came to its end. -/
  | ended (ending : Ending)
  deriving Repr, DecidableEq

/-- The exit code after wrong arguments. -/
def complaintCode : Nat := 2

/-- The arguments of a program. -/
def Program.read (p : Program) (ts : List Text) : Except Stop Arguments :=
  match p.usage.read ts with
  | .error s => .error s
  | .ok a =>
    match p.check a with
    | some f => .error (.fault f)
    | none => .ok a

/-- Runs a program on a console. -/
def Program.start (p : Program) (c : Console) (ts : List Text) : Outcome × Console :=
  match p.read ts with
  | .error (.fault f) => (.complaint (p.usage.complaint f), c)
  | .error .help =>
    (.ended (.exit 0), { c with output := c.output ++ Text.unlines (p.usage.explanation ++ [[]]) })
  | .ok a =>
    match (p.run a).run.run c with
    | (.ok code, c) => (.ended (.exit code), c)
    | (.error ending, c) => (.ended ending, c)

end Phrasebook.Command
