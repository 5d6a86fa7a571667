import Phrasebook.Prose

/-!
# Places in a script that are left alone

Literals in the declaration of a component's properties and on lines that name modules are not
phrases.
-/

namespace Phrasebook.Script

/-- The calls that declare properties, up to their opening parenthesis. -/
def propsMarkers : List Text :=
  ["defineProps(".toList, "withDefaults(".toList]

/-- How far a list of arguments reaches. -/
inductive Reach where
  /-- The list ends within the text. -/
  | closed
  /-- The list is still open at the end of the text. -/
  | opened
  /-- The list is still open, and the text ends in a backslash that takes one more character. -/
  | dangling
  deriving Repr, DecidableEq

/-- How far a list of arguments reaches in a text, given the quote that is open, if any, and the
number of open parentheses. -/
def reach : Option Char → Nat → Text → Reach
  | _, depth, [] => if depth = 0 then .closed else .opened
  | some q, depth, c :: cs =>
    if c = '\\' then
      match cs with
      | [] => if depth = 0 then .closed else .dangling
      | _ :: cs => reach (some q) depth cs
    else reach (if c = q then none else some q) depth cs
  | none, depth, c :: cs =>
    if c = '"' || c = '\'' || c = '\x60' then reach (some c) depth cs
    else if c = '(' then reach none (depth + 1) cs
    else if c = ')' then if depth ≤ 1 then .closed else reach none (depth - 1) cs
    else reach none depth cs

/-- How far the last call that `marker` opens before an offset reaches up to there. -/
def callReach (marker buffer : Text) (index : Nat) : Reach :=
  let before := buffer.take index
  match Text.findLast? marker before with
  | none => .closed
  | some start => reach none 0 (before.drop (start + marker.length - 1))

/-- Whether the last call that `marker` opens before an offset is still open there. -/
def insideCall (marker buffer : Text) (index : Nat) : Bool :=
  callReach marker buffer index != .closed

/-- Whether an offset lies in the declaration of a component's properties. -/
def inPropsDeclaration (buffer : Text) (index : Nat) : Bool :=
  propsMarkers.any fun marker => insideCall marker buffer index

/-- Whether an offset lies so far behind the end of a buffer that a declaration which is open at the
end cannot be followed to it. -/
def outrunsDeclaration (buffer : Text) (index : Nat) : Bool :=
  match (propsMarkers.map fun marker => callReach marker buffer index).find? (· != .closed) with
  | some .opened => buffer.length < index
  | some .dangling => buffer.length + 1 < index
  | _ => false

/-- What is said of an offset that outruns a declaration. -/
def outrunMessage : Text :=
  "string index out of range".toList

/-- The line that holds an offset. -/
def lineAt (t : Text) (index : Nat) : Text :=
  ((t.take index).reverse.takeWhile (· != '\n')).reverse ++ (t.drop index).takeWhile (· != '\n')

/-- The text behind a word with which a text begins, if no further word
character follows the word. -/
def afterWord? (word t : Text) : Option Text :=
  (Text.after? word t).filter fun rest => Prose.endsWord isWord rest.head?

/-- Whether a line imports or re-exports a module. -/
def isModuleLine (line : Text) : Bool :=
  let t := line.dropWhile isBlank
  (afterWord? "import".toList t).isSome ||
    match afterWord? "export".toList t with
    | none => false
    | some rest =>
      Text.fitsFrom (fun prev r => Prose.endsWord isWord prev && (afterWord? "from".toList r).isSome)
        (some 't') rest

/-- Whether an offset lies on a line that imports or re-exports a module. -/
def onModuleLine (buffer : Text) (index : Nat) : Bool :=
  isModuleLine (lineAt buffer index)

end Phrasebook.Script
