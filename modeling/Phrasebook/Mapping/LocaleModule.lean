import Phrasebook.Comment
import Phrasebook.Mapping.Basic
import Phrasebook.Prose

/-!
# Locale modules

A locale module exports one flat object by default; its members are keys, quoted or not, with texts
in any of the three quotes.
-/

namespace Phrasebook.LocaleModule

/-- Why a module gives no mapping. -/
inductive Fault where
  /-- No object is exported by default. -/
  | noExport
  /-- The exported object has no member that can be read. -/
  | noEntry
  deriving Repr, DecidableEq

/-- The message of a fault. -/
def Fault.message : Fault → Text
  | noExport => "No `export default \x7b … \x7d` object found".toList
  | noEntry => "Could not parse any entry of the exported object".toList

/-- The text behind the opening brace of a default export at the front of a text. -/
def exportBrace? (t : Text) : Option Text :=
  match Text.after? "export".toList t with
  | none => none
  | some rest =>
    if rest.head?.any isBlank then
      match (Text.after? "default".toList (rest.dropWhile isBlank)).map (·.dropWhile isBlank) with
      | some ('\x7b' :: inner) => some inner
      | _ => none
    else none

/-- The text of the object that a module exports by default: up to the last brace, behind which only
a semicolon and white space may follow. -/
def object? (t : Text) : Option Text :=
  match Text.firstFit exportBrace? t with
  | none => none
  | some inner =>
    match Text.findLast? ['\x7d'] inner with
    | none => none
    | some n =>
      let behind := inner.drop (n + 1)
      let rest := if behind.head? = some ';' then behind.drop 1 else behind
      if Text.isBlankText rest then some (inner.take n) else none

/-- The characters of a key. -/
def isKeyChar (c : Char) : Bool :=
  c != '\'' && c != '"' && c != ':' && c != '\n'

/-- A key at the front of a text, in two quotes of one kind or in none, and the rest. -/
def key? (t : Text) : Option (Text × Text) :=
  match t with
  | [] => none
  | q :: rest =>
    if Prose.isQuote q then
      let key := rest.takeWhile isKeyChar
      let behind := rest.dropWhile isKeyChar
      if !key.isEmpty && behind.head? = some q then some (key, behind.drop 1) else none
    else
      let key := t.takeWhile isKeyChar
      if key.isEmpty then none else some (key, t.dropWhile isKeyChar)

/-- The three quotes of script strings. -/
def isStringQuote (c : Char) : Bool :=
  Prose.isQuote c || c == '\x60'

/-- The shape of a member: a key, a colon, a text in quotes, and a comma if there is one. -/
def memberShape : Shape (Text × Text) := fun _ t =>
  match key? t with
  | none => none
  | some (key, rest) =>
    match rest.dropWhile isBlank with
    | ':' :: r =>
      match r.dropWhile isBlank with
      | q :: value =>
        if isStringQuote q then
          match value.dropWhile (· != q) with
          | [] => none
          | _ :: behind =>
            let behind := behind.dropWhile isBlank
            let behind := if behind.head? = some ',' then behind.drop 1 else behind
            some (t.length - behind.length, Text.strip key, value.takeWhile (· != q))
        else none
      | [] => none
    | _ => none

/-- The mapping that a locale module holds. -/
def read (t : Text) : Except Fault Mapping :=
  match object? (Comment.strip t) with
  | none => .error .noExport
  | some inner =>
    match (Text.hits memberShape inner).map Hit.value with
    | [] => .error .noEntry
    | members => .ok (.ofPairs members)

end Phrasebook.LocaleModule
