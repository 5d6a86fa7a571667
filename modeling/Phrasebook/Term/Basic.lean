import Phrasebook.Text.Basic

/-!
# Terms

A term is a piece of a source that holds a phrase: the span it takes, the phrase itself, and what
kind of piece it is.
-/

namespace Phrasebook

/-- The two languages of the sources. -/
inductive Dialect where
  | markup
  | script
  deriving Repr, DecidableEq

/-- What kind of piece a term is. -/
inductive TermKind where
  | doubleQuoted
  | singleQuoted
  /-- A template literal. -/
  | backtick
  /-- The text between two tags, with the angle brackets around it. -/
  | tagBody
  /-- An element with nothing but text inside. -/
  | elementBody (tag attributes : Text)
  /-- A single-quoted literal assigned to a field, with the field's name. -/
  | field (name : Text)
  deriving Repr, DecidableEq

/-- A piece of a source that holds a phrase. -/
structure Term where
  /-- The piece as it stands in the source. -/
  span : Text
  /-- The phrase. -/
  content : Text
  /-- The kind of the piece. -/
  kind : TermKind
  /-- Where the piece starts. -/
  offset : Nat
  deriving Repr, DecidableEq

namespace Term

/-- Where the piece ends. -/
def stop (t : Term) : Nat :=
  t.offset + t.span.length

/-- Whether the phrase holds a marker: a dollar sign and braces around something. -/
def isTemplated (t : Term) : Bool :=
  match Text.find? ['$', '\x7b'] t.content with
  | none => false
  | some i => (t.content.drop (i + 2)).contains '\x7d'

/-- Whether a term is replaced wherever its span occurs. -/
def isBody (t : Term) : Bool :=
  match t.kind with
  | .tagBody | .elementBody .. => true
  | _ => false

end Term

end Phrasebook
