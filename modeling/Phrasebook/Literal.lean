import Phrasebook.Text.Basic

/-!
# String literals in generated calls

The text of a phrase is written into a script, or into an attribute of markup, as a string literal.
Escapes that the text already holds are kept as they are written. Inside an attribute the literal
must not hold the quote that delimits the attribute.
-/

namespace Phrasebook

/-- The quotes that delimit string literals and attribute values. -/
inductive Quote where
  | single
  | double
  deriving Repr, DecidableEq

namespace Quote

/-- The character of a quote. -/
def char : Quote → Char
  | single => '\''
  | double => '"'

/-- The quote that a character is. -/
def ofChar? (c : Char) : Option Quote :=
  if c = '\'' then some single else if c = '"' then some double else none

/-- The markup entity that stands for a quote. -/
def entity : Quote → Text
  | single => "&#39;".toList
  | double => "&quot;".toList

/-- The delimiter of a literal inside an attribute delimited by `avoid`: the single quote unless it
is to be avoided. -/
def delimiter : Option Quote → Quote
  | some single => double
  | _ => single

end Quote

namespace Literal

/-- Puts a backslash before each `q` that no backslash escapes yet; `escaped` says whether an odd
run of backslashes stands before the text. -/
def escapeFrom (q : Char) : Bool → Text → Text
  | _, [] => []
  | escaped, c :: cs =>
    let rest := escapeFrom q (c == '\\' && !escaped) cs
    if c = q && !escaped then '\\' :: c :: rest else c :: rest

/-- Writes a line break as its two-character escape. -/
def escapeBreak (c : Char) : Text :=
  if c = '\r' then ['\\', 'r'] else if c = '\n' then ['\\', 'n'] else [c]

/-- The body of the literal for a text: delimiters escaped, line breaks written as escapes, and the
quote to avoid written as an entity. -/
def body (t : Text) (avoid : Option Quote) : Text :=
  let escaped := Text.expand escapeBreak (escapeFrom (Quote.delimiter avoid).char false t)
  match avoid with
  | none => escaped
  | some q => Text.expand (fun c => if c = q.char then q.entity else [c]) escaped

/-- The string literal for a text, fit for an attribute delimited by `avoid`. -/
def quote (t : Text) (avoid : Option Quote) : Text :=
  let q := (Quote.delimiter avoid).char
  q :: body t avoid ++ [q]

/-- The call of a lookup method on the literal of a key. -/
def lookupCall (method key : Text) (avoid : Option Quote) : Text :=
  method ++ '(' :: quote key avoid ++ [')']

end Literal

end Phrasebook
