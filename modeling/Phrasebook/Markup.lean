import Phrasebook.Literal
import Phrasebook.Prose

/-!
# Places in markup

What has to be written in place of a literal in component markup depends on where it stands: as the
value of a plain attribute, in the expression of a bound attribute or of another binding, in an
interpolation, or in the text between tags.
-/

namespace Phrasebook

/-- The marks that open the name of a binding. -/
inductive Sigil where
  | colon
  | atSign
  | hash
  | directive
  deriving Repr, DecidableEq

namespace Sigil

/-- How a sigil is written. -/
def text : Sigil → Text
  | colon => [':']
  | atSign => ['@']
  | hash => ['#']
  | directive => ['v', '-']

/-- The sigil at the front of a text, with the rest. -/
def read? : Text → Option (Sigil × Text)
  | ':' :: rest => some (colon, rest)
  | '@' :: rest => some (atSign, rest)
  | '#' :: rest => some (hash, rest)
  | 'v' :: '-' :: rest => some (directive, rest)
  | _ => none

end Sigil

/-- A binding whose value has been opened by a quote. -/
structure Binding where
  /-- The mark before the name. -/
  sigil : Sigil
  /-- The name behind the mark. -/
  name : Text
  /-- The quote that delimits the value. -/
  quote : Quote
  deriving Repr, DecidableEq

/-- The beginning of the names under which a directive binds an attribute. -/
def bindWord : Text := "bind:".toList

/-- Whether a binding gives an attribute its value. -/
def Binding.isBoundAttribute (b : Binding) : Bool :=
  match b.sigil with
  | .colon => true
  | .directive => bindWord.isPrefixOf b.name
  | _ => false

/-- Where a literal stands, as far as its replacement depends on it. -/
inductive Site where
  /-- The whole value of the plain attribute `name`, whose name starts at `start`. -/
  | plainAttribute (name : Text) (start : Nat) (quote : Quote)
  /-- Inside the value of a bound attribute that starts at `start`. -/
  | boundAttribute (name : Text) (start : Nat) (quote : Quote)
  /-- Inside double braces. -/
  | interpolation
  /-- Inside the value of another binding that starts at `start`. -/
  | bindingExpression (name : Text) (start : Nat) (quote : Quote)
  /-- In the text between tags. -/
  | body
  deriving Repr, DecidableEq

namespace Site

/-- The name of the kind of a place. -/
def label : Site → String
  | plainAttribute .. => "plain-attribute"
  | boundAttribute .. => "bound-attribute"
  | interpolation => "interpolation"
  | bindingExpression .. => "binding-expression"
  | body => "body"

/-- The quote of the attribute around a place. -/
def quote? : Site → Option Quote
  | plainAttribute _ _ q | boundAttribute _ _ q | bindingExpression _ _ q => some q
  | _ => none

end Site

namespace Markup

/-- The characters of a binding's name. -/
def isBindingChar (c : Char) : Bool :=
  isWord c || c == ':' || c == '.' || c == '[' || c == ']' || c == '-'

/-- The characters behind the first of a plain attribute's name. -/
def isAttributeChar (c : Char) : Bool :=
  isWord c || c == '.' || c == '-'

/-- The text behind an equals sign with white space around it. -/
def afterEquals? (t : Text) : Option Text :=
  match t.dropWhile isBlank with
  | '=' :: rest => some (rest.dropWhile isBlank)
  | _ => none

/-- A binding up to its equals sign and the white space behind: sigil, name and rest. -/
def bindingHead? (prev : Option Char) (t : Text) : Option (Sigil × Text × Text) :=
  if prev.all (fun c => isBlank c || c == '>') then
    match Sigil.read? t with
    | none => none
    | some (sigil, rest) =>
      let name := rest.takeWhile isBindingChar
      if name.isEmpty then none
      else (afterEquals? (rest.dropWhile isBindingChar)).map (sigil, name, ·)
  else none

/-- A plain attribute up to its equals sign and the white space behind: name and rest. -/
def attributeHead? (prev : Option Char) (t : Text) : Option (Text × Text) :=
  if prev.all isBlank then
    match t with
    | [] => none
    | c :: cs =>
      if c.isAlpha || c == '_' then
        (afterEquals? (cs.dropWhile isAttributeChar)).map (c :: cs.takeWhile isAttributeChar, ·)
      else none
  else none

/-- The shape of a binding up to the quote that opens its value. -/
def bindingShape : Shape Binding := fun prev t =>
  match bindingHead? prev t with
  | some (sigil, name, c :: rest) =>
    (Quote.ofChar? c).map fun q => (t.length - rest.length, ⟨sigil, name, q⟩)
  | _ => none

/-- The shape of a plain attribute up to the quote that opens its value. -/
def attributeShape : Shape Quote := fun prev t =>
  match attributeHead? prev t with
  | some (_, c :: rest) => (Quote.ofChar? c).map fun q => (t.length - rest.length, q)
  | _ => none

/-- Whether a quote stands in a text without a backslash before it; `prev` is the character before
the text. -/
def hasUnescaped (q : Char) : Char → Text → Bool
  | _, [] => false
  | prev, c :: cs => (c == q && prev != '\\') || hasUnescaped q c cs

/-- Whether the value that the quote `q` opened before offset `start` is closed in `before`. -/
def isClosed (before : Text) (q : Quote) (start : Nat) : Bool :=
  hasUnescaped q.char q.char (before.drop start)

/-- Whether the last double brace opened before an offset is still open there. -/
def inInterpolation (buffer : Text) (index : Nat) : Bool :=
  let before := buffer.take index
  match Text.findLast? ['\x7b', '\x7b'] before with
  | none => false
  | some start => !Text.occurs ['\x7d', '\x7d'] (before.drop (start + 2))

/-- The binding whose value is open at an offset. -/
def openBinding? (buffer : Text) (index : Nat) : Option (Hit Binding) :=
  let before := buffer.take index
  match (Text.hits bindingShape before).getLast? with
  | none => none
  | some h => if isClosed before h.value.quote h.stop then none else some h

/-- Whether the value of a plain attribute is open at an offset. -/
def inAttributeValue (buffer : Text) (index : Nat) : Bool :=
  let before := buffer.take index
  match (Text.hits attributeShape before).getLast? with
  | none => false
  | some h => !isClosed before h.value h.stop

/-- The plain attribute, with its offset, that ends a text in its equals sign. -/
def attributeTail? (before : Text) : Option (Hit Text) :=
  (Text.hits (fun prev t =>
    match attributeHead? prev t with
    | some (name, []) => some (t.length, name)
    | _ => none) before).head?

/-- Whether a text ends in the equals sign of a binding. -/
def endsInBinding (before : Text) : Bool :=
  Text.fitsSomewhere (fun prev t =>
    match bindingHead? prev t with
    | some (_, _, []) => true
    | _ => false) before

/-- What an attribute around a literal asks for. -/
inductive AttributeContext where
  /-- The literal is the whole value of a plain attribute, which then has to be bound. -/
  | plain (name : Text) (start : Nat) (quote : Quote)
  /-- The literal stands in the value of an attribute that is bound already. -/
  | bound (name : Text) (start : Nat) (quote : Quote)
  /-- The literal stands in no attribute. -/
  | outside
  deriving Repr, DecidableEq

/-- The quote with which a literal begins. -/
def openingQuote? (span : Text) : Option Quote :=
  span.head?.bind Quote.ofChar?

/-- The plain attribute whose whole value is the literal `span` at an offset; directives are none. -/
def plainAttribute? (buffer : Text) (index : Nat) (span : Text) : Option (Text × Nat × Quote) :=
  match openingQuote? span, attributeTail? (buffer.take index) with
  | some q, some h => if ['v', '-'].isPrefixOf h.value then none else some (h.value, h.start, q)
  | _, _ => none

/-- The attribute around the literal `span` at an offset; a plain one goes before a bound one. -/
def attributeContext (buffer : Text) (index : Nat) (span : Text) : AttributeContext :=
  match plainAttribute? buffer index span with
  | some (name, start, q) => .plain name start q
  | none =>
    match openBinding? buffer index with
    | some ⟨start, _, b⟩ =>
      if b.isBoundAttribute then
        .bound (if b.sigil = .directive then b.name.drop bindWord.length else b.name) start b.quote
      else .outside
    | none => .outside

/-- The place of the quoted literal `span` at an offset, or nothing when the literal must be left
alone: it is the raw value of a binding, or part of the text of a plain attribute. -/
def site? (buffer : Text) (index : Nat) (span : Text) : Option Site :=
  match openBinding? buffer index with
  | some ⟨start, _, b⟩ =>
    if b.isBoundAttribute then some (.boundAttribute b.name start b.quote)
    else if inInterpolation buffer index then some .interpolation
    else some (.bindingExpression b.name start b.quote)
  | none =>
    if inInterpolation buffer index then some .interpolation
    else
      match plainAttribute? buffer index span with
      | some (name, start, q) => some (.plainAttribute name start q)
      | none =>
        let before := buffer.take index
        if endsInBinding before || (attributeTail? before).isSome ||
            inAttributeValue buffer index then none
        else some .body

end Markup

end Phrasebook
