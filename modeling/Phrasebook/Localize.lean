import Phrasebook.Buffer
import Phrasebook.Markup
import Phrasebook.Template
import Phrasebook.Term.Basic

/-!
# Putting lookup calls in place of terms

The terms of a source are taken one by one. Each is found again in the text as edited so far, and
what takes its place depends on where it stands there. A term that an earlier edit swallowed is
passed over. The bodies of tags and elements are replaced wherever they occur, the first time they
come up.
-/

namespace Phrasebook.Localize

/-- How far the work on a source has come. -/
structure State where
  /-- The source as edited so far. -/
  buffer : Buffer
  /-- The phrases registered so far. -/
  registry : Registry
  /-- The spans of the bodies that came up. -/
  seen : List Text := []
  /-- How many terms have been replaced. -/
  replaced : Nat := 0
  /-- The spans that have no place for a call, in order. -/
  leftAlone : List Text := []

/-- How the calls are written. -/
structure Style where
  /-- The language of the source. -/
  dialect : Dialect
  /-- The lookup method. -/
  method : Text

/-- The key of a term and its call, fit for an attribute delimited by `avoid`. -/
def callOf (t : Term) (method : Text) (avoid : Option Quote) :
    Except Template.Overflow (Text × Text) :=
  if t.isTemplated then
    match Template.canonical t.content with
    | .ok c => .ok (c.key, c.call method avoid)
    | .error o => .error o
  else .ok (t.content, Literal.lookupCall method t.content avoid)

/-- The white space before and behind the words of a text; a text of white space is all before. -/
def padding (inner : Text) : Text × Text :=
  if Text.isBlankText inner then (inner, [])
  else (inner.takeWhile isBlank, (inner.reverse.takeWhile isBlank).reverse)

/-- Encloses a call in double braces. -/
def interpolated (call : Text) : Text :=
  ['\x7b', '\x7b', ' '] ++ call ++ [' ', '\x7d', '\x7d']

/-- How a call stands in the text between tags. -/
def embedded (dialect : Dialect) (call : Text) : Text :=
  match dialect with
  | .markup => interpolated call
  | .script => '\x7b' :: call ++ ['\x7d']

/-- The text that takes the place of a body: its tags and the white space inside stay. -/
def bodyReplacement (t : Term) (call : Text) (dialect : Dialect) : Text :=
  match t.kind with
  | .elementBody tag attributes =>
    let inner := (t.span.take (t.span.length - (tag.length + 3))).drop
      (tag.length + attributes.length + 2)
    let (lead, trail) := padding inner
    '<' :: tag ++ attributes ++ ['>'] ++ lead ++ interpolated call ++ trail ++ "</".toList ++
      tag ++ ['>']
  | _ =>
    let (lead, trail) := padding (t.span.dropLast.drop 1)
    '>' :: lead ++ embedded dialect call ++ trail ++ ['<']

/-- Registers a phrase under its key. -/
def State.register (s : State) (key : Text) : State :=
  { s with registry := s.registry.register key key }

/-- Puts a replacement in place of a term and registers its key. -/
def State.place (s : State) (key : Text) (start stop : Nat) (replacement : Text) : State :=
  { s.register key with
    buffer := s.buffer.splice start stop replacement
    replaced := s.replaced + 1 }

/-- The text in front of a call: the name of the field that it is assigned to. -/
def fieldLabel (t : Term) : Text :=
  match t.kind with
  | .field name => name ++ ": ".toList
  | _ => []

/-- One step on the body of a tag or element. -/
def stepBody (style : Style) (s : State) (t : Term) : Except Template.Overflow State :=
  if s.seen.contains t.span then .ok s
  else
    let s := { s with seen := t.span :: s.seen }
    if (s.buffer.findFrom? t.span 0).isNone then .ok s
    else
      match callOf t style.method none with
      | .error o => .error o
      | .ok (key, call) =>
        let (buffer, count) :=
          s.buffer.replaceEverywhere t.span (bodyReplacement t call style.dialect)
        .ok { s.register key with
          buffer := buffer
          replaced := if count = 0 then s.replaced else s.replaced + 1 }

/-- One step on a literal of a script, found again at `pos`. -/
def stepScript (style : Style) (s : State) (t : Term) (pos : Nat) : Except Template.Overflow State :=
  match callOf t style.method none with
  | .error o => .error o
  | .ok (key, call) => .ok (s.place key pos (pos + t.span.length) (fieldLabel t ++ call))

/-- The place of a literal of markup, found again at `pos`; for a field, that of its value. -/
def siteOf? (s : State) (t : Term) (pos : Nat) : Option Site :=
  match t.kind with
  | .field _ =>
    let value := t.span.takeWhile (· != '\'')
    Markup.site? s.buffer.masked (pos + value.length) (t.span.drop value.length)
  | _ => Markup.site? s.buffer.masked pos t.span

/-- The blank to put before the name of a bound attribute, unless one stands there. -/
def separator (text : Text) (start : Nat) : Text :=
  if 0 < start && (text.drop (start - 1)).head?.any isBlank then [] else [' ']

/-- One step on a literal of markup, found again at `pos`. -/
def stepMarkup (style : Style) (s : State) (t : Term) (pos : Nat) : Except Template.Overflow State :=
  let stop := pos + t.span.length
  match siteOf? s t pos with
  | none => .ok { s with leftAlone := s.leftAlone ++ [t.span] }
  | some site =>
    match site, t.kind with
    | .plainAttribute .., .field _ | .body, .field _ => .ok s
    | .plainAttribute name start q, _ =>
      match callOf t style.method (some q) with
      | .error o => .error o
      | .ok (key, call) =>
        .ok (s.place key start stop
          (separator s.buffer.text start ++ ':' :: name ++ '=' :: q.char :: call ++ [q.char]))
    | .body, _ =>
      match callOf t style.method none with
      | .error o => .error o
      | .ok (key, call) => .ok (s.place key pos stop (interpolated call))
    | site, _ =>
      match callOf t style.method site.quote? with
      | .error o => .error o
      | .ok (key, call) => .ok (s.place key pos stop (fieldLabel t ++ call))

/-- One step of the work. -/
def step (style : Style) (s : State) (t : Term) : Except Template.Overflow State :=
  if t.isBody then stepBody style s t
  else
    match s.buffer.locate? t.offset t.span.length with
    | none => .ok s
    | some pos =>
      if !s.buffer.holdsAt t.span pos then .ok s
      else
        match style.dialect with
        | .script => stepScript style s t pos
        | .markup => stepMarkup style s t pos

/-- All steps, up to the first overflow; the state is the one before the term that overflowed. -/
def run (style : Style) : State → List Term → State × Option Template.Overflow
  | s, [] => (s, none)
  | s, t :: ts =>
    match step style s t with
    | .ok s => run style s ts
    | .error o => (s, some o)

/-- The work on a text with the given terms, from a registry on. -/
def localize (style : Style) (registry : Registry) (text : Text) (terms : List Term) :
    State × Option Template.Overflow :=
  run style { buffer := .ofText text, registry } terms

end Phrasebook.Localize
