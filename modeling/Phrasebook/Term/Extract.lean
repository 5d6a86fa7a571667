import Phrasebook.Comment
import Phrasebook.Lookup
import Phrasebook.Prose
import Phrasebook.Script.Place
import Phrasebook.Term.Basic

/-!
# Finding the terms of a source

Scanners run over the source with its comments blanked, one for each kind of term: double-quoted
literals, fields, single-quoted literals, template literals, and in markup the bodies of tags and of
some elements. A term counts only if it stands in the source itself, not across a comment, and if it
is not localized yet. The lists of the scanners are joined in a fixed order, so the same text may
come more than once.
-/

namespace Phrasebook.Term

/-- What the scanners are told. -/
structure Options where
  /-- Configured lookup functions. -/
  lookupNames : List Text := []
  /-- The fields whose single-quoted values are terms. -/
  fieldNames : List Text := ["i18n".toList]
  /-- Whether a script holds tags too. -/
  jsx : Bool := false

/-- A source prepared for scanning. -/
structure Source where
  /-- The source. -/
  text : Text
  /-- The source with its comments blanked. -/
  masked : Text
  /-- Configured lookup functions. -/
  names : List Text
  /-- The language of the source. -/
  dialect : Dialect

namespace Source

variable {α : Type}

/-- What the blanked source holds at a hit. -/
def spanOf (s : Source) (h : Hit α) : Text :=
  Text.slice s.masked h.start h.stop

/-- Whether a hit stands in the source itself. -/
def isIntact (s : Source) (h : Hit α) : Bool :=
  Text.slice s.text h.start h.stop == s.spanOf h

/-- Whether an offset of a script is to be left alone. -/
def isSkipped (s : Source) (i : Nat) : Bool :=
  s.dialect == .script && (Script.inPropsDeclaration s.masked i || Script.onModuleLine s.masked i)

/-- Whether a hit is, or directly stands in, a lookup call. -/
def isLocalized (s : Source) (h : Hit α) : Bool :=
  Lookup.isLocalizedAt s.names s.masked h.start (s.spanOf h)

/-- The term of a hit. -/
def term (s : Source) (h : Hit α) (content : Text) (kind : TermKind) : Term :=
  ⟨s.spanOf h, content, kind, h.start⟩

end Source

/-- The shape of a literal between two quotes `q`; its value is the text between them. -/
def quotedShape (q : Char) : Shape Text := fun _ t =>
  (Text.enclosed? (· == q) (· == q) t).map fun p => (p.1.length + 2, p.1)

/-- The shape of a text between two tags. -/
def tagBodyShape : Shape Text := fun _ t =>
  match t with
  | '>' :: rest =>
    let inner := rest.takeWhile fun c => c != '<' && c != '>'
    if (rest.drop inner.length).head? = some '<' then some (inner.length + 2, inner) else none
  | _ => none

/-- The shape of a text between two tags of a script: not empty, and without braces. -/
def jsxBodyShape : Shape Text := fun _ t =>
  match t with
  | '>' :: rest =>
    let inner := rest.takeWhile fun c => c != '<' && c != '>' && c != '\x7b' && c != '\x7d'
    if !inner.isEmpty && (rest.drop inner.length).head? = some '<' then
      some (inner.length + 2, inner)
    else none
  | _ => none

/-- The elements whose bodies are terms. -/
def bodyTags : List Text :=
  ["el-button".toList, "el-radio-button".toList, "button".toList, "a".toList]

/-- What a hit of an element holds. -/
structure Element where
  /-- The name of the tag. -/
  tag : Text
  /-- The text from the name to the closing bracket of the start tag. -/
  attributes : Text
  /-- The text between the tags. -/
  inner : Text
  deriving Repr, DecidableEq

/-- The attributes of a start tag from behind its name: none, or a blank and all up to the closing
bracket; with the text behind the bracket. -/
def attributesOf? (t : Text) : Option (Text × Text) :=
  match t with
  | '>' :: rest => some ([], rest)
  | c :: rest =>
    if isBlank c then
      match rest.dropWhile (· != '>') with
      | _ :: behind => some (c :: rest.takeWhile (· != '>'), behind)
      | [] => none
    else none
  | [] => none

/-- The element with a given tag behind an opening bracket, with its length. -/
def elementOf? (tag t : Text) : Option (Nat × Element) :=
  match (Text.after? tag t).bind attributesOf? with
  | none => none
  | some (attributes, rest) =>
    let closing := "</".toList ++ tag ++ ['>']
    (Text.find? closing rest).map fun n =>
      (1 + tag.length + attributes.length + 1 + n + closing.length,
        ⟨tag, attributes, rest.take n⟩)

/-- The shape of an element whose body is a term. -/
def elementShape : Shape Element := fun _ t =>
  match t with
  | '<' :: rest => bodyTags.findSome? fun tag => elementOf? tag rest
  | _ => none

/-- A field of a given name with its single-quoted value at the front of a text: length and value. -/
def fieldOf? (name t : Text) : Option (Nat × Text) :=
  match (Text.after? name t).map (·.dropWhile isBlank) with
  | some (':' :: rest) =>
    match rest.dropWhile isBlank with
    | '\'' :: r =>
      let value := r.takeWhile fun c => c != '\'' && c != '\n'
      let behind := r.drop value.length
      if !value.isEmpty && behind.head? == some '\'' then
        some (t.length - (behind.length - 1), value)
      else none
    | _ => none
  | _ => none

/-- The shape of a field with its value: the first of the names that fits. -/
def fieldShape (names : List Text) : Shape (Text × Text) := fun prev t =>
  if prev.any (fun c => isWord c || c == '$' || c == '.') then none
  else
    (names.filter (!·.isEmpty)).findSome? fun name =>
      (fieldOf? name t).map fun p => (p.1, name, p.2)

/-- Whether a content is nothing but a literal in quotes `q`. -/
def isWrapped (q : Char) (content : Text) : Bool :=
  2 ≤ content.length && content.head? == some q && content.getLast? == some q

/-- The double-quoted terms. -/
def doubleQuoted (s : Source) : List Term :=
  (Text.hits (quotedShape '"') s.masked).filterMap fun h =>
    let content := Text.strip h.value
    if !isWrapped '\'' content && !Prose.isExpression content && s.isIntact h &&
        !s.isSkipped h.start && Prose.isProse content && !s.isLocalized h then
      some (s.term h content .doubleQuoted)
    else none

/-- The fields with a phrase as their value. -/
def fields (s : Source) (names : List Text) : List Term :=
  (Text.hits (fieldShape names) s.masked).filterMap fun h =>
    let content := Text.strip h.value.2
    if s.isIntact h && !s.isSkipped h.start && Prose.isProse content then
      some (s.term h content (.field h.value.1))
    else none

/-- The single-quoted terms outside the given fields. -/
def singleQuoted (s : Source) (fieldTerms : List Term) : List Term :=
  (Text.hits (quotedShape '\'') s.masked).filterMap fun h =>
    let content := Text.strip h.value
    if !fieldTerms.any (fun f => f.offset ≤ h.start && h.start < f.stop) &&
        !isWrapped '"' content && s.isIntact h && !s.isSkipped h.start && Prose.isProse content &&
        !s.isLocalized h then
      some (s.term h content .singleQuoted)
    else none

/-- The template literals; they may look like code. -/
def backticks (s : Source) : List Term :=
  (Text.hits (quotedShape '\x60') s.masked).filterMap fun h =>
    let content := Text.strip h.value
    if Prose.hasTarget content && !Prose.isFilePath content && s.isIntact h &&
        !s.isSkipped h.start && !s.isLocalized h then
      some (s.term h content .backtick)
    else none

/-- The texts between tags that hold neither quotes nor interpolations. -/
def tagBodies (s : Source) : List Term :=
  (Text.hits tagBodyShape s.masked).filterMap fun h =>
    let content := Text.strip h.value
    if !content.any Prose.isQuote && !Text.occurs ['\x7b', '\x7b'] content &&
        !Text.occurs ['\x7d', '\x7d'] content && s.isIntact h && Prose.isProse content &&
        !s.isLocalized h then
      some (s.term h (Text.collapse content) .tagBody)
    else none

/-- The elements that hold nothing but a text without interpolations. -/
def elementBodies (s : Source) : List Term :=
  (Text.hits elementShape s.masked).filterMap fun h =>
    let content := Text.strip h.value.inner
    if !Text.occurs ['\x7b', '\x7b'] content && !Text.occurs ['\x7d', '\x7d'] content &&
        !content.contains '<' && s.isIntact h && Prose.isProse content && !s.isLocalized h then
      some (s.term h (Text.collapse content) (.elementBody h.value.tag h.value.attributes))
    else none

/-- The texts between tags of a script. -/
def jsxBodies (s : Source) : List Term :=
  (Text.hits jsxBodyShape s.masked).filterMap fun h =>
    let content := Text.strip h.value
    if s.isIntact h && Prose.isProse content && !s.isLocalized h then
      some (s.term h (Text.collapse content) .tagBody)
    else none

/-- The terms of a source, scanner by scanner. -/
def extract (text : Text) (dialect : Dialect) (options : Options) : List Term :=
  let s : Source := ⟨text, Comment.mask text, options.lookupNames, dialect⟩
  let fieldTerms := fields s options.fieldNames
  doubleQuoted s ++ fieldTerms ++ singleQuoted s fieldTerms ++ backticks s ++
    (if dialect = .markup then tagBodies s ++ elementBodies s else []) ++
    (if options.jsx then jsxBodies s else [])

end Phrasebook.Term
