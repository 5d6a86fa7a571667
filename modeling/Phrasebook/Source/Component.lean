import Phrasebook.Prose

/-!
# The blocks of a component

A single-file component holds its markup in the outermost `template` element and its script in a
`script` element. The names of these elements may be written in any case.
-/

namespace Phrasebook.Component

/-- A block of a component: where its body starts, its start tag, and the body. -/
structure Block where
  /-- Offset of the body. -/
  start : Nat
  /-- The start tag. -/
  tag : Text
  /-- The text between the tags. -/
  body : Text
  deriving Repr, DecidableEq

/-- The rest behind a word with which a text begins in any case. -/
def afterFolded? (word t : Text) : Option Text :=
  if (t.take word.length).map Prose.foldCase = word then some (t.drop word.length) else none

/-- The start tag of the element `name` at the front of a text, and the rest. -/
def startTag? (name t : Text) : Option (Text × Text) :=
  match afterFolded? ('<' :: name) t with
  | none => none
  | some rest =>
    if Prose.endsWord isWord rest.head? then
      match rest.dropWhile (· != '>') with
      | _ :: behind => some (t.take (t.length - behind.length), behind)
      | [] => none
    else none

/-- The end tag of the element `name`. -/
def endTag (name : Text) : Text :=
  "</".toList ++ name ++ ['>']

/-- The shape of a block up to the first end tag. -/
def blockShape (name : Text) : Shape (Text × Text) := fun _ t =>
  match startTag? name t with
  | none => none
  | some (tag, rest) =>
    (Text.find? (endTag name) (rest.map Prose.foldCase)).map fun n =>
      (tag.length + n + (endTag name).length, tag, rest.take n)

/-- The block from the first start tag of `name` to its last end tag. -/
def outermostFrom (name : Text) (pos : Nat) : Text → Option Block
  | [] => none
  | c :: cs =>
    match startTag? name (c :: cs) with
    | none => outermostFrom name (pos + 1) cs
    | some (tag, rest) =>
      (Text.findLast? (endTag name) (rest.map Prose.foldCase)).map fun n =>
        ⟨pos + tag.length, tag, rest.take n⟩

/-- The markup of a component. -/
def template? (t : Text) : Option Block :=
  outermostFrom "template".toList 0 t

/-- The scripts of a component, in order. -/
def scripts (t : Text) : List Block :=
  (Text.hits (blockShape "script".toList) t).map fun h =>
    ⟨h.start + h.value.1.length, h.value.1, h.value.2⟩

/-- Whether a word stands somewhere in a text, in any case, with no word character next to it. -/
def hasWord (word t : Text) : Bool :=
  Text.fitsSomewhere (fun prev rest =>
    Prose.endsWord isWord prev &&
      (afterFolded? word rest).any fun r => Prose.endsWord isWord r.head?) t

/-- The script of a component: the first with a `setup` attribute, or else the first. -/
def script? (t : Text) : Option Block :=
  let blocks := scripts t
  (blocks.find? fun b => hasWord "setup".toList b.tag).orElse fun _ => blocks.head?

/-- Whether a start tag gives its language as `tsx`, so that the script holds tags. -/
def hasTags (tag : Text) : Bool :=
  Text.fitsSomewhere (fun prev rest =>
    Prose.endsWord isWord prev &&
      match (afterFolded? "lang".toList rest).map (·.dropWhile isBlank) with
      | some ('=' :: r) =>
        match r.dropWhile isBlank with
        | q :: value =>
          Prose.isQuote q && (afterFolded? "tsx".toList value).any (·.head?.any Prose.isQuote)
        | [] => false
      | _ => false) tag

/-- A text with the body of one of its blocks replaced. -/
def withBody (t : Text) (b : Block) (body : Text) : Text :=
  t.take b.start ++ body ++ t.drop (b.start + b.body.length)

end Phrasebook.Component
