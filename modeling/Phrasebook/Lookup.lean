import Phrasebook.Text.Blank
import Phrasebook.Text.Scan
import Phrasebook.Text.WordChar

/-!
# Lookup calls

A literal that already is the argument of a lookup function must not be wrapped again. A lookup
call is a known name, not part of a longer ASCII word, with an opening parenthesis behind it.
-/

namespace Phrasebook.Lookup

/-- The lookup functions that are always known. -/
def defaultNames : List Text :=
  ["$t".toList, "t".toList, "i18n.t".toList, "i18n.global.t".toList]

/-- The lookup functions known when `names` are configured; an empty name does not count. -/
def knownNames (names : List Text) : List Text :=
  defaultNames ++ names.filter (!·.isEmpty)

/-- How many characters before a literal are searched for the call it stands in. -/
def window : Nat := 50

/-- The text behind the opening parenthesis of the call of `name` with which a text begins. -/
def callRest? (name rest : Text) : Option Text :=
  match (Text.after? name rest).map (·.dropWhile isAsciiBlank) with
  | some ('(' :: r) => some r
  | _ => none

/-- Whether a name may start behind the given character. -/
def mayStart (prev : Option Char) : Bool :=
  !prev.any fun c => isAsciiWord c || c == '$'

/-- Whether a lookup call opens at a place. -/
def opensAt (names : List Text) (prev : Option Char) (rest : Text) : Bool :=
  mayStart prev && (knownNames names).any fun name => (callRest? name rest).isSome

/-- Whether a lookup call opens at a place and nothing but white space follows it. -/
def opensLastAt (names : List Text) (prev : Option Char) (rest : Text) : Bool :=
  mayStart prev && (knownNames names).any fun name =>
    (callRest? name rest).any (·.all isAsciiBlank)

/-- Whether a text holds the opening of a lookup call. -/
def holdsCall (names : List Text) (t : Text) : Bool :=
  Text.fitsSomewhere (opensAt names) t

/-- Whether a text ends in the opening of a lookup call. -/
def endsInCall (names : List Text) (t : Text) : Bool :=
  Text.fitsSomewhere (opensLastAt names) t

/-- The characters before an offset that are searched for an opening call. -/
def windowBefore (buffer : Text) (index : Nat) : Text :=
  Text.slice buffer (index - window) index

/-- Whether the literal `span` at offset `index` is, or directly stands in, a lookup call. -/
def isLocalizedAt (names : List Text) (buffer : Text) (index : Nat) (span : Text) : Bool :=
  holdsCall names span || endsInCall names (windowBefore buffer index)

/-- Whether `span` is a lookup call, or directly stands in one wherever it occurs in `buffer`. -/
def isLocalizedAnywhere (names : List Text) (buffer span : Text) : Bool :=
  holdsCall names span ||
    (Text.occurrences span buffer).any fun i => endsInCall names (windowBefore buffer i)

end Phrasebook.Lookup
