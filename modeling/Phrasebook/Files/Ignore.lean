import Phrasebook.Files.Wildcard
import Phrasebook.Path

/-!
# Ignored paths

A pattern without wildcards ignores what has its name, or has it on the way from the root, or holds
it as a run of names. A pattern with wildcards is matched with the name and with the whole path seen
from the root.
-/

namespace Phrasebook.Files

/-- The path seen from the root, if it lies below. -/
def seenFrom (root : Option Path) (p : Path) : Path :=
  match root with
  | some r => (p.relativeTo? r).getD p
  | none => p

/-- Whether one pattern ignores a path, given as seen from the root; an empty one ignores nothing. -/
def ignores (pattern name : Text) (seen : Path) : Bool :=
  let whole := seen.toText
  if pattern.isEmpty then false
  else if Wildcard.isWild pattern then
    Wildcard.isMatch pattern name || Wildcard.isMatch pattern whole
  else
    let plain := Text.trim (· == '/') pattern
    name == plain || seen.orderKey.contains plain ||
      (plain.contains '/' &&
        (whole == plain || (plain ++ ['/']).isPrefixOf whole ||
          Text.occurs ('/' :: plain ++ ['/']) ('/' :: whole ++ ['/'])))

/-- Whether some pattern ignores a path. -/
def isIgnored (patterns : List Text) (root : Option Path) (p : Path) : Bool :=
  patterns.any fun pattern => ignores pattern p.name (seenFrom root p)

end Phrasebook.Files
