import Phrasebook.Mapping.Basic
import Phrasebook.Path

/-!
# Previews of a mapping, and where it is written
-/

namespace Phrasebook

/-- The first `n` items of a list; for a negative number, all but the last so many. -/
def takeUpTo {α : Type} (n : Int) (xs : List α) : List α :=
  match n with
  | .ofNat n => xs.take n
  | .negSucc n => xs.take (xs.length - (n + 1))

namespace Mapping

/-- The first entries of a mapping, a line for each, and a line that counts the others. -/
def preview (m : Mapping) (limit : Int) : List Text :=
  (takeUpTo limit m.entries).map
      (fun e => "  \"".toList ++ e.1 ++ "\": \"".toList ++ e.2 ++ "\"".toList) ++
    if limit < m.size then
      ["  ... ".toList ++ Text.ofInt (m.size - limit) ++ " more".toList]
    else []

/-- Where the mapping of a run over `target` is written. The given output goes before the
configured one. An output that is no JSON file is a folder, and a configured JSON file only names its
folder; in a folder the file is named for the target. -/
def outputFor (target : Path) (output : Option Text) (configured suffix : Text) : Path :=
  let file := Path.ofText (target.name ++ suffix ++ ".json".toList)
  match output with
  | some (c :: cs) =>
    let given := Path.ofText (c :: cs)
    if given.isJson then given else given.join file
  | _ =>
    let standard := Path.ofText configured
    if standard.isJson then standard.parent.join file else standard.join file

/-- Where the report on a difference written to `output` goes. -/
def reportFor (output : Text) : Path :=
  let stem := output.take (output.length - 5)
  if (output.drop stem.length).map Char.toLower = ".json".toList then
    .ofText (stem ++ "-report.txt".toList)
  else .ofText (output ++ "-report.txt".toList)

end Mapping

end Phrasebook
