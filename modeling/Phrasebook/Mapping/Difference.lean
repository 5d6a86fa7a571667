import Phrasebook.Mapping.Basic

/-!
# Differences of mappings

The entries of one mapping that another does not have yet, by key or by key and text, with a report
for the reader.
-/

namespace Phrasebook.Mapping

/-- The entries of a mapping sorted by whether another mapping has them. -/
structure Difference where
  /-- The entries that the other mapping lacks. -/
  result : Mapping
  /-- The keys of the entries that it has. -/
  removed : List Text
  /-- The size of the first mapping. -/
  firstTotal : Nat
  /-- The size of the other mapping. -/
  secondTotal : Nat

/-- Whether a mapping has an entry; with `compareText` the texts must agree too. -/
def has (m : Mapping) (compareText : Bool) (entry : Text × Text) : Bool :=
  match m.get? entry.1 with
  | none => false
  | some t => !compareText || t == entry.2

/-- The difference of two mappings. -/
def difference (first second : Mapping) (compareText : Bool) : Difference where
  result := first.filter fun e => !second.has compareText e
  removed := (first.entries.filter (second.has compareText)).map Prod.fst
  firstTotal := first.size
  secondTotal := second.size

/-- The keys that the other mapping lacks. -/
def Difference.kept (d : Difference) : List Text :=
  d.result.keys

/-- A line of equals signs. -/
def ruler : Text :=
  List.replicate 60 '='

/-- The report on the difference of two mapping files. -/
def Difference.report (d : Difference) (first second output : Text) (compareText : Bool) : Text :=
  let mode := if compareText then "Key + Value" else "Key Only"
  Text.unlines (
    [ruler, "JSON diff report".toList, ruler, [],
      "Main file:     ".toList ++ first,
      "Excluded file: ".toList ++ second,
      "Output file:   ".toList ++ output,
      "Compare mode:  ".toList ++ mode.toList,
      [],
      "Statistics:".toList,
      "  JSON1 total: ".toList ++ Text.ofNat d.firstTotal,
      "  JSON2 total: ".toList ++ Text.ofNat d.secondTotal,
      "  Removed:     ".toList ++ Text.ofNat d.removed.length,
      "  Kept:        ".toList ++ Text.ofNat d.kept.length,
      [],
      "Removed keys:".toList] ++
    d.removed.map ("  - ".toList ++ ·) ++ [[], ruler])

end Phrasebook.Mapping
