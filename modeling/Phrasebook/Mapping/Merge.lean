import Phrasebook.Mapping.Basic

/-!
# Merging mappings

Mappings are merged in order. A key that comes again with another text is a conflict; the first text
stays, unless later ones are to overwrite it.
-/

namespace Phrasebook.Mapping

/-- A key that came again with another text. -/
structure Clash where
  /-- The key. -/
  key : Text
  /-- The text it had. -/
  before : Text
  /-- The text it came with. -/
  after : Text
  /-- The mapping it came from. -/
  source : Text
  deriving Repr, DecidableEq

/-- What a merge has come to. -/
structure Merge where
  /-- The entries so far. -/
  merged : Mapping
  /-- The clashes so far. -/
  clashes : List Clash

/-- Adds one entry of the mapping `source`. -/
def Merge.add (overwrite : Bool) (source : Text) (m : Merge) (entry : Text × Text) : Merge :=
  match m.merged.get? entry.1 with
  | none => { m with merged := m.merged.insert entry.1 entry.2 }
  | some old =>
    if old = entry.2 then m
    else
      { merged := if overwrite then m.merged.insert entry.1 entry.2 else m.merged
        clashes := m.clashes ++ [⟨entry.1, old, entry.2, source⟩] }

/-- Merges named mappings in order. -/
def mergeAll (overwrite : Bool) (sources : List (Text × Mapping)) : Merge :=
  sources.foldl (fun m s => s.2.entries.foldl (Merge.add overwrite s.1) m) ⟨.empty, []⟩

end Phrasebook.Mapping
