import Phrasebook.Mapping.Basic

/-!
# The registry of phrases

A run collects the phrases it replaces in a registry. The first text registered for a key stays; a
later one that differs is refused and noted as a conflict.
-/

namespace Phrasebook

/-- A refused registration. -/
structure Conflict where
  /-- The key registered twice. -/
  key : Text
  /-- The text that stays. -/
  kept : Text
  /-- The text that was refused. -/
  refused : Text
  deriving Repr, DecidableEq

/-- The phrases collected so far, and the registrations that were refused. -/
structure Registry where
  /-- The text of each key, in the order of first registration. -/
  phrases : Mapping
  /-- The refused registrations, in order. -/
  conflicts : List Conflict

namespace Registry

/-- The registry at the start of a run. -/
def empty : Registry :=
  ⟨.empty, []⟩

instance : Inhabited Registry := ⟨empty⟩

/-- The number of keys. -/
def size (r : Registry) : Nat :=
  r.phrases.size

/-- Whether a key has been registered. -/
def contains (r : Registry) (key : Text) : Bool :=
  r.phrases.contains key

/-- Registers a key: adds it when it is new, and notes a conflict when it has another text. -/
def register (r : Registry) (key text : Text) : Registry :=
  match r.phrases.get? key with
  | none => { r with phrases := r.phrases.insert key text }
  | some kept =>
    if kept = text then r else { r with conflicts := r.conflicts ++ [⟨key, kept, text⟩] }

/-- Registers a key and tells whether it was new. -/
def enter (r : Registry) (key text : Text) : Registry × Bool :=
  (r.register key text, !r.contains key)

/-- Registers pairs one by one. -/
def registerAll (r : Registry) (ps : List (Text × Text)) : Registry :=
  ps.foldl (fun r p => r.register p.1 p.2) r

/-- Registers pairs one by one and tells how many keys were new. -/
def enterAll (r : Registry) : List (Text × Text) → Registry × Nat
  | [] => (r, 0)
  | p :: ps =>
    let (next, new) := r.enter p.1 p.2
    let (last, count) := next.enterAll ps
    (last, new.toNat + count)

/-- Registers every entry of a mapping. -/
def merge (r : Registry) (m : Mapping) : Registry :=
  r.registerAll m.entries

/-- The registry that starts with the entries of a mapping. -/
def ofMapping (m : Mapping) : Registry :=
  empty.merge m

/-- A short description. -/
def describe (r : Registry) : Text :=
  "KeyRegistry(".toList ++ Text.ofNat r.size ++ " keys)".toList

end Registry

end Phrasebook
