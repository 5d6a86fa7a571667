import Phrasebook.Entries

/-!
# Mappings from keys to texts

A mapping gives each key one text and keeps the order in which the keys came.
-/

namespace Phrasebook

/-- An ordered mapping from keys to texts. -/
structure Mapping where
  /-- The entries, in order. -/
  entries : Entries Text
  /-- No key comes twice. -/
  nodup : (Entries.keys entries).Nodup

namespace Mapping

/-- The mapping without entries. -/
def empty : Mapping :=
  ⟨[], List.nodup_nil⟩

instance : Inhabited Mapping := ⟨empty⟩

/-- The mapping of a list of pairs: each key at its first place, with its last text. -/
def ofPairs (ps : List (Text × Text)) : Mapping :=
  ⟨Entries.ofPairs ps, Entries.nodup_keys_ofPairs ps⟩

/-- The keys, in order. -/
def keys (m : Mapping) : List Text :=
  Entries.keys m.entries

/-- The number of entries. -/
def size (m : Mapping) : Nat :=
  m.entries.length

/-- The text of a key. -/
def get? (m : Mapping) (key : Text) : Option Text :=
  Entries.get? key m.entries

/-- Whether a key has a text. -/
def contains (m : Mapping) (key : Text) : Bool :=
  (m.get? key).isSome

/-- Gives a key a text: in place if the key is present, at the end otherwise. -/
def insert (m : Mapping) (key text : Text) : Mapping :=
  ⟨Entries.insert key text m.entries, Entries.nodup_keys_insert m.nodup⟩

/-- The entries that pass a test. -/
def filter (m : Mapping) (p : Text × Text → Bool) : Mapping :=
  ⟨m.entries.filter p, m.nodup.sublist (List.filter_sublist.map Prod.fst)⟩

/-- The entries in ascending order of their keys. -/
def sorted (m : Mapping) : Mapping :=
  ⟨m.entries.mergeSort fun a b => Text.le a.1 b.1,
    ((List.mergeSort_perm m.entries _).map Prod.fst).nodup_iff.2 m.nodup⟩

end Mapping

end Phrasebook
