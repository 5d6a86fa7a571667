import Phrasebook.Text.Basic

/-!
# Ordered entries

A list of keys with values that keeps the order in which keys first came. Inserting an entry whose
key is present changes the value in place.
-/

namespace Phrasebook

/-- Keys with values, in order. -/
abbrev Entries (β : Type) := List (Text × β)

namespace Entries

variable {β : Type}

/-- The keys, in order. -/
def keys (es : Entries β) : List Text :=
  es.map Prod.fst

/-- The value of a key. -/
def get? (key : Text) (es : Entries β) : Option β :=
  es.lookup key

/-- Gives `key` the value `value`: in place if the key is present, at the end otherwise. -/
def insert (key : Text) (value : β) : Entries β → Entries β
  | [] => [(key, value)]
  | (k, v) :: es => if k = key then (k, value) :: es else (k, v) :: insert key value es

/-- The entries of a list of pairs: each key at its first place, with its last value. -/
def ofPairs (ps : List (Text × β)) : Entries β :=
  ps.foldl (fun es p => insert p.1 p.2 es) []

theorem mem_keys_insert {key k : Text} {value : β} {es : Entries β} :
    k ∈ keys (insert key value es) ↔ k = key ∨ k ∈ keys es := by
  induction es with
  | nil => simp [insert, keys]
  | cons e es ih =>
    by_cases h : e.1 = key
    · simp only [insert, h, if_true, keys, List.map_cons, List.mem_cons]
      exact ⟨fun h' => h'.elim .inl (.inr ∘ .inr), fun h' => h'.elim .inl id⟩
    · simp only [insert, h, if_false, keys, List.map_cons, List.mem_cons] at ih ⊢
      rw [ih]
      exact or_left_comm

theorem nodup_keys_insert {key : Text} {value : β} {es : Entries β} (h : (keys es).Nodup) :
    (keys (insert key value es)).Nodup := by
  induction es with
  | nil => simp [insert, keys]
  | cons e es ih =>
    obtain ⟨fresh, rest⟩ := List.nodup_cons.1 h
    by_cases hk : e.1 = key
    · simpa [insert, hk, keys] using h
    · have tail : (keys (insert key value es)).Nodup := ih rest
      have head : e.1 ∉ keys (insert key value es) := by
        rw [mem_keys_insert]
        exact fun h' => h'.elim hk fresh
      simpa [insert, hk, keys] using List.nodup_cons.2 ⟨head, tail⟩

theorem nodup_keys_foldl_insert (ps : List (Text × β)) {es : Entries β} (h : (keys es).Nodup) :
    (keys (ps.foldl (fun es p => insert p.1 p.2 es) es)).Nodup := by
  induction ps generalizing es with
  | nil => exact h
  | cons p ps ih => exact ih (nodup_keys_insert h)

/-- No key of `ofPairs` comes twice. -/
theorem nodup_keys_ofPairs (ps : List (Text × β)) : (keys (ofPairs ps)).Nodup :=
  nodup_keys_foldl_insert ps List.nodup_nil

end Entries

end Phrasebook
