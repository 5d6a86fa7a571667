import Mathlib.Tactic.Lemma
import Phrasebook.Mapping.Merge
import Phrasebook.Proofs.Registrations

/-!
# Two ways to merge, and two policies

Mappings are merged in a fold that names the source of each clash, or by registering them one after
another. With the names dropped, a merge that keeps the first texts is a registry, and adding an entry
to the one is registering it in the other (`Merge.registry_add`, `Merge.registry_addAll`).

Under both policies a key takes its place when it first comes (`Merge.keys_add`). Keeping gives a key
the text of the first mapping that has it (`Merge.get?_addAll_keep`), overwriting that of the last one
(`Merge.get?_addAll_overwrite`), so each policy is the other one on the mappings in reverse order.
-/

namespace Phrasebook

namespace Entries

variable {β : Type} {key : Text} {value : β} {es : Entries β}

lemma get?_cons (k : Text) (e : Text × β) (es : Entries β) :
    get? k (e :: es) = if k = e.1 then some e.2 else get? k es := by
  rw [get?, List.lookup_cons]
  by_cases first : k = e.1
  · rw [if_pos first, beq_iff_eq.2 first]
  · rw [if_neg first, beq_false_of_ne first]
    rfl

lemma get?_insert (k key : Text) (value : β) (es : Entries β) :
    get? k (insert key value es) = if k = key then some value else get? k es := by
  induction es with
  | nil => exact get?_cons k (key, value) []
  | cons e es ih =>
    by_cases here : e.1 = key
    · rw [insert, if_pos here, get?_cons, get?_cons, here]
      by_cases same : k = key
      · rw [if_pos same, if_pos same]
      · rw [if_neg same, if_neg same, if_neg same]
    · rw [insert, if_neg here, get?_cons, get?_cons, ih]
      by_cases first : k = e.1
      · have other : k ≠ key := fun same => here (first.symm.trans same)
        rw [if_pos first, if_pos first, if_neg other]
      · rw [if_neg first, if_neg first]

lemma keys_insert_of_mem (known : key ∈ keys es) (value : β) :
    keys (insert key value es) = keys es := by
  induction es with
  | nil => cases known
  | cons e es ih =>
    by_cases here : e.1 = key
    · rw [insert, if_pos here]
      rfl
    · have later : key ∈ keys es := (List.mem_cons.1 known).resolve_left (Ne.symm here)
      rw [insert, if_neg here]
      exact congrArg (e.1 :: ·) (ih later)

end Entries

namespace Mapping

/-- A clash without the name of the mapping it came from. -/
def Clash.conflict (c : Clash) : Conflict :=
  ⟨c.key, c.before, c.after⟩

namespace Merge

variable {overwrite : Bool} {source : Text} {m : Merge} {e : Text × Text}

/-- A merge as a registry. -/
def registry (m : Merge) : Registry :=
  ⟨m.merged, m.clashes.map Clash.conflict⟩

/-- Adds the entries of named mappings in order. -/
def addAll (overwrite : Bool) (m : Merge) (sources : List (Text × Mapping)) : Merge :=
  sources.foldl (fun m s => s.2.entries.foldl (add overwrite s.1) m) m

/-! ## Merging and registering -/

/-- Adding an entry without overwriting is registering it. -/
lemma registry_add (source : Text) (m : Merge) (e : Text × Text) :
    (add false source m e).registry = m.registry.register e.1 e.2 := by
  have same : m.registry.phrases = m.merged := rfl
  rw [add, Registry.register, same]
  cases m.merged.get? e.1 with
  | none => rfl
  | some old =>
    by_cases equal : old = e.2
    · simp only [if_pos equal]
    · simp only [if_neg equal, registry, List.map_append]
      rfl

lemma registry_foldl_add (source : Text) (m : Merge) (es : Entries Text) :
    (es.foldl (add false source) m).registry = m.registry.registerAll es := by
  induction es generalizing m with
  | nil => rfl
  | cons e es ih => rw [List.foldl_cons, ih, registry_add, Registry.registerAll, Registry.registerAll,
      List.foldl_cons]

lemma registry_addAll (m : Merge) (sources : List (Text × Mapping)) :
    (addAll false m sources).registry =
      sources.foldl (fun r s => r.merge s.2) m.registry := by
  induction sources generalizing m with
  | nil => rfl
  | cons s sources ih =>
    rw [List.foldl_cons, Registry.merge, ← registry_foldl_add s.1]
    exact ih _

/-! ## The order of the keys -/

/-- Under either policy the keys stay as they are, with a new one behind them. -/
lemma keys_add (overwrite : Bool) (source : Text) (m : Merge) (e : Text × Text) :
    (add overwrite source m e).merged.keys =
      if e.1 ∈ m.merged.keys then m.merged.keys else m.merged.keys ++ [e.1] := by
  rw [add]
  cases found : m.merged.get? e.1 with
  | none =>
    have fresh : e.1 ∉ m.merged.keys := Entries.get?_eq_none_iff.1 found
    rw [if_neg fresh]
    simp only [keys, insert, Entries.insert_of_notMem fresh, Entries.keys, List.map_append,
      List.map_singleton]
  | some old =>
    have known : e.1 ∈ m.merged.keys := by
      by_contra fresh
      rw [get?, Entries.get?_eq_none_iff.2 fresh] at found
      cases found
    have inPlace : (m.merged.insert e.1 e.2).keys = m.merged.keys :=
      Entries.keys_insert_of_mem known e.2
    rw [if_pos known]
    by_cases equal : old = e.2
    · simp only [if_pos equal]
    · simp only [if_neg equal]
      cases overwrite
      · rfl
      · exact inPlace

/-- Two merges with the same keys go on to the same keys, whatever their policies. -/
lemma keys_foldl_add {o o' : Bool} {m m' : Merge} (same : m.merged.keys = m'.merged.keys)
    (source : Text) (es : Entries Text) :
    (es.foldl (add o source) m).merged.keys = (es.foldl (add o' source) m').merged.keys := by
  induction es generalizing m m' with
  | nil => exact same
  | cons e es ih =>
    apply ih
    rw [keys_add, keys_add, same]

lemma keys_addAll {o o' : Bool} {m m' : Merge} (same : m.merged.keys = m'.merged.keys)
    (sources : List (Text × Mapping)) :
    (addAll o m sources).merged.keys = (addAll o' m' sources).merged.keys := by
  induction sources generalizing m m' with
  | nil => exact same
  | cons s sources ih =>
    apply ih
    exact keys_foldl_add same s.1 s.2.entries

/-! ## The text of a key -/

/-- Keeping: a key has the text it had, or else that of the entry. -/
lemma get?_add_keep (source : Text) (m : Merge) (e : Text × Text) (key : Text) :
    (add false source m e).merged.get? key =
      (m.merged.get? key).or (if key = e.1 then some e.2 else none) := by
  rw [add]
  cases found : m.merged.get? e.1 with
  | none =>
    show Entries.get? key (Entries.insert e.1 e.2 m.merged.entries) = _
    rw [Entries.get?_insert]
    by_cases same : key = e.1
    · rw [if_pos same, if_pos same, same, found]
      rfl
    · rw [if_neg same, if_neg same, Option.or_none]
      rfl
  | some old =>
    have kept : m.merged.get? key =
        (m.merged.get? key).or (if key = e.1 then some e.2 else none) := by
      by_cases same : key = e.1
      · rw [same, found]
        rfl
      · rw [if_neg same, Option.or_none]
    by_cases equal : old = e.2
    · simpa only [if_pos equal] using kept
    · simpa only [if_neg equal, Bool.false_eq_true, if_false] using kept

/-- Overwriting: a key has the text of the entry, or else the one it had. -/
lemma get?_add_overwrite (source : Text) (m : Merge) (e : Text × Text) (key : Text) :
    (add true source m e).merged.get? key = if key = e.1 then some e.2 else m.merged.get? key := by
  have inserted : (m.merged.insert e.1 e.2).get? key =
      if key = e.1 then some e.2 else m.merged.get? key :=
    Entries.get?_insert key e.1 e.2 m.merged.entries
  rw [add]
  cases found : m.merged.get? e.1 with
  | none => exact inserted
  | some old =>
    by_cases equal : old = e.2
    · -- the entry is there already
      simp only [if_pos equal]
      by_cases same : key = e.1
      · rw [if_pos same, same, found, equal]
      · rw [if_neg same]
    · simpa only [if_neg equal, if_true] using inserted

lemma get?_foldl_add_keep (source : Text) (m : Merge) (es : Entries Text) (key : Text) :
    (es.foldl (add false source) m).merged.get? key =
      (m.merged.get? key).or (Entries.get? key es) := by
  induction es generalizing m with
  | nil => exact (Option.or_none).symm
  | cons e es ih =>
    rw [List.foldl_cons, ih, get?_add_keep, Option.or_assoc, Entries.get?_cons]
    by_cases same : key = e.1
    · rw [if_pos same, if_pos same]
      rfl
    · rw [if_neg same, if_neg same]
      rfl

/-- The entries of one mapping do not overwrite each other. -/
lemma get?_foldl_add_overwrite (source : Text) (m : Merge) {es : Entries Text}
    (nodup : (Entries.keys es).Nodup) (key : Text) :
    (es.foldl (add true source) m).merged.get? key =
      (Entries.get? key es).or (m.merged.get? key) := by
  induction es generalizing m with
  | nil => rfl
  | cons e es ih =>
    obtain ⟨fresh, rest⟩ := List.nodup_cons.1 nodup
    rw [List.foldl_cons, ih _ rest, get?_add_overwrite, Entries.get?_cons]
    by_cases same : key = e.1
    · have later : Entries.get? key es = none := by
        rw [same]
        exact Entries.get?_eq_none_iff.2 fresh
      rw [if_pos same, if_pos same, later]
      rfl
    · rw [if_neg same, if_neg same]

/-- Keeping: after the texts that are there, the first mapping decides. -/
lemma get?_addAll_keep (m : Merge) (sources : List (Text × Mapping)) (key : Text) :
    (addAll false m sources).merged.get? key =
      (m.merged.get? key).or (sources.findSome? fun s => s.2.get? key) := by
  induction sources generalizing m with
  | nil => exact (Option.or_none).symm
  | cons s sources ih =>
    have first := get?_foldl_add_keep s.1 m s.2.entries key
    refine (ih _).trans ?_
    rw [first, Option.or_assoc, List.findSome?_cons]
    show (m.merged.get? key).or ((s.2.get? key).or _) = _
    cases s.2.get? key <;> rfl

/-- Overwriting: before the texts that are there, the last mapping decides. -/
lemma get?_addAll_overwrite (m : Merge) (sources : List (Text × Mapping)) (key : Text) :
    (addAll true m sources).merged.get? key =
      (sources.reverse.findSome? fun s => s.2.get? key).or (m.merged.get? key) := by
  induction sources generalizing m with
  | nil => rfl
  | cons s sources ih =>
    have first := get?_foldl_add_overwrite s.1 m s.2.nodup key
    refine (ih _).trans ?_
    rw [first, List.reverse_cons, List.findSome?_append, ← Option.or_assoc, List.findSome?_singleton]
    rfl

end Merge

/-- A merge that keeps the first texts has the entries and the conflicts, in order, of a registry that
the mappings are registered in one after another. A merge that overwrites has its keys in the same
order, and each key has the text that it has in a merge of the reversed mappings that keeps. -/
theorem merges_agree (sources : List (Text × Mapping)) :
    (mergeAll false sources).merged.entries =
        (sources.foldl (fun r s => r.merge s.2) Registry.empty).phrases.entries ∧
      (mergeAll false sources).clashes.map Clash.conflict =
        (sources.foldl (fun r s => r.merge s.2) Registry.empty).conflicts ∧
      (mergeAll true sources).merged.keys = (mergeAll false sources).merged.keys ∧
      ∀ key, (mergeAll true sources).merged.get? key =
        (mergeAll false sources.reverse).merged.get? key := by
  have registered : (mergeAll false sources).registry =
      sources.foldl (fun r s => r.merge s.2) Registry.empty :=
    Merge.registry_addAll ⟨.empty, []⟩ sources
  refine ⟨?_, ?_, ?_, ?_⟩
  · rw [← registered]
    rfl
  · rw [← registered]
    rfl
  · exact Merge.keys_addAll rfl sources
  · intro key
    have last := Merge.get?_addAll_overwrite ⟨.empty, []⟩ sources key
    have first := Merge.get?_addAll_keep ⟨.empty, []⟩ sources.reverse key
    exact last.trans ((Option.or_none).trans first.symm)

end Mapping

end Phrasebook
