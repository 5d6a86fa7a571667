import Mathlib.Data.List.Perm.Basic
import Phrasebook.Mapping.Difference
import Phrasebook.Proofs.Merges

/-!
# A difference is what has to be added

The difference of two mappings sorts the entries of the first one by whether the second has them.
Merged onto the second, the entries that it lacks do what the whole first mapping does, because adding
an entry that a mapping has leaves the mapping as it is (`Merge.merged_add_of_has`). The one exception
is a difference by keys under a merge that overwrites: it leaves out the entries that would have
changed a text.
-/

namespace Phrasebook.Mapping

variable {first second : Mapping} {overwrite compareText : Bool} {key : Text} {e : Text × Text}

/-! ## Entries that a mapping has -/

lemma has_iff {m : Mapping} : m.has compareText e = true ↔
    ∃ text, m.get? e.1 = some text ∧ (compareText = true → text = e.2) := by
  rw [has]
  cases m.get? e.1 with
  | none => simp
  | some text => cases compareText <;> simp

/-- The keys of the entries that pass a test. -/
lemma mem_keys_filter {m : Mapping} {p : Text × Text → Bool} :
    key ∈ (m.filter p).keys ↔ ∃ text, m.get? key = some text ∧ p (key, text) = true := by
  constructor
  · intro mem
    obtain ⟨⟨k, text⟩, passes, rfl⟩ := List.mem_map.1 mem
    obtain ⟨known, test⟩ := List.mem_filter.1 passes
    exact ⟨text, Entries.get?_of_mem m.nodup known, test⟩
  · rintro ⟨text, found, test⟩
    exact List.mem_map_of_mem (f := Prod.fst)
      (List.mem_filter.2 ⟨Entries.mem_of_get? found, test⟩)

lemma mem_keys_filter_of_mem {m : Mapping} {p : Text × Text → Bool} (mem : e ∈ m.entries) :
    e.1 ∈ (m.filter p).keys ↔ p e = true := by
  have found : m.get? e.1 = some e.2 := Entries.get?_of_mem m.nodup mem
  rw [mem_keys_filter, found]
  constructor
  · rintro ⟨text, same, test⟩
    cases same
    exact test
  · intro test
    exact ⟨e.2, rfl, test⟩

/-- A mapping is told by its keys among its own entries. -/
lemma entries_filter_eq (m : Mapping) (p : Text × Text → Bool) :
    (m.filter p).entries = m.entries.filter fun e => e.1 ∈ (m.filter p).keys := by
  apply List.filter_congr
  intro e mem
  rw [Bool.eq_iff_iff, decide_eq_true_iff, mem_keys_filter_of_mem mem]

/-! ## Adding what is there already -/

namespace Merge

variable {source : Text} {m m' : Merge} {es : Entries Text}

/-- What comes of the entries does not depend on the clashes, nor on the names of the mappings. -/
lemma merged_add_congr (same : m.merged = m'.merged) (overwrite : Bool) (source source' : Text)
    (e : Text × Text) :
    (add overwrite source m e).merged = (add overwrite source' m' e).merged := by
  rw [add, add, same]
  cases m'.merged.get? e.1 with
  | none => rfl
  | some old =>
    by_cases equal : old = e.2
    · simpa only [if_pos equal] using same
    · simp only [if_neg equal]

lemma get?_add_of_ne (other : key ≠ e.1) (overwrite : Bool) (source : Text) (m : Merge) :
    (add overwrite source m e).merged.get? key = m.merged.get? key := by
  cases overwrite with
  | false => rw [get?_add_keep, if_neg other, Option.or_none]
  | true => rw [get?_add_overwrite, if_neg other]

/-- A merge that overwrites has to compare the texts, one that keeps need not. -/
lemma merged_add_of_has (has : second.has compareText e = true)
    (known : m.merged.get? e.1 = second.get? e.1) (fits : overwrite = true → compareText = true) :
    (add overwrite source m e).merged = m.merged := by
  obtain ⟨text, found, agrees⟩ := has_iff.1 has
  rw [add, known, found]
  by_cases equal : text = e.2
  · simp only [if_pos equal]
  · cases overwrite with
    | false => simp only [if_neg equal, Bool.false_eq_true, if_false]
    | true => exact absurd (agrees (fits rfl)) equal

/-- Along the entries of a mapping, those that `second` has can be left out, as long as the keys that
are still to come have the texts of `second`. -/
lemma merged_foldl_lacking (fits : overwrite = true → compareText = true)
    (nodup : (Entries.keys es).Nodup) (same : m.merged = m'.merged)
    (known : ∀ e ∈ es, m.merged.get? e.1 = second.get? e.1) (source source' : Text) :
    ((es.filter fun e => !second.has compareText e).foldl (add overwrite source) m).merged =
      (es.foldl (add overwrite source') m').merged := by
  induction es generalizing m m' with
  | nil => exact same
  | cons e es ih =>
    obtain ⟨fresh, rest⟩ := List.nodup_cons.1 nodup
    have now := known e List.mem_cons_self
    have later : ∀ d ∈ es, m.merged.get? d.1 = second.get? d.1 :=
      fun d mem => known d (List.mem_cons_of_mem e mem)
    rw [List.foldl_cons]
    cases has : second.has compareText e with
    | true =>
      rw [List.filter_cons_of_neg (by rw [has]; decide)]
      refine ih rest ?_ later
      rw [merged_add_of_has has (same ▸ now) fits, same]
    | false =>
      rw [List.filter_cons_of_pos (by rw [has]; rfl), List.foldl_cons]
      refine ih rest (merged_add_congr same overwrite source source' e) fun d mem => ?_
      have other : d.1 ≠ e.1 := fun equal => fresh (equal ▸ List.mem_map_of_mem mem)
      rw [get?_add_of_ne other, later d mem]

/-- A mapping that is merged alone is taken over as it is. -/
lemma get?_foldl_add_empty (overwrite : Bool) (source : Text) (second : Mapping) (key : Text) :
    (second.entries.foldl (add overwrite source) ⟨.empty, []⟩).merged.get? key =
      second.get? key := by
  cases overwrite with
  | false => exact get?_foldl_add_keep source ⟨.empty, []⟩ second.entries key
  | true =>
    rw [get?_foldl_add_overwrite source ⟨.empty, []⟩ second.nodup]
    exact Option.or_none

end Merge

/-- Merging two mappings is adding the entries of the second one to the first one. -/
lemma merged_mergeAll_pair (overwrite : Bool) (s t : Text) (second first : Mapping) :
    (mergeAll overwrite [(s, second), (t, first)]).merged =
      (first.entries.foldl (Merge.add overwrite t)
        (second.entries.foldl (Merge.add overwrite s) ⟨.empty, []⟩)).merged :=
  rfl

lemma merged_mergeAll_lacking (fits : overwrite = true → compareText = true) (r s t : Text)
    (first second : Mapping) :
    (mergeAll overwrite [(s, second), (r, (first.difference second compareText).result)]).merged =
      (mergeAll overwrite [(s, second), (t, first)]).merged := by
  rw [merged_mergeAll_pair, merged_mergeAll_pair]
  exact Merge.merged_foldl_lacking fits first.nodup rfl
    (fun e _ => Merge.get?_foldl_add_empty overwrite s second e.1) r t

lemma get?_mergeAll_overwrite (s t : Text) (second first : Mapping) (key : Text) :
    (mergeAll true [(s, second), (t, first)]).merged.get? key =
      (first.get? key).or (second.get? key) := by
  rw [merged_mergeAll_pair, Merge.get?_foldl_add_overwrite _ _ first.nodup,
    Merge.get?_foldl_add_empty]
  rfl

/-- Whether two mappings give no key different texts. -/
def Agree (first second : Mapping) : Prop :=
  ∀ key text known, first.get? key = some text → second.get? key = some known → text = known

/-- Where two mappings agree, comparing the texts makes no difference. -/
lemma difference_of_agree (agree : Agree first second) :
    (first.difference second false).result = (first.difference second true).result := by
  apply Mapping.ext
  apply List.filter_congr
  intro e mem
  have found : first.get? e.1 = some e.2 := Entries.get?_of_mem first.nodup mem
  rw [Bool.not_inj_iff, Bool.eq_iff_iff, has_iff, has_iff]
  constructor
  · rintro ⟨known, other, -⟩
    exact ⟨known, other, fun _ => (agree e.1 e.2 known found other).symm⟩
  · rintro ⟨known, other, -⟩
    exact ⟨known, other, fun compared => absurd compared Bool.false_ne_true⟩

/-- A merge that overwrites takes a difference by keys for the whole mapping exactly if no text
would have changed. -/
lemma mergeAll_overwrite_byKeys_iff (r s t : Text) (first second : Mapping) :
    (mergeAll true [(s, second), (r, (first.difference second false).result)]).merged =
      (mergeAll true [(s, second), (t, first)]).merged ↔ Agree first second := by
  constructor
  · intro same key text known found other
    have lacking : (first.difference second false).result.get? key = none := by
      refine Entries.get?_eq_none_iff.2 fun mem => ?_
      obtain ⟨lost, -, fails⟩ := mem_keys_filter.1 mem
      have has : second.has false (key, lost) = true :=
        has_iff.2 ⟨known, other, fun compared => absurd compared Bool.false_ne_true⟩
      rw [has] at fails
      cases fails
    have looked := congrArg (fun m : Mapping => m.get? key) same
    simp only [get?_mergeAll_overwrite, lacking, found, other, Option.none_or, Option.some_or,
      Option.some.injEq] at looked
    exact looked.symm
  · intro agree
    rw [difference_of_agree agree]
    exact merged_mergeAll_lacking (fun _ => rfl) r s t first second

/-- The difference of two mappings splits the keys of the first one, in order and without loss or
repetition, into those that the second one has and the others, and its result is the first mapping
restricted to the others. Merged onto the second mapping, the result has the same entries in the same
order as the first mapping: after a comparison of keys if first texts are kept, after a comparison of
keys and texts under both policies. After a comparison of keys, a merge that overwrites comes to the
same exactly if no key has different texts. -/
theorem difference_merges_back (first second : Mapping) (r s t : Text) :
    (∀ compareText,
      let d := first.difference second compareText
      d.removed.Sublist first.keys ∧ d.kept.Sublist first.keys ∧
        (d.removed ++ d.kept).Perm first.keys ∧ (d.removed ++ d.kept).Nodup ∧
        d.result.entries = first.entries.filter (fun e => e.1 ∈ d.kept) ∧
        ∀ key, key ∈ d.removed ↔ ∃ text known, first.get? key = some text ∧
          second.get? key = some known ∧ (compareText = true → known = text)) ∧
      (mergeAll false [(s, second), (r, (first.difference second false).result)]).merged.entries =
        (mergeAll false [(s, second), (t, first)]).merged.entries ∧
      (∀ overwrite,
        (mergeAll overwrite [(s, second), (r, (first.difference second true).result)]).merged.entries =
          (mergeAll overwrite [(s, second), (t, first)]).merged.entries) ∧
      ((mergeAll true [(s, second), (r, (first.difference second false).result)]).merged.entries =
          (mergeAll true [(s, second), (t, first)]).merged.entries ↔ Agree first second) := by
  refine ⟨fun compareText => ?_, ?_, fun overwrite => ?_, ?_⟩
  · have split : ((first.entries.filter (second.has compareText)).map Prod.fst ++
        (first.entries.filter fun e => !second.has compareText e).map Prod.fst).Perm first.keys := by
      rw [← List.map_append]
      exact (List.filter_append_perm (second.has compareText) first.entries).map Prod.fst
    refine ⟨List.filter_sublist.map Prod.fst, List.filter_sublist.map Prod.fst, split,
      split.nodup_iff.2 first.nodup, entries_filter_eq first _, fun key => ?_⟩
    refine (mem_keys_filter (m := first) (p := second.has compareText)).trans ?_
    simp only [has_iff, exists_and_left]
  · exact congrArg entries
      (merged_mergeAll_lacking (fun keeps => absurd keeps Bool.false_ne_true) r s t first second)
  · exact congrArg entries (merged_mergeAll_lacking (fun _ => rfl) r s t first second)
  · rw [← mergeAll_overwrite_byKeys_iff r s t]
    exact ⟨Mapping.ext, congrArg entries⟩

end Phrasebook.Mapping
