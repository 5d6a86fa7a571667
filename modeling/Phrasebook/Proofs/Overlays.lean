import Mathlib.Tactic.Lemma
import Phrasebook.Config.Basic
import Phrasebook.Json.Reader
import Phrasebook.Proofs.Merges

/-!
# Values laid over others

Where every object names each of its members once (`Json.Distinct`), the members of an object laid
over another are told one by one (`get?_overlayMembers`), and they stand in the order of what is
below, the new ones behind it (`keys_overlayMembers`). So laying a value over itself changes nothing
(`overlay_self`), and neither does laying it a second time over the same one
(`overlay_overlay`, `overlayMembers_overlayMembers`). Every value that is read from a text is of this
kind (`distinct_of_read`), since a name that comes again takes the place of the first.
-/

namespace Phrasebook

namespace Entries

variable {β : Type}

/-- Entries are told by their keys, in order, and the value of each. -/
lemma eq_of_get? {es fs : Entries β} (nodup : (keys es).Nodup) (same : keys es = keys fs)
    (values : ∀ k, get? k es = get? k fs) : es = fs := by
  induction es generalizing fs with
  | nil => exact (List.map_eq_nil_iff.1 same.symm).symm
  | cons e es ih =>
    cases fs with
    | nil => cases same
    | cons f fs =>
      obtain ⟨fresh, rest⟩ := List.nodup_cons.1 nodup
      obtain ⟨head, tail⟩ := List.cons.inj same
      have first : e.2 = f.2 := by
        have value := values e.1
        rw [get?_cons, get?_cons, if_pos rfl, if_pos head] at value
        exact Option.some.inj value
      have later : ∀ k, get? k es = get? k fs := by
        intro k
        by_cases here : k = e.1
        · have lacks : k ∉ keys fs := by
            rw [here, keys, ← tail]
            exact fresh
          rw [get?_eq_none_iff.2 (here ▸ fresh), get?_eq_none_iff.2 lacks]
        · have value := values k
          rwa [get?_cons, get?_cons, if_neg here, if_neg (head ▸ here)] at value
      rw [ih rest tail later, Prod.ext head first]

lemma mem_insert {key : Text} {value : β} {es : Entries β} {e : Text × β}
    (mem : e ∈ insert key value es) : e.2 = value ∨ e ∈ es := by
  induction es with
  | nil =>
    rw [List.mem_singleton.1 mem]
    exact .inl rfl
  | cons d es ih =>
    rw [insert] at mem
    split at mem
    · rcases List.mem_cons.1 mem with rfl | later
      · exact .inl rfl
      · exact .inr (List.mem_cons_of_mem _ later)
    · rcases List.mem_cons.1 mem with rfl | later
      · exact .inr List.mem_cons_self
      · exact (ih later).imp_right (List.mem_cons_of_mem _)

/-- The values of the entries of a list of pairs come from the list. -/
lemma exists_of_mem_ofPairs {ps : List (Text × β)} {e : Text × β} (mem : e ∈ ofPairs ps) :
    ∃ p ∈ ps, e.2 = p.2 := by
  suffices run : ∀ es : Entries β, e ∈ ps.foldl (fun es p => insert p.1 p.2 es) es →
      (∃ p ∈ ps, e.2 = p.2) ∨ e ∈ es from
    (run [] mem).resolve_right List.not_mem_nil
  clear mem
  induction ps with
  | nil => exact fun _ mem => .inr mem
  | cons p ps ih =>
    intro es mem
    rcases ih _ mem with ⟨q, among, same⟩ | before
    · exact .inl ⟨q, List.mem_cons_of_mem _ among, same⟩
    · rcases mem_insert before with same | old
      · exact .inl ⟨p, List.mem_cons_self, same⟩
      · exact .inr old

end Entries

namespace Json

open Entries (keys get?_cons get?_insert insert_of_notMem keys_insert_of_mem get?_eq_none_iff)

/-- A value each of whose objects names its members once. -/
inductive Distinct : Json → Prop where
  | null : Distinct .null
  | bool (b : Bool) : Distinct (.bool b)
  | int (n : Int) : Distinct (.int n)
  | decimal (literal : Text) : Distinct (.decimal literal)
  | str (t : Text) : Distinct (.str t)
  | arr {vs : List Json} :
    (∀ v ∈ vs, Distinct v) →
    Distinct (.arr vs)
  | obj {ms : Entries Json} :
    (keys ms).Nodup →
    (∀ e ∈ ms, Distinct e.2) →
    Distinct (.obj ms)

section Overlay

variable {below ms : Entries Json}

/-- Each member of the upper object is laid over what the lower one has under its name, and what
only the lower one has stays. -/
lemma get?_overlayMembers (nodup : (keys ms).Nodup) (below : Entries Json) (k : Text) :
    Entries.get? k (overlayMembers below ms) =
      ((Entries.get? k ms).map (overlay (Entries.get? k below))).or (Entries.get? k below) := by
  induction ms generalizing below with
  | nil => rfl
  | cons e ms ih =>
    obtain ⟨fresh, rest⟩ := List.nodup_cons.1 nodup
    rw [overlayMembers, ih rest, get?_cons, get?_insert]
    by_cases here : k = e.1
    · have lacks : Entries.get? k ms = none := get?_eq_none_iff.2 (here ▸ fresh)
      rw [lacks, if_pos here, if_pos here, here]
      rfl
    · rw [if_neg here, if_neg here]

/-- The names keep the places they have below, and new ones come behind them. -/
lemma keys_overlayMembers (nodup : (keys ms).Nodup) (below : Entries Json) :
    keys (overlayMembers below ms) = keys below ++ (keys ms).filter (· ∉ keys below) := by
  induction ms generalizing below with
  | nil => exact (List.append_nil _).symm
  | cons e ms ih =>
    obtain ⟨fresh, rest⟩ := List.nodup_cons.1 nodup
    rw [overlayMembers, ih rest]
    by_cases known : e.1 ∈ keys below
    · rw [keys_insert_of_mem known]
      exact congrArg _ (List.filter_cons_of_neg (by simpa using known)).symm
    · have behind : keys (Entries.insert e.1 (overlay (Entries.get? e.1 below) e.2) below) =
          keys below ++ [e.1] := by
        rw [insert_of_notMem known, keys, List.map_append]
        rfl
      have others : (keys ms).filter (· ∉ keys below ++ [e.1]) =
          (keys ms).filter (· ∉ keys below) := by
        refine List.filter_congr fun k mem => ?_
        have other : k ≠ e.1 := fun same => fresh (same ▸ mem)
        simp [other]
      rw [behind, others, List.append_assoc]
      exact congrArg _ (List.filter_cons_of_pos (by simpa using known)).symm

lemma nodup_overlayMembers (lower : (keys below).Nodup) (upper : (keys ms).Nodup) :
    (keys (overlayMembers below ms)).Nodup := by
  rw [keys_overlayMembers upper]
  refine List.nodup_append.2 ⟨lower, upper.filter _, fun k known l new same => ?_⟩
  exact of_decide_eq_true (List.mem_filter.1 new).2 (same ▸ known)

/-- Members that come in the order of those below, and each of which already holds what is below it,
are not changed by laying them over. -/
lemma overlayMembers_eq_self {new : List Text} (nodup : (keys ms).Nodup)
    (order : keys ms = keys below ++ new)
    (settled : ∀ k v, Entries.get? k ms = some v → overlay (Entries.get? k below) v = v) :
    overlayMembers below ms = ms := by
  have apart : ∀ k ∈ new, k ∉ keys below := by
    intro k mem known
    rw [order] at nodup
    exact (List.nodup_append.1 nodup).2.2 k known k mem rfl
  have same : keys (overlayMembers below ms) = keys ms := by
    have old : (keys below).filter (· ∉ keys below) = [] :=
      List.filter_eq_nil_iff.2 fun k known => by simpa using known
    have kept : new.filter (· ∉ keys below) = new :=
      List.filter_eq_self.2 fun k mem => by simpa using apart k mem
    rw [keys_overlayMembers nodup, order, List.filter_append, old, kept, List.nil_append]
  refine Entries.eq_of_get? (same ▸ nodup) same fun k => ?_
  rw [get?_overlayMembers nodup]
  cases found : Entries.get? k ms with
  | some v => exact congrArg some (settled k v found)
  | none =>
    have lacks : k ∉ keys below := by
      intro known
      exact get?_eq_none_iff.1 found (order ▸ List.mem_append_left new known)
    exact get?_eq_none_iff.2 lacks

/-- A value laid over itself is itself. -/
lemma overlay_self {v : Json} (distinct : v.Distinct) : overlay (some v) v = v := by
  induction distinct with
  | @obj ms nodup _ ih =>
    refine congrArg obj (overlayMembers_eq_self nodup (List.append_nil _).symm fun k v found => ?_)
    rw [found]
    exact ih _ (Entries.mem_of_get? found)
  | _ => rfl

/-- Laying a value a second time over the same one changes nothing. -/
lemma overlay_overlay {v : Json} (distinct : v.Distinct) {base : Option Json}
    (ground : ∀ b, base = some b → b.Distinct) : overlay base (overlay base v) = overlay base v := by
  induction distinct generalizing base with
  | @obj ms nodup _ ih =>
    rcases base with _ | b
    · rfl
    cases b with
    | obj below =>
      cases ground _ rfl with
      | obj lower deeper =>
        refine congrArg obj (overlayMembers_eq_self (nodup_overlayMembers lower nodup)
          (keys_overlayMembers nodup below) fun k w held => ?_)
        rw [get?_overlayMembers nodup] at held
        cases found : Entries.get? k ms with
        | some u =>
          rw [found] at held
          obtain rfl := Option.some.inj held
          exact ih _ (Entries.mem_of_get? found)
            fun b under => deeper _ (Entries.mem_of_get? under)
        | none =>
          -- Only the lower object has this member, so it is laid over itself.
          rw [found] at held
          rw [show Entries.get? k below = some w from held]
          exact overlay_self (deeper _ (Entries.mem_of_get? held))
    | _ => rfl
  | _ => rfl

/-- Merging the members of an object twice into the same ones is merging them once. -/
lemma overlayMembers_overlayMembers (upper : (obj ms).Distinct) (lower : (obj below).Distinct) :
    overlayMembers below (overlayMembers below ms) = overlayMembers below ms := by
  have twice : overlay (some (obj below)) (overlay (some (obj below)) (obj ms)) =
      overlay (some (obj below)) (obj ms) :=
    overlay_overlay upper fun _ same => Option.some.inj same ▸ lower
  exact obj.inj twice

end Overlay

section Reading

variable {fuel : Nat} {t rest : Text}

lemma distinct_of_scalar {v : Json} (taken : scalar t = .ok (v, rest)) : v.Distinct := by
  unfold scalar at taken
  split at taken
  · rename_i word w found
    cases taken
    have among := List.mem_of_find?_eq_some found
    simp only [constants, List.mem_cons, List.not_mem_nil, or_false, Prod.mk.injEq] at among
    rcases among with ⟨-, rfl⟩ | ⟨-, rfl⟩ | ⟨-, rfl⟩ | ⟨-, rfl⟩ | ⟨-, rfl⟩ | ⟨-, rfl⟩ <;> constructor
  · unfold number at taken
    extract_lets sign at taken
    clear_value sign
    split at taken
    split at taken
    · cases taken
    · split at taken
      split at taken
      split at taken
      · split at taken
        · cases taken
        · cases taken
          exact .int _
      · cases taken
        exact .decimal _

lemma distinct_ofPairs {ps : List (Text × Json)} (distinct : ∀ p ∈ ps, p.2.Distinct) :
    (obj (Entries.ofPairs ps)).Distinct := by
  refine .obj (Entries.nodup_keys_ofPairs ps) fun e mem => ?_
  obtain ⟨p, among, same⟩ := Entries.exists_of_mem_ofPairs mem
  rw [same]
  exact distinct p among

/-- A value is distinct where what is read inside of it is. -/
lemma distinct_of_value
    (ofMembers : ∀ t ms rest, members fuel t = .ok (ms, rest) → ∀ e ∈ ms, e.2.Distinct)
    (ofElements : ∀ t vs rest, elements fuel t = .ok (vs, rest) → ∀ v ∈ vs, v.Distinct) {v : Json}
    (taken : value (fuel + 1) t = .ok (v, rest)) : v.Distinct := by
  unfold value at taken
  split at taken
  · split at taken
    · cases taken
      exact .str _
    · cases taken
  · split at taken
    · cases taken
      exact .obj List.nodup_nil (List.forall_mem_nil _)
    · split at taken
      · rename_i inside
        cases taken
        exact distinct_ofPairs (ofMembers _ _ _ inside)
      · cases taken
  · split at taken
    · cases taken
      exact .arr (List.forall_mem_nil _)
    · split at taken
      · rename_i inside
        cases taken
        exact .arr (ofElements _ _ _ inside)
      · cases taken
  · exact distinct_of_scalar taken

lemma distinct_of_members (ofValue : ∀ t v rest, value fuel t = .ok (v, rest) → v.Distinct)
    (ofMembers : ∀ t ms rest, members fuel t = .ok (ms, rest) → ∀ e ∈ ms, e.2.Distinct)
    {ms : List (Text × Json)} (taken : members (fuel + 1) t = .ok (ms, rest)) :
    ∀ e ∈ ms, e.2.Distinct := by
  unfold members at taken
  split at taken
  · split at taken
    · cases taken
    · split at taken
      · split at taken
        · cases taken
        · rename_i first
          have here := ofValue _ _ _ first
          split at taken
          · cases taken
            exact List.forall_mem_singleton.2 here
          · split at taken
            · rename_i more
              cases taken
              exact List.forall_mem_cons.2 ⟨here, ofMembers _ _ _ more⟩
            · cases taken
          · cases taken
      · cases taken
  · cases taken

lemma distinct_of_elements (ofValue : ∀ t v rest, value fuel t = .ok (v, rest) → v.Distinct)
    (ofElements : ∀ t vs rest, elements fuel t = .ok (vs, rest) → ∀ v ∈ vs, v.Distinct)
    {vs : List Json} (taken : elements (fuel + 1) t = .ok (vs, rest)) : ∀ v ∈ vs, v.Distinct := by
  unfold elements at taken
  split at taken
  · cases taken
  · rename_i first
    have here := ofValue _ _ _ first
    split at taken
    · cases taken
      exact List.forall_mem_singleton.2 here
    · split at taken
      · rename_i more
        cases taken
        exact List.forall_mem_cons.2 ⟨here, ofElements _ _ _ more⟩
      · cases taken
    · cases taken

/-- With any fuel, what the three readers take is distinct. -/
lemma distinct_of_fuel (fuel : Nat) :
    (∀ t v rest, value fuel t = .ok (v, rest) → v.Distinct) ∧
      (∀ t ms rest, members fuel t = .ok (ms, rest) → ∀ e ∈ ms, e.2.Distinct) ∧
      ∀ t vs rest, elements fuel t = .ok (vs, rest) → ∀ v ∈ vs, v.Distinct := by
  induction fuel with
  | zero =>
    refine ⟨?_, ?_, ?_⟩ <;>
    · intro _ _ _ taken
      cases taken
  | succ fuel ih =>
    obtain ⟨ofValue, ofMembers, ofElements⟩ := ih
    exact ⟨fun _ _ _ => distinct_of_value ofMembers ofElements,
      fun _ _ _ => distinct_of_members ofValue ofMembers,
      fun _ _ _ => distinct_of_elements ofValue ofElements⟩

/-- What is read from a text names each member of an object once. -/
lemma distinct_of_read {v : Json} (taken : read t = .ok v) : v.Distinct := by
  unfold read at taken
  split at taken
  · cases taken
  · split at taken
    · cases taken
    · rename_i found
      split at taken
      · cases taken
        exact (distinct_of_fuel _).1 _ _ _ found
      · cases taken

end Reading

end Json

end Phrasebook
