import Mathlib.Tactic.Lemma
import Phrasebook.Proofs.Steps

/-!
# What a run registers

A key that has been registered stays registered, whatever is registered after it
(`contains_register`), and so it does over any run (`contains_run`). A run registers each key with
itself as its text, so it never notes a conflict (`selfKeyed_run`), and the entries of such a registry
are told by its keys (`SelfKeyed.mem_entries`).
-/

namespace Phrasebook

lemma Mapping.contains_iff {m : Mapping} {key : Text} : m.contains key = true ↔ key ∈ m.keys := by
  simp [contains, get?, keys, Entries.get?, Entries.keys]

namespace Entries

variable {β : Type}

lemma insert_of_notMem {key : Text} {value : β} {es : Entries β} (fresh : key ∉ keys es) :
    insert key value es = es ++ [(key, value)] := by
  induction es with
  | nil => rfl
  | cons e es ih =>
    simp only [keys, List.map_cons, List.mem_cons, not_or] at fresh
    rw [insert, if_neg (Ne.symm fresh.1), ih fresh.2, List.cons_append]

lemma get?_eq_none_iff {key : Text} {es : Entries β} : get? key es = none ↔ key ∉ keys es := by
  simp only [get?, List.lookup_eq_none_iff, keys, List.mem_map, not_exists, not_and, bne_iff_ne]
  exact ⟨fun apart e mem same => apart e mem same.symm, fun apart e mem same => apart e mem same.symm⟩

lemma mem_of_get? {key : Text} {value : β} {es : Entries β} (found : get? key es = some value) :
    (key, value) ∈ es := by
  induction es with
  | nil => cases found
  | cons e es ih =>
    rw [get?, List.lookup_cons] at found
    split at found
    · rename_i same
      cases found
      rw [beq_iff_eq.1 same]
      exact List.mem_cons_self
    · exact List.mem_cons_of_mem _ (ih found)

lemma get?_of_mem {e : Text × β} {es : Entries β} (nodup : (keys es).Nodup) (mem : e ∈ es) :
    get? e.1 es = some e.2 := by
  induction es with
  | nil => cases mem
  | cons d es ih =>
    obtain ⟨fresh, rest⟩ := List.nodup_cons.1 nodup
    rw [get?, List.lookup_cons]
    rcases List.mem_cons.1 mem with rfl | later
    · rw [beq_self_eq_true]
    · have other : e.1 ≠ d.1 := by
        intro same
        apply fresh
        rw [← same]
        exact List.mem_map_of_mem later
      rw [beq_false_of_ne other]
      exact ih rest later

end Entries

lemma Mapping.ext {m m' : Mapping} (same : m.entries = m'.entries) : m = m' := by
  cases m
  cases m'
  cases same
  rfl

namespace Registry

/-- Registering a new key adds it behind the others. -/
lemma register_of_notMem {r : Registry} {key : Text} (fresh : key ∉ r.phrases.keys) (text : Text) :
    (r.register key text).phrases.entries = r.phrases.entries ++ [(key, text)] ∧
      (r.register key text).conflicts = r.conflicts := by
  have absent : r.phrases.get? key = none := Entries.get?_eq_none_iff.2 fresh
  rw [register, absent]
  exact ⟨Entries.insert_of_notMem fresh, rfl⟩

/-- Registering a known key keeps its text, and notes a conflict if the text is another one. -/
lemma register_of_get? {r : Registry} {key kept : Text} (found : r.phrases.get? key = some kept)
    (text : Text) :
    (r.register key text).phrases = r.phrases ∧
      (r.register key text).conflicts = r.conflicts ++
        (if kept = text then none else some ⟨key, kept, text⟩ : Option Conflict).toList := by
  rw [register, found]
  dsimp only
  split
  · exact ⟨rfl, (List.append_nil _).symm⟩
  · exact ⟨rfl, rfl⟩

lemma registerAll_of_disjoint {r : Registry} {ps : Entries Text} (nodup : (Entries.keys ps).Nodup)
    (fresh : ∀ key ∈ Entries.keys ps, key ∉ r.phrases.keys) :
    (r.registerAll ps).phrases.entries = r.phrases.entries ++ ps := by
  induction ps generalizing r with
  | nil => exact (List.append_nil _).symm
  | cons e ps ih =>
    obtain ⟨apart, rest⟩ := List.nodup_cons.1 nodup
    obtain ⟨added, -⟩ := register_of_notMem (fresh e.1 List.mem_cons_self) e.2
    have later : ∀ key ∈ Entries.keys ps, key ∉ (r.register e.1 e.2).phrases.keys := by
      intro key mem known
      rw [Mapping.keys, added, Entries.keys, List.map_append, List.mem_append] at known
      rcases known with old | new
      · exact fresh key (List.mem_cons_of_mem _ mem) old
      · rw [List.mem_singleton.1 new] at mem
        exact apart mem
    rw [registerAll, List.foldl_cons, ← registerAll, ih rest later, added, List.append_assoc]
    rfl

/-- An empty registry takes a mapping over as it is. -/
lemma phrases_merge_empty (m : Mapping) : (empty.merge m).phrases = m :=
  Mapping.ext (registerAll_of_disjoint m.nodup fun _ _ => List.not_mem_nil)

lemma mem_keys_register {r : Registry} {k key text : Text} :
    k ∈ (r.register key text).phrases.keys ↔ k = key ∨ k ∈ r.phrases.keys := by
  unfold register
  split
  · exact Entries.mem_keys_insert
  · rename_i kept found
    have known : key ∈ r.phrases.keys := List.mem_map_of_mem (Entries.mem_of_get? found)
    have same : k ∈ r.phrases.keys ↔ k = key ∨ k ∈ r.phrases.keys :=
      ⟨.inr, fun either => either.elim (fun same => same ▸ known) id⟩
    split <;> exact same

lemma mem_keys_registerAll {r : Registry} {k : Text} {ps : Entries Text} :
    k ∈ (r.registerAll ps).phrases.keys ↔ k ∈ r.phrases.keys ∨ k ∈ Entries.keys ps := by
  induction ps generalizing r with
  | nil => simp [registerAll, Entries.keys]
  | cons e ps ih =>
    rw [registerAll, List.foldl_cons, ← registerAll, ih, mem_keys_register]
    simp only [Entries.keys, List.map_cons, List.mem_cons]
    exact ⟨fun h => h.elim (fun h => h.elim (.inr ∘ .inl) .inl) (.inr ∘ .inr),
      fun h => h.elim (.inl ∘ .inr) (fun h => h.elim (.inl ∘ .inl) .inr)⟩

/-- A registry in which each key is its own text, without conflicts. -/
structure SelfKeyed (r : Registry) : Prop where
  same : ∀ e ∈ r.phrases.entries, e.1 = e.2
  clean : r.conflicts = []

lemma selfKeyed_empty : SelfKeyed empty :=
  ⟨fun _ mem => (List.not_mem_nil mem).elim, rfl⟩

lemma SelfKeyed.register {r : Registry} (self : r.SelfKeyed) (key : Text) :
    (r.register key key).SelfKeyed := by
  by_cases known : key ∈ r.phrases.keys
  · -- the text that the key has is the key itself
    cases found : r.phrases.get? key with
    | none => exact absurd known (Entries.get?_eq_none_iff.1 found)
    | some kept =>
      obtain rfl : key = kept := self.same _ (Entries.mem_of_get? found)
      rw [Registry.register, found]
      simpa using self
  · obtain ⟨added, clean⟩ := register_of_notMem known key
    refine ⟨fun e mem => ?_, clean.trans self.clean⟩
    rw [added, List.mem_append] at mem
    rcases mem with old | new
    · exact self.same e old
    · rw [List.mem_singleton.1 new]

lemma SelfKeyed.merge {r r' : Registry} (self : r.SelfKeyed) (self' : r'.SelfKeyed) :
    (r.merge r'.phrases).SelfKeyed := by
  have all : ∀ ps : Entries Text, (∀ e ∈ ps, e.1 = e.2) → ∀ {r : Registry}, r.SelfKeyed →
      (r.registerAll ps).SelfKeyed := by
    intro ps
    induction ps with
    | nil => exact fun _ _ self => self
    | cons e ps ih =>
      intro same r self
      have key := same e List.mem_cons_self
      rw [registerAll, List.foldl_cons, ← registerAll, ← key]
      exact ih (fun d mem => same d (List.mem_cons_of_mem _ mem)) (self.register e.1)
  exact all _ self'.same self

/-- The entries of such a registry are its keys. -/
lemma SelfKeyed.mem_entries {r : Registry} (self : r.SelfKeyed) {e : Text × Text} :
    e ∈ r.phrases.entries ↔ e.1 ∈ r.phrases.keys ∧ e.1 = e.2 := by
  constructor
  · intro mem
    exact ⟨List.mem_map_of_mem mem, self.same e mem⟩
  · rintro ⟨known, same⟩
    obtain ⟨d, mem, key⟩ := List.mem_map.1 known
    have text := self.same d mem
    have eq : d = e := Prod.ext key (text.symm.trans (key.trans same))
    exact eq ▸ mem

lemma contains_register_self (r : Registry) (key text : Text) :
    (r.register key text).contains key = true := by
  unfold register
  split
  · exact Mapping.contains_iff.2 (Entries.mem_keys_insert.2 (.inl rfl))
  · rename_i kept found
    have here : r.contains key = true := by simp [contains, Mapping.contains, found]
    split <;> exact here

lemma contains_register {r : Registry} {k : Text} (known : r.contains k = true) (key text : Text) :
    (r.register key text).contains k = true := by
  unfold register
  split
  · exact Mapping.contains_iff.2 (Entries.mem_keys_insert.2 (.inr (Mapping.contains_iff.1 known)))
  · split <;> exact known

end Registry

namespace Localize

variable {style : Style} {s s' : State} {k : Text}

lemma contains_step {t : Term} (done : step style s t = .ok s')
    (known : s.registry.contains k = true) : s'.registry.contains k = true := by
  rcases registry_step done with same | more
  · rw [same]
    exact known
  · rw [more]
    exact Registry.contains_register known _ _

lemma contains_run (ts : List Term) (known : s.registry.contains k = true) :
    (run style s ts).1.registry.contains k = true :=
  run_induct (P := fun s => s.registry.contains k = true) known fun _ known done =>
    contains_step done known

/-- A run registers each key with itself. -/
lemma selfKeyed_run (ts : List Term) (self : s.registry.SelfKeyed) :
    (run style s ts).1.registry.SelfKeyed := by
  refine run_induct (P := fun s => s.registry.SelfKeyed) self fun _ self done => ?_
  rcases registry_step done with same | more
  · rw [same]
    exact self
  · rw [more]
    exact self.register _

lemma selfKeyed_localize {registry : Registry} (self : registry.SelfKeyed) (style : Style)
    (text : Text) (ts : List Term) : (localize style registry text ts).1.registry.SelfKeyed :=
  selfKeyed_run ts self

/-- A run goes on from where a run over the first terms came. -/
lemma run_append {ts : List Term} (reached : run style s ts = (s', none)) (rest : List Term) :
    run style s (ts ++ rest) = run style s' rest := by
  induction ts generalizing s with
  | nil =>
    cases reached
    rfl
  | cons t ts ih =>
    rw [List.cons_append, run]
    rw [run] at reached
    cases done : step style s t with
    | ok next =>
      rw [done] at reached
      exact ih reached
    | error e =>
      rw [done] at reached
      cases reached

end Localize

end Phrasebook
