import Mathlib.Data.List.Basic
import Mathlib.Logic.Relation
import Phrasebook.Proofs.Registrations

/-!
# A registry that workers share

Workers register keys in one registry, each its own calls in order, and a lock lets one registration
happen at a time. So a run is a sequence of steps, each the next registration of some worker
(`Shared.Step`). Whatever the order of the steps, the registry is told by the registrations made so
far (`Faithful`): every step keeps this (`faithful_step`), hence every run does (`faithful_run`).
-/

namespace Phrasebook.Registry

/-- A call on a registry. -/
inductive Call where
  | register (key text : Text)
  | merge (mapping : Mapping)

namespace Call

/-- The registrations that a call makes, one after another. -/
def pairs : Call → List (Text × Text)
  | register key text => [(key, text)]
  | merge m => m.entries

/-- What a call makes of a registry, and how many new keys it answers. -/
def perform (r : Registry) : Call → Registry × Nat
  | register key text => ((r.enter key text).1, (r.enter key text).2.toNat)
  | merge m => r.enterAll m.entries

/-- Calls one after another, with the sum of their answers. -/
def performAll (r : Registry) : List Call → Registry × Nat
  | [] => (r, 0)
  | c :: cs => ((performAll (c.perform r).1 cs).1, (c.perform r).2 + (performAll (c.perform r).1 cs).2)

end Call

/-- A shared registry, the registrations that each worker still has ahead, and those made so far with
their answers. -/
structure Shared where
  registry : Registry
  ahead : List (List (Text × Text))
  log : List ((Text × Text) × Bool)

namespace Shared

/-- Workers before their first call. -/
def start (workers : List (List Call)) : Shared :=
  ⟨empty, workers.map (·.flatMap Call.pairs), []⟩

/-- The registrations made so far. -/
def made (s : Shared) : List (Text × Text) :=
  s.log.map Prod.fst

/-- Whether no worker has a registration ahead. -/
def IsDone (s : Shared) : Prop :=
  ∀ ps ∈ s.ahead, ps = []

/-- One worker makes its next registration. -/
inductive Step : Shared → Shared → Prop where
  | register {r : Registry} {before behind : List (List (Text × Text))} {p : Text × Text}
      {ps : List (Text × Text)} {log : List ((Text × Text) × Bool)} :
    Step ⟨r, before ++ (p :: ps) :: behind, log⟩
      ⟨(r.enter p.1 p.2).1, before ++ ps :: behind, log ++ [(p, (r.enter p.1 p.2).2)]⟩

/-- Any number of steps. -/
abbrev Run : Shared → Shared → Prop :=
  Relation.ReflTransGen Step

end Shared

/-- The registrations that are refused among some: those whose key has another text first. -/
def refusals (ps : List (Text × Text)) : List Conflict :=
  ps.filterMap fun p =>
    (ps.lookup p.1).bind fun kept => if kept = p.2 then none else some ⟨p.1, kept, p.2⟩

/-- A registry that is told by the registrations made in it and their answers. -/
structure Faithful (r : Registry) (log : List ((Text × Text) × Bool)) : Prop where
  /-- The keys come once, in the order of their first registrations. -/
  keys : r.phrases.keys = ((log.map Prod.fst).map Prod.fst).eraseDups
  /-- Each key has the text of its first registration. -/
  texts : ∀ key, r.phrases.get? key = (log.map Prod.fst).lookup key
  /-- A registration is answered with yes exactly if none before it has its key. -/
  answers : ∀ i p new, log[i]? = some (p, new) →
    (new = true ↔ p.1 ∉ ((log.take i).map Prod.fst).map Prod.fst)
  /-- There are as many answers with yes as keys. -/
  count : log.countP Prod.snd = r.size
  /-- Each key has one registration that is answered with yes. -/
  once : ∀ key ∈ r.phrases.keys, log.countP (fun e => e.2 && e.1.1 == key) = 1
  /-- The later registrations with other texts are noted, in order. -/
  conflicts : r.conflicts = refusals (log.map Prod.fst)

lemma faithful_empty : Faithful empty [] where
  keys := rfl
  texts _ := rfl
  answers _ _ _ found := by cases found
  count := rfl
  once _ mem := by cases mem
  conflicts := rfl

lemma eraseDups_concat (ks : List Text) (k : Text) :
    (ks ++ [k]).eraseDups = if k ∈ ks then ks.eraseDups else ks.eraseDups ++ [k] := by
  rw [List.eraseDups_append, List.cons_removeAll]
  split
  · rename_i fresh
    rw [if_neg (by simpa using fresh)]
    rfl
  · rename_i known
    rw [if_pos (by simpa using known)]
    exact List.append_nil _

lemma mem_map_fst_of_lookup {ps : List (Text × Text)} {key text : Text}
    (found : ps.lookup key = some text) : key ∈ ps.map Prod.fst :=
  List.mem_map_of_mem (Entries.mem_of_get? found)

/-- The texts of keys registered before do not change, so what was refused before stays refused. -/
lemma refusals_concat (ps : List (Text × Text)) (p : Text × Text) :
    refusals (ps ++ [p]) = refusals ps ++ ((ps.lookup p.1).bind fun kept =>
      if kept = p.2 then none else some ⟨p.1, kept, p.2⟩ : Option Conflict).toList := by
  have known : ∀ q ∈ ps, (ps ++ [p]).lookup q.1 = ps.lookup q.1 := by
    intro q mem
    rw [List.lookup_append]
    cases found : ps.lookup q.1 with
    | some text => rfl
    | none =>
      have absent := List.lookup_eq_none_iff.1 found q mem
      simp at absent
  have old : ps.filterMap (fun q => ((ps ++ [p]).lookup q.1).bind fun kept =>
      if kept = q.2 then none else some (⟨q.1, kept, q.2⟩ : Conflict)) = refusals ps := by
    apply List.filterMap_congr
    intro q mem
    rw [known q mem]
  have own : [p].lookup p.1 = some p.2 := List.lookup_cons_self
  rw [refusals, List.filterMap_append, old, List.filterMap_cons, List.lookup_append, own]
  cases found : ps.lookup p.1 with
  | some kept =>
    by_cases same : kept = p.2
    · simp [same]
    · simp [same]
  | none => simp

section Step

variable {r : Registry} {log : List ((Text × Text) × Bool)}

lemma Faithful.mem_keys (faithful : Faithful r log) {key : Text} :
    key ∈ r.phrases.keys ↔ key ∈ (log.map Prod.fst).map Prod.fst := by
  rw [faithful.keys, List.mem_eraseDups]

lemma countP_fresh (faithful : Faithful r log) {key : Text} (fresh : key ∉ r.phrases.keys) :
    log.countP (fun e => e.2 && e.1.1 == key) = 0 := by
  rw [List.countP_eq_zero]
  intro e mem both
  obtain ⟨-, same⟩ := Bool.and_eq_true_iff.1 both
  apply fresh
  rw [faithful.mem_keys, ← beq_iff_eq.1 same]
  exact List.mem_map_of_mem (List.mem_map_of_mem mem)

lemma answers_concat (faithful : Faithful r log) {p : Text × Text} {new : Bool}
    (last : new = true ↔ p.1 ∉ r.phrases.keys) (i : Nat) (q : Text × Text) (b : Bool)
    (found : (log ++ [(p, new)])[i]? = some (q, b)) :
    b = true ↔ q.1 ∉ (((log ++ [(p, new)]).take i).map Prod.fst).map Prod.fst := by
  rcases Nat.lt_or_ge i log.length with inside | behind
  · rw [List.getElem?_append_left inside] at found
    rw [List.take_append_of_le_length (Nat.le_of_lt inside)]
    exact faithful.answers i q b found
  · rw [List.getElem?_append_right behind] at found
    obtain ⟨here, same⟩ := List.getElem?_eq_some_iff.1 found
    have only : i = log.length := by
      simp only [List.length_singleton] at here
      omega
    subst only
    simp only [Nat.sub_self, List.getElem_cons_zero] at same
    cases same
    rw [List.take_left, ← faithful.mem_keys]
    exact last

/-- A new key goes behind the others, and the registration is answered with yes. -/
lemma Faithful.enter_of_notMem (faithful : Faithful r log) {p : Text × Text}
    (fresh : p.1 ∉ r.phrases.keys) : Faithful (r.register p.1 p.2) (log ++ [(p, true)]) := by
  have made : (log ++ [(p, true)]).map Prod.fst = log.map Prod.fst ++ [p] := List.map_append
  have absent : (log.map Prod.fst).lookup p.1 = none :=
    (faithful.texts p.1).symm.trans (Entries.get?_eq_none_iff.2 fresh)
  obtain ⟨entries, conflicts⟩ := register_of_notMem fresh p.2
  have keys : (r.register p.1 p.2).phrases.keys = r.phrases.keys ++ [p.1] := by
    rw [Mapping.keys, entries, Entries.keys, List.map_append]
    rfl
  constructor
  · rw [keys, made, List.map_append, List.map_singleton, eraseDups_concat,
      if_neg (fun known => fresh (faithful.mem_keys.2 known)), faithful.keys]
  · intro key
    rw [made, List.lookup_append, ← faithful.texts key, Mapping.get?, entries, Entries.get?,
      List.lookup_append]
    rfl
  · exact answers_concat faithful (iff_of_true rfl fresh)
  · rw [List.countP_append, faithful.count, size, size, Mapping.size, Mapping.size, entries,
      List.length_append]
    rfl
  · intro key mem
    rw [List.countP_append]
    rw [keys, List.mem_append, List.mem_singleton] at mem
    by_cases same : key = p.1
    · subst same
      rw [countP_fresh faithful fresh]
      simp
    · rw [faithful.once key (mem.resolve_right same)]
      simp [Ne.symm same]
  · rw [conflicts, made, refusals_concat, absent, faithful.conflicts]
    exact (List.append_nil _).symm

/-- A key that is known keeps its text, and the registration is answered with no. -/
lemma Faithful.enter_of_get? (faithful : Faithful r log) {p : Text × Text} {kept : Text}
    (found : r.phrases.get? p.1 = some kept) :
    Faithful (r.register p.1 p.2) (log ++ [(p, false)]) := by
  have made : (log ++ [(p, false)]).map Prod.fst = log.map Prod.fst ++ [p] := List.map_append
  have known : p.1 ∈ r.phrases.keys := mem_map_fst_of_lookup found
  have present : (log.map Prod.fst).lookup p.1 = some kept := (faithful.texts p.1).symm.trans found
  obtain ⟨phrases, conflicts⟩ := register_of_get? found p.2
  constructor
  · rw [phrases, made, List.map_append, List.map_singleton, eraseDups_concat,
      if_pos (mem_map_fst_of_lookup present), faithful.keys]
  · intro key
    rw [phrases, made, List.lookup_append, faithful.texts key]
    cases earlier : (log.map Prod.fst).lookup key with
    | some text => rfl
    | none =>
      have other : [p].lookup key = none := by
        rw [List.lookup_eq_none_iff]
        rintro q mem
        rw [List.mem_singleton.1 mem, bne_iff_ne]
        rintro rfl
        cases earlier.symm.trans present
      rw [other]
      rfl
  · exact answers_concat faithful (iff_of_false Bool.false_ne_true fun fresh => fresh known)
  · rw [List.countP_append, faithful.count, size, size, phrases]
    rfl
  · intro key mem
    rw [List.countP_append, faithful.once key (phrases ▸ mem)]
    rfl
  · rw [conflicts, made, refusals_concat, present, faithful.conflicts]
    rfl

/-- One more registration keeps a registry faithful. -/
lemma Faithful.enter (faithful : Faithful r log) (p : Text × Text) :
    Faithful (r.enter p.1 p.2).1 (log ++ [(p, (r.enter p.1 p.2).2)]) := by
  rw [Registry.enter]
  cases found : r.phrases.get? p.1 with
  | none =>
    have fresh : p.1 ∉ r.phrases.keys := Entries.get?_eq_none_iff.1 found
    have unknown : r.contains p.1 = false := Bool.eq_false_iff.2 fun known =>
      fresh (Mapping.contains_iff.1 known)
    rw [unknown]
    exact faithful.enter_of_notMem fresh
  | some kept =>
    have known : r.contains p.1 = true := Mapping.contains_iff.2 (mem_map_fst_of_lookup found)
    rw [known]
    exact faithful.enter_of_get? found

end Step

namespace Shared

variable {s s' : Shared} {workers : List (List Call)}

lemma faithful_step (step : Step s s') (faithful : Faithful s.registry s.log) :
    Faithful s'.registry s'.log := by
  cases step with
  | register => exact faithful.enter _

lemma faithful_run (run : Run s s') (faithful : Faithful s.registry s.log) :
    Faithful s'.registry s'.log := by
  induction run with
  | refl => exact faithful
  | tail _ step ih => exact faithful_step step ih

lemma faithful_start (run : Run (start workers) s) : Faithful s.registry s.log :=
  faithful_run run faithful_empty

/-- A step only moves a registration from those ahead to those made. -/
lemma made_step (step : Step s s') :
    (s'.made ++ s'.ahead.flatten).Perm (s.made ++ s.ahead.flatten) := by
  cases step with
  | @register r before behind p ps log =>
    simp only [made, List.map_append, List.map_singleton, List.flatten_append, List.flatten_cons,
      List.append_assoc, List.cons_append, List.nil_append]
    apply List.Perm.append_left
    exact List.perm_middle.symm

lemma made_run (run : Run s s') : (s'.made ++ s'.ahead.flatten).Perm (s.made ++ s.ahead.flatten) := by
  induction run with
  | refl => exact .refl _
  | tail _ step ih => exact (made_step step).trans ih

lemma made_of_done (run : Run (start workers) s) (done : s.IsDone) :
    s.made.Perm (workers.flatten.flatMap Call.pairs) := by
  have moved := made_run run
  have empty : s.ahead.flatten = [] := List.flatten_eq_nil_iff.2 done
  have all : (workers.map (·.flatMap Call.pairs)).flatten = workers.flatten.flatMap Call.pairs := by
    rw [List.flatMap_def, List.map_flatten, List.flatten_flatten, List.map_map]
    rfl
  rw [empty, List.append_nil] at moved
  rw [← all]
  exact moved

end Shared

/-! ## Calls one after another -/

lemma enterAll_append (r : Registry) (ps qs : List (Text × Text)) :
    r.enterAll (ps ++ qs) =
      (((r.enterAll ps).1.enterAll qs).1, (r.enterAll ps).2 + ((r.enterAll ps).1.enterAll qs).2) := by
  induction ps generalizing r with
  | nil => simp [enterAll]
  | cons p ps ih => simp [enterAll, ih, Nat.add_assoc]

/-- A call does what its registrations do one after another. -/
lemma Call.perform_eq (r : Registry) (c : Call) : c.perform r = r.enterAll c.pairs := by
  cases c with
  | register key text => rfl
  | merge m => rfl

lemma Call.performAll_eq (r : Registry) (cs : List Call) :
    Call.performAll r cs = r.enterAll (cs.flatMap Call.pairs) := by
  induction cs generalizing r with
  | nil => rfl
  | cons c cs ih => rw [Call.performAll, ih, Call.perform_eq, List.flatMap_cons, enterAll_append]

namespace Shared

/-- The worker whose turn it is may go on to the end of its registrations. -/
lemma run_first (r : Registry) (ps : List (Text × Text)) (behind : List (List (Text × Text)))
    (before : List (List (Text × Text))) (log : List ((Text × Text) × Bool)) :
    ∃ log', Run ⟨r, before ++ ps :: behind, log⟩ ⟨(r.enterAll ps).1, before ++ [] :: behind, log'⟩ ∧
      log'.countP Prod.snd = log.countP Prod.snd + (r.enterAll ps).2 := by
  induction ps generalizing r log with
  | nil => exact ⟨log, .refl, rfl⟩
  | cons p ps ih =>
    obtain ⟨log', run, count⟩ := ih (r.enter p.1 p.2).1 (log ++ [(p, (r.enter p.1 p.2).2)])
    refine ⟨log', .head .register run, ?_⟩
    rw [count, List.countP_append, Nat.add_assoc]
    cases new : (r.enter p.1 p.2).2 <;> simp [enterAll, new]

/-- The calls of all workers, one worker after the other, are a run of the workers. -/
lemma run_in_turn (workers : List (List Call)) :
    ∃ s, Run (start workers) s ∧ s.IsDone ∧
      Call.performAll empty workers.flatten = (s.registry, s.log.countP Prod.snd) := by
  have all : ∀ (r : Registry) (before : List (List (Text × Text))) (log : List ((Text × Text) × Bool)),
      (∀ ps ∈ before, ps = []) →
      ∃ s, Run ⟨r, before ++ workers.map (·.flatMap Call.pairs), log⟩ s ∧ s.IsDone ∧
        (Call.performAll r workers.flatten).1 = s.registry ∧
        log.countP Prod.snd + (Call.performAll r workers.flatten).2 = s.log.countP Prod.snd := by
    induction workers with
    | nil =>
      intro r before log done
      exact ⟨_, .refl, by simpa [IsDone] using done, rfl, rfl⟩
    | cons cs workers ih =>
      intro r before log done
      obtain ⟨log', first, count⟩ := run_first r (cs.flatMap Call.pairs)
        (workers.map (·.flatMap Call.pairs)) before log
      have empty : ∀ ps ∈ before ++ [[]], ps = [] := by
        simpa [or_imp, forall_and] using done
      obtain ⟨s, rest, ended, same, sum⟩ :=
        ih (r.enterAll (cs.flatMap Call.pairs)).1 (before ++ [[]]) log' empty
      rw [List.append_assoc] at rest
      refine ⟨s, first.trans rest, ended, ?_, ?_⟩
      · rw [← same, Call.performAll_eq, Call.performAll_eq, List.flatten_cons, List.flatMap_append,
          enterAll_append]
      · rw [← sum, count, Call.performAll_eq, Call.performAll_eq, List.flatten_cons,
          List.flatMap_append, enterAll_append, Nat.add_assoc]
  obtain ⟨s, run, ended, same, sum⟩ := all empty [] [] (by simp)
  refine ⟨s, run, ended, Prod.ext same ?_⟩
  rw [← sum]
  exact (Nat.zero_add _).symm

end Shared

/-- A faithful registry in which each key was registered with itself. -/
lemma Faithful.selfKeyed {r : Registry} {log : List ((Text × Text) × Bool)} (faithful : Faithful r log)
    (same : ∀ p ∈ log.map Prod.fst, p.1 = p.2) : r.SelfKeyed := by
  constructor
  · intro e mem
    have text : r.phrases.get? e.1 = some e.2 := Entries.get?_of_mem r.phrases.nodup mem
    rw [faithful.texts] at text
    exact same e (Entries.mem_of_get? text)
  · rw [faithful.conflicts, refusals, List.filterMap_eq_nil_iff]
    intro p mem
    cases found : (log.map Prod.fst).lookup p.1 with
    | none => rfl
    | some kept =>
      have first : p.1 = kept := same _ (Entries.mem_of_get? found)
      have again : kept = p.2 := first.symm.trans (same p mem)
      exact if_pos again

/-- Whatever the workers do and in whatever order their registrations come, the registry holds the
keys registered so far in the order of their first registrations, with the texts of these; of the
registrations of a key exactly the first is answered with yes; and the later ones with another text
are the conflicts, in order. When all is done, every call has made its registrations; one way to get
there is to make the calls one after another. If each key is registered with itself, all ways to make
the same registrations end in the same entries without a conflict. -/
theorem shared_registry_keeps_first (workers : List (List Call)) :
    (∀ s, Shared.Run (.start workers) s →
      Faithful s.registry s.log ∧
        (s.IsDone → s.made.Perm (workers.flatten.flatMap Call.pairs))) ∧
    (∃ s, Shared.Run (.start workers) s ∧ s.IsDone ∧
      Call.performAll empty workers.flatten = (s.registry, s.log.countP Prod.snd)) ∧
    ((∀ p ∈ workers.flatten.flatMap Call.pairs, p.1 = p.2) →
      ∀ workers' : List (List Call),
        (workers'.flatten.flatMap Call.pairs).Perm (workers.flatten.flatMap Call.pairs) →
        ∀ s s', Shared.Run (.start workers) s → s.IsDone → Shared.Run (.start workers') s' →
          s'.IsDone →
          (∀ e, e ∈ s'.registry.phrases.entries ↔ e ∈ s.registry.phrases.entries) ∧
            s.registry.conflicts = [] ∧ s'.registry.conflicts = []) := by
  refine ⟨fun s run => ⟨Shared.faithful_start run, Shared.made_of_done run⟩,
    Shared.run_in_turn workers, fun self workers' reordered s s' run done run' done' => ?_⟩
  have made := Shared.made_of_done run done
  have made' := (Shared.made_of_done run' done').trans reordered
  have faithful := Shared.faithful_start run
  have faithful' := Shared.faithful_start run'
  have keyed := faithful.selfKeyed fun p mem => self p (made.mem_iff.1 mem)
  have keyed' := faithful'.selfKeyed fun p mem => self p (made'.mem_iff.1 mem)
  refine ⟨fun e => ?_, keyed.clean, keyed'.clean⟩
  have keys : e.1 ∈ s'.registry.phrases.keys ↔ e.1 ∈ s.registry.phrases.keys := by
    rw [faithful'.mem_keys, faithful.mem_keys]
    exact ((made'.trans made.symm).map Prod.fst).mem_iff
  rw [keyed.mem_entries, keyed'.mem_entries, keys]

end Phrasebook.Registry
