import Mathlib.Data.List.TakeWhile
import Phrasebook.Proofs.Calls
import Phrasebook.Proofs.Extraction
import Phrasebook.Proofs.Patches

/-!
# Localizing a script

The work on a script is one substitution. Of the terms, in the order of the scanners, those are kept
whose ranges are apart from the ranges kept before; their calls take the place of their ranges all
at once. The invariant of the work is the state `State.after`: the buffer is the one in which the
kept terms have been patched, and the log finds a term again exactly if its range is apart from
theirs (`step_after`). `run_after` carries this over all terms, up to the first kept one with too
many markers.
-/

namespace Phrasebook

namespace Term

/-- The terms whose ranges are apart from those of `kept` and of the terms kept before them. -/
def greedyFrom (kept : List Term) : List Term → List Term
  | [] => []
  | t :: ts =>
    if ∀ u ∈ kept, t.range.Apart u.range then t :: greedyFrom (kept ++ [t]) ts
    else greedyFrom kept ts

/-- The terms kept one by one, each if its range is apart from those kept before. -/
def greedy (ts : List Term) : List Term :=
  greedyFrom [] ts

/-- The call of a script's term in place of its range. -/
def patch (method : Text) (t : Term) : Patch :=
  ⟨t.range, Localize.fieldLabel t ++ t.call method none⟩

end Term

namespace Localize

/-- The state in which the calls of some terms of a script have been put in place. -/
def State.after (method text : Text) (registry : Registry) (done : List Term) : State where
  buffer := Patch.buffer text (done.map (Term.patch method))
  registry := done.foldl (fun r t => r.register t.key t.key) registry
  replaced := done.length

variable {method text : Text} {registry : Registry} {o : Term.Options} {done : List Term} {t : Term}

/-- The range of a term is clear of patched terms if it is apart from their ranges. -/
lemma clear_patches (method : Text) :
    Patch.Clear (done.map (Term.patch method)) t.range ↔ ∀ u ∈ done, t.range.Apart u.range := by
  simp only [Patch.Clear, List.forall_mem_map]
  rfl

/-- A term that stands in a text fits behind the patches of terms apart from it. -/
lemma fit_snoc (fit : Patch.Fit text.length (done.map (Term.patch method)))
    (holds : (Term.sourceOf text .script o).Holds t) (away : ∀ u ∈ done, t.range.Apart u.range) :
    Patch.Fit text.length ((done ++ [t]).map (Term.patch method)) := by
  rw [List.map_append]
  exact fit.snoc holds.bounds.1 holds.bounds.2 ((clear_patches method).2 away)

/-- Putting the call of a term at its place makes one more patch. -/
lemma State.after_snoc (fit : Patch.Fit text.length ((done ++ [t]).map (Term.patch method))) :
    State.after method text registry (done ++ [t]) =
      let pos := Patch.place text (done.map (Term.patch method)) t.offset
      (State.after method text registry done).place t.key pos (pos + t.span.length)
        (fieldLabel t ++ t.call method none) := by
  rw [List.map_append, List.map_singleton] at fit
  have length : t.stop - t.offset = t.span.length := Nat.add_sub_cancel_left ..
  have buffer := Patch.buffer_snoc fit
  simp only [State.after, State.place, State.register, List.map_append, List.map_singleton,
    List.foldl_append, List.foldl_cons, List.foldl_nil, List.length_append, List.length_singleton,
    buffer]
  simp only [Term.patch, Term.range, length]

/-- One step on a literal: it is passed over if its range touches one that was replaced; otherwise
its call is put there, unless it has too many markers. -/
lemma step_after (fit : Patch.Fit text.length (done.map (Term.patch method)))
    (holds : (Term.sourceOf text .script o).Holds t) (literal : t.isBody = false) :
    step ⟨.script, method⟩ (State.after method text registry done) t =
      if ∀ u ∈ done, t.range.Apart u.range then
        if t.overflows then .error t.overflow
        else .ok (State.after method text registry (done ++ [t]))
      else .ok (State.after method text registry done) := by
  obtain ⟨size, inside⟩ := holds.bounds
  have length : t.stop - t.offset = t.span.length := Nat.add_sub_cancel_left ..
  have located : (State.after method text registry done).buffer.locate? t.offset t.span.length =
      if ∀ u ∈ done, t.range.Apart u.range then
        some (Patch.place text (done.map (Term.patch method)) t.offset) else none := by
    simp only [← clear_patches method]
    exact Patch.locate?_buffer fit (by omega) inside
  -- the log finds the term exactly if it is to be kept, and what it finds is the span
  unfold step
  rw [literal, if_neg Bool.false_ne_true, located]
  by_cases away : ∀ u ∈ done, t.range.Apart u.range
  · have held : (State.after method text registry done).buffer.holdsAt t.span
        (Patch.place text (done.map (Term.patch method)) t.offset) = true := by
      have slice := Patch.slice_substitute (Nat.le_of_lt size) inside
        ((clear_patches method).2 away)
      rw [length] at slice
      exact beq_iff_eq.2 (slice.trans holds.text)
    rw [if_pos away, if_pos away]
    simp only [held, stepScript, callOf_eq]
    by_cases many : t.overflows = true
    · simp [many]
    · simp [many, State.after_snoc (fit_snoc fit holds away)]
  · rw [if_neg away, if_neg away]

/-- The patches of kept terms fit the text. -/
lemma fit_greedyFrom {ts : List Term} (fit : Patch.Fit text.length (done.map (Term.patch method)))
    (holds : ∀ t ∈ ts, (Term.sourceOf text .script o).Holds t) :
    Patch.Fit text.length ((done ++ Term.greedyFrom done ts).map (Term.patch method)) := by
  induction ts generalizing done with
  | nil => simpa only [Term.greedyFrom, List.append_nil] using fit
  | cons t ts ih =>
    have here := holds t List.mem_cons_self
    have rest := fun u mem => holds u (List.mem_cons_of_mem t mem)
    unfold Term.greedyFrom
    split
    · rename_i away
      rw [List.append_cons]
      exact ih (fit_snoc fit here away) rest
    · exact ih fit rest

/-- All steps on the literals of a script: the kept terms get their calls, up to the first one with
too many markers. -/
lemma run_after {ts : List Term} (fit : Patch.Fit text.length (done.map (Term.patch method)))
    (holds : ∀ t ∈ ts, (Term.sourceOf text .script o).Holds t)
    (literal : ∀ t ∈ ts, t.isBody = false) :
    run ⟨.script, method⟩ (State.after method text registry done) ts =
      (State.after method text registry
        (done ++ (Term.greedyFrom done ts).takeWhile fun t => !t.overflows),
        ((Term.greedyFrom done ts).find? Term.overflows).map Term.overflow) := by
  induction ts generalizing done with
  | nil => simp only [run, Term.greedyFrom, List.takeWhile_nil, List.append_nil, List.find?_nil,
      Option.map_none]
  | cons t ts ih =>
    have here := holds t List.mem_cons_self
    have rest := fun u mem => holds u (List.mem_cons_of_mem t mem)
    have literals := fun u mem => literal u (List.mem_cons_of_mem t mem)
    unfold run Term.greedyFrom
    rw [step_after fit here (literal t List.mem_cons_self)]
    by_cases away : ∀ u ∈ done, t.range.Apart u.range
    · -- the term is kept, and stops the run if it has too many markers
      rw [if_pos away, if_pos away]
      cases many : t.overflows with
      | true => simp [many]
      | false =>
        simp only [if_false, Bool.false_eq_true, ih (fit_snoc fit here away) rest literals]
        simp [many, List.append_assoc]
    · rw [if_neg away, if_neg away]
      exact ih fit rest literals

/-- The work on a script replaces the ranges of the greedily kept terms at once: no two of them
share an offset, the text is the substitution of their calls, their number is counted and their keys
are registered in order. It fails exactly if one of them has too many markers. -/
theorem localize_script_eq_substitute (text method : Text) (registry : Registry)
    (lookupNames fieldNames : List Text) :
    let terms := Term.extract text .script { lookupNames, fieldNames }
    let kept := Term.greedy terms
    let result := localize ⟨.script, method⟩ registry text terms
    Patch.Fit text.length (kept.map (Term.patch method)) ∧
      match kept.find? Term.overflows with
      | some t => result.2 = some t.overflow
      | none =>
        result.2 = none ∧
        result.1.buffer.text = Patch.substitute (kept.map (Term.patch method)) text ∧
        result.1.replaced = kept.length ∧
        result.1.registry = kept.foldl (fun r t => r.register t.key t.key) registry := by
  intro terms kept result
  have candidates : ∀ t ∈ terms, Term.Candidate (Term.sourceOf text .script _) _ t :=
    fun t mem => (Term.mem_extract_iff.1 mem).1
  have holds := fun t mem => (candidates t mem).holds
  have literal := fun t mem => (candidates t mem).not_isBody rfl rfl
  have start : Patch.Fit text.length (([] : List Term).map (Term.patch method)) := .nil _
  have initial : State.after method text registry [] =
      { buffer := .ofText text, registry } := by
    rw [State.after, List.map_nil, Patch.buffer_nil]
    rfl
  have all : result = (State.after method text registry (kept.takeWhile fun t => !t.overflows),
      (kept.find? Term.overflows).map Term.overflow) := by
    show run ⟨.script, method⟩ { buffer := .ofText text, registry } terms = _
    rw [← initial]
    exact run_after start holds literal
  refine ⟨fit_greedyFrom start holds, ?_⟩
  cases first : kept.find? Term.overflows with
  | some t =>
    show result.2 = some t.overflow
    rw [all, first]
    rfl
  | none =>
    have whole : kept.takeWhile (fun t => !t.overflows) = kept := by
      rw [List.takeWhile_eq_self_iff]
      intro t mem
      simpa using List.find?_eq_none.1 first t mem
    rw [all, first, whole]
    exact ⟨rfl, rfl, rfl, rfl⟩

end Localize

end Phrasebook
