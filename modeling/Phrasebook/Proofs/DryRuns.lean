import Phrasebook.Proofs.Preservation
import Phrasebook.Proofs.Tasks

/-!
# Dry runs

The work on a file asks whether it is a dry run in one place only: when a changed text is to be
saved (`save`). So a dry run changes nothing, and it ends like the real run unless a file that is to
change cannot be saved (`dry_run_predicts`).
-/

namespace Phrasebook.Source

open Files

/-- Whether the backup and the new text of a file that is to change can be written. -/
def WritesGoThrough (c : Config) (o : Options) (t : FileTree) (p : Path) (disk : Disk) : Prop :=
  ∀ text q, ToChange c { o with dryRun := false } t p text q →
    (save t p { o with dryRun := false } text q.text disk).2 = none

variable {c : Config} {o : Options} {t : FileTree} {p : Path} {disk : Disk} {text : Text}
  {q : Progress}

lemma ToChange.process_dry (change : ToChange c { o with dryRun := false } t p text q) (disk : Disk) :
    process c { o with dryRun := true } t p disk = finished p o text q (t, none) := by
  obtain ⟨work, chosen, worked⟩ := change.worked
  have whole := process_eq_finished (o := { o with dryRun := true }) change.checked chosen change.read
    worked disk
  rw [if_pos change.other] at whole
  exact whole

/-- Where no text is to change, nothing depends on whether the run is dry. -/
lemma process_of_idle (idle : ∀ text q, ¬ ToChange c { o with dryRun := false } t p text q)
    (disk : Disk) :
    process c { o with dryRun := false } t p disk = process c { o with dryRun := true } t p disk ∧
      (process c { o with dryRun := true } t p disk).tree = t ∧
      ∀ n diff, (process c { o with dryRun := true } t p disk).outcome ≠ .done n true diff := by
  rcases process_cases c o t p with ⟨w, fruitless, ended⟩ | ⟨work, text, q, checked, chosen, read, worked⟩
  · have whole : ∀ dryRun, process c { o with dryRun := dryRun } t p disk = w :=
      fun dryRun => ended { o with dryRun := dryRun } rfl rfl disk
    rw [whole, whole]
    cases fruitless <;> exact ⟨rfl, rfl, by rintro _ _ ⟨⟩⟩
  · have same : ¬(q.text != text) = true := fun other =>
      idle text q ⟨checked, read, ⟨work, chosen, worked⟩, other, rfl⟩
    have whole : ∀ dryRun, process c { o with dryRun := dryRun } t p disk =
        finished p o text q (t, none) := by
      intro dryRun
      rw [process_eq_finished (o := { o with dryRun := dryRun }) checked chosen read worked, if_neg same]
      rfl
    rw [whole, whole]
    refine ⟨rfl, rfl, fun n diff done => same ?_⟩
    exact (Outcome.done.inj done).2.1

lemma tree_process_dry (c : Config) (o : Options) (t : FileTree) (p : Path) (disk : Disk) :
    (process c { o with dryRun := true } t p disk).tree = t := by
  by_cases change : ∃ text q, ToChange c { o with dryRun := false } t p text q
  · obtain ⟨text, q, change⟩ := change
    rw [change.process_dry disk]
    rfl
  · simp only [not_exists] at change
    exact (process_of_idle change disk).2.1

/-- A run whose writes go through leaves the same behind as the dry one, the tree aside. -/
lemma process_eq_dry (through : WritesGoThrough c o t p disk) :
    process c { o with dryRun := false } t p disk =
      { process c { o with dryRun := true } t p disk with
        tree := (process c { o with dryRun := false } t p disk).tree } := by
  by_cases change : ∃ text q, ToChange c { o with dryRun := false } t p text q
  · obtain ⟨text, q, change⟩ := change
    have unsaved := through text q change
    rw [change.process_dry disk, change.process_eq disk]
    cases saved : save t p { o with dryRun := false } text q.text disk with
    | mk after fault =>
      rw [saved] at unsaved
      cases unsaved
      rfl
  · simp only [not_exists] at change
    rw [(process_of_idle change disk).1]

lemma writesGoThrough_of_outcome
    (same : (process c { o with dryRun := false } t p disk).outcome =
      (process c { o with dryRun := true } t p disk).outcome) :
    WritesGoThrough c o t p disk := by
  intro text q change
  rw [change.process_dry disk, change.process_eq disk] at same
  cases saved : save t p { o with dryRun := false } text q.text disk with
  | mk after fault =>
    cases fault with
    | none => rfl
    | some f =>
      rw [saved] at same
      cases same

/-- The changes that a run shows are those from the text before to the text that the file has then. -/
lemma diff_of_changed {n : Nat} {diff : Option Text}
    (changed : (process c { o with dryRun := false } t p disk).outcome = .done n true diff) :
    ∃ before after, readText t p = .ok before ∧
      (process c { o with dryRun := false } t p disk).tree.readBytes p = .ok (Utf8.encode after) ∧
      diff = if o.showDiff then some (LineDiff.unified before after p.toText) else none := by
  by_cases change : ∃ text q, ToChange c { o with dryRun := false } t p text q
  · obtain ⟨text, q, change⟩ := change
    have direct := isLink_of_precheck change.checked
    obtain ⟨folder, above⟩ := locate_parent_of_readText change.read
    obtain ⟨bytes, file⟩ := readBytes_of_readText change.read
    rw [change.process_eq disk] at changed ⊢
    cases saved : save t p { o with dryRun := false } text q.text disk with
    | mk after fault =>
      rw [saved] at changed
      cases fault with
      | some f => cases changed
      | none =>
        rw [finished, change.other] at changed
        cases changed
        exact ⟨text, q.text, change.read, readBytes_of_save rfl direct file above saved, rfl⟩
  · simp only [not_exists] at change
    rw [(process_of_idle change disk).1] at changed
    exact absurd changed ((process_of_idle change disk).2.2 n diff)

/-- A dry run leaves every file as it is. The real run has the same result exactly if its writes go
through; then it also registers and logs the same, and the changes shown are those that it makes. -/
theorem dry_run_predicts (c : Config) (o : Options) (b : Batch) (p : Path) (disk : Disk) :
    let dry := Batch.process c { o with dryRun := true } b p disk
    let real := Batch.process c { o with dryRun := false } b p disk
    dry.tree = b.tree ∧
      (real.results = dry.results ↔ WritesGoThrough c o b.tree p disk) ∧
      (WritesGoThrough c o b.tree p disk →
        real.registry = dry.registry ∧ real.records = dry.records) ∧
      ∀ n diff, real.results = b.results ++ [⟨p, .done n true diff⟩] →
        ∃ before after, readText b.tree p = .ok before ∧
          real.tree.readBytes p = .ok (Utf8.encode after) ∧
          diff = if o.showDiff then some (LineDiff.unified before after p.toText) else none := by
  intro dry real
  have ended : ∀ {outcome outcome' : Outcome},
      b.results ++ [⟨p, outcome⟩] = b.results ++ [⟨p, outcome'⟩] → outcome = outcome' := by
    intro outcome outcome' same
    have last := List.append_cancel_left same
    cases last
    rfl
  refine ⟨tree_process_dry c o b.tree p disk, ⟨fun same => ?_, fun through => ?_⟩, fun through => ?_,
    fun n diff same => ?_⟩
  · exact writesGoThrough_of_outcome (ended same)
  · show b.results ++ [⟨p, (process c { o with dryRun := false } b.tree p disk).outcome⟩] = _
    rw [process_eq_dry through]
    rfl
  · constructor
    · show b.registry.merge (process c { o with dryRun := false } b.tree p disk).phrases.phrases = _
      rw [process_eq_dry through]
      rfl
    · show b.records ++ (process c { o with dryRun := false } b.tree p disk).records = _
      rw [process_eq_dry through]
      rfl
  · exact diff_of_changed (ended same)

end Phrasebook.Source
