import Mathlib.Algebra.GroupWithZero.Nat
import Mathlib.Tactic.ByContra
import Phrasebook.Proofs.Tasks

/-!
# Pools of threads

Whatever the schedule, each step of a pool brings one file nearer to its end, so all files come to
theirs (`ended_of_run`). With one thread a pool works on one file after another (`run_one`). With more
the work on the files is mixed; if they are apart, each file still comes to what it comes to alone,
and the tree holds all changes side by side (`Merged.run`).
-/

namespace Phrasebook

open Files

namespace Source

/-- How many steps the work on a file may still take. -/
def Task.rank : Task → Nat
  | .waiting => stepsPerFile
  | .inspected _ => 3
  | .changed .. => 2
  | .kept .. => 1
  | .ended .. => 0

lemma Task.rank_eq_zero_iff {k : Task} : k.rank = 0 ↔ k.isEnded = true := by
  cases k <;> simp [rank, isEnded, stepsPerFile]

lemma Task.rank_step (c : Config) (o : Options) (p : Path) (disk : Disk) (t : FileTree) {k : Task}
    (going : k.isEnded = false) : (k.step c o p disk t).task.rank < k.rank := by
  cases k with
  | waiting =>
    simp only [step, inspect]
    split
    · exact Nat.succ_pos 3
    · exact Nat.succ_pos 3
    · split
      · exact Nat.succ_pos 3
      · exact Nat.lt_succ_self 3
  | inspected work =>
    simp only [step, read]
    split
    · exact Nat.succ_pos 2
    · split
      · exact Nat.succ_pos 2
      · split
        · exact Nat.lt_succ_self 2
        · exact Nat.succ_pos 2
  | changed text q =>
    simp only [step]
    split
    · unfold keep
      split
      · exact Nat.succ_pos 1
      · exact Nat.lt_succ_self 1
    · unfold store
      split
      · exact Nat.succ_pos 1
      · exact Nat.succ_pos 1
  | kept text q =>
    simp only [step, store]
    split
    · exact Nat.succ_pos 0
    · exact Nat.succ_pos 0
  | ended outcome phrases => cases going

namespace Pool

variable {c : Config} {o : Options} {disk : Disk} {threads : Nat} {pool : Pool} {p : Path} {k : Task}
  {before after : List (Path × Task)}

/-! ## Which file goes on -/

lemma step_of_split (split : pool.tasks = before ++ (p, k) :: after) :
    pool.step c o disk before.length =
      ⟨(k.step c o p disk pool.tree).tree, before ++ (p, (k.step c o p disk pool.tree).task) :: after,
        pool.records ++ (k.step c o p disk pool.tree).records⟩ := by
  simp [step, split]

/-- The files that may go on have not come to their end. -/
lemma split_of_ready {i : Nat} (mem : i ∈ pool.ready threads) :
    ∃ before p k after, pool.tasks = before ++ (p, k) :: after ∧ before.length = i ∧
      k.isEnded = false := by
  have found : ∃ e, pool.tasks[i]? = some e ∧ e.2.isEnded = false := by
    have running : i ∈ (pool.tasks.zipIdx.filter (·.1.2.isRunning)).map Prod.snd →
        ∃ e, pool.tasks[i]? = some e ∧ e.2.isEnded = false := by
      intro mem
      obtain ⟨⟨e, j⟩, kept, rfl⟩ := List.mem_map.1 mem
      obtain ⟨here, running⟩ := List.mem_filter.1 kept
      refine ⟨e, List.mem_zipIdx_iff_getElem?.1 here, ?_⟩
      simpa using (Bool.and_eq_true_iff.1 running).2
    unfold ready at mem
    dsimp only at mem
    split at mem
    · rcases List.mem_append.1 mem with mem | mem
      · exact running mem
      · obtain ⟨inside, waits, -⟩ := List.findIdx?_eq_some_iff_getElem.1 (Option.mem_toList.1 mem)
        refine ⟨_, List.getElem?_eq_getElem inside, ?_⟩
        generalize pool.tasks[i].2 = k at waits
        cases k <;> first | rfl | cases waits
    · exact running mem
  obtain ⟨⟨p, k⟩, here, going⟩ := found
  obtain ⟨inside, same⟩ := List.getElem?_eq_some_iff.1 here
  refine ⟨pool.tasks.take i, p, k, pool.tasks.drop (i + 1), ?_, ?_, going⟩
  · rw [← same, List.getElem_cons_drop, List.take_append_drop]
  · rw [List.length_take]
    omega

/-- If no file may go on, all have come to their end. -/
lemma ended_of_ready (resting : pool.ready threads = []) : ∀ e ∈ pool.tasks, e.2.isEnded = true := by
  unfold ready at resting
  dsimp only at resting
  split at resting
  · obtain ⟨idle, waits⟩ := List.append_eq_nil_iff.1 resting
    have begun := List.findIdx?_eq_none_iff.1 (Option.toList_eq_nil_iff.1 waits)
    intro e mem
    obtain ⟨i, here⟩ := List.mem_iff_getElem?.1 mem
    have rests := List.filter_eq_nil_iff.1 (List.map_eq_nil_iff.1 idle) (e, i)
      (List.mem_zipIdx_iff_getElem?.2 here)
    simpa [Task.isRunning, begun e mem] using rests
  · rename_i full
    rw [resting] at full
    simp at full

lemma advance_cases (c : Config) (o : Options) (disk : Disk) (threads choice : Nat) (pool : Pool) :
    ((∀ e ∈ pool.tasks, e.2.isEnded = true) ∧ pool.advance c o disk threads choice = pool) ∨
      ∃ before p k after, pool.tasks = before ++ (p, k) :: after ∧ k.isEnded = false ∧
        pool.advance c o disk threads choice = pool.step c o disk before.length := by
  unfold advance
  cases ready : pool.ready threads with
  | nil => exact .inl ⟨ended_of_ready ready, rfl⟩
  | cons i is =>
    have mem : (i :: is).getD (choice % (is.length + 1)) i ∈ pool.ready threads := by
      have inside : choice % (is.length + 1) < (i :: is).length := Nat.mod_lt _ (Nat.succ_pos _)
      rw [ready, List.getD_eq_getElem?_getD, List.getElem?_eq_getElem inside]
      exact List.getElem_mem inside
    obtain ⟨before, p, k, after, split, place, going⟩ := split_of_ready mem
    exact .inr ⟨before, p, k, after, split, going, by rw [place]⟩

/-! ## The end of a run -/

/-- How many steps the work on all files may still take. -/
def rank (pool : Pool) : Nat :=
  (pool.tasks.map (·.2.rank)).sum

lemma rank_advance (choice : Nat) {n : Nat} (bound : pool.rank ≤ n + 1) :
    (pool.advance c o disk threads choice).rank ≤ n := by
  rcases pool.advance_cases c o disk threads choice with ⟨ended, idle⟩ | ⟨before, p, k, after, split, going, steps⟩
  · have zero : pool.rank = 0 := by
      refine List.sum_eq_zero_iff_forall_eq_nat.2 fun r mem => ?_
      obtain ⟨e, here, rfl⟩ := List.mem_map.1 mem
      exact Task.rank_eq_zero_iff.2 (ended e here)
    rw [idle, zero]
    exact Nat.zero_le n
  · have less := Task.rank_step c o p disk pool.tree going
    rw [steps, step_of_split split]
    simp only [rank, split, List.map_append, List.map_cons, List.sum_append, List.sum_cons] at bound ⊢
    omega

/-- After as many steps as the work may take, it has come to its end. -/
lemma ended_of_run (c : Config) (o : Options) (disk : Disk) (threads : Nat) (schedule : Nat → Nat)
    {n : Nat} (bound : pool.rank ≤ n) :
    ∀ e ∈ (pool.run c o disk threads schedule n).tasks, e.2.isEnded = true := by
  induction n generalizing pool schedule with
  | zero =>
    intro e mem
    have zero := List.sum_eq_zero_iff_forall_eq_nat.1 (Nat.le_zero.1 bound)
    exact Task.rank_eq_zero_iff.1 (zero _ (List.mem_map_of_mem mem))
  | succ n ih => exact ih _ (rank_advance (schedule 0) bound)

lemma rank_start (t : FileTree) (paths : List Path) :
    (start t paths).rank = stepsPerFile * paths.length := by
  induction paths with
  | nil => rfl
  | cons p paths ih =>
    simp only [rank, start, List.map_cons, List.sum_cons, List.length_cons] at ih ⊢
    rw [ih, Nat.mul_succ, Nat.add_comm]
    rfl

/-! ## One thread -/

/-- The pool with one more file that was worked on as a whole. -/
def finish (c : Config) (o : Options) (disk : Disk) (pool : Pool) (p : Path) : Pool :=
  let w := process c o pool.tree p disk
  ⟨w.tree, pool.tasks ++ [(p, .ended w.outcome w.phrases)], pool.records ++ w.records⟩

/-- With one thread the only file that may go on is the first that has not come to its end. -/
lemma ready_of_one (one : threads ≤ 1) (ended : ∀ e ∈ before, e.2.isEnded = true)
    (going : k.isEnded = false) (t : FileTree) (rest : List Path) (records : List Log.Record) :
    (Pool.mk t (before ++ (p, k) :: rest.map (·, .waiting)) records).ready threads =
      [before.length] := by
  have idle : ∀ (tasks : List (Path × Task)) (n : Nat), (∀ e ∈ tasks, e.2.isRunning = false) →
      (tasks.zipIdx n).filter (·.1.2.isRunning) = [] := by
    intro tasks n rests
    refine List.filter_eq_nil_iff.2 fun e mem => ?_
    rw [rests e.1 (List.fst_mem_of_mem_zipIdx mem)]
    exact Bool.false_ne_true
  have first : (before.zipIdx 0).filter (·.1.2.isRunning) = [] :=
    idle before 0 fun e mem => by simp [Task.isRunning, ended e mem]
  have last : ((rest.map fun p => (p, Task.waiting)).zipIdx (before.length + 1)).filter
      (·.1.2.isRunning) = [] := by
    refine idle _ _ fun e mem => ?_
    obtain ⟨q, -, rfl⟩ := List.mem_map.1 mem
    rfl
  have begun : before.findIdx? (·.2.isWaiting) = none := by
    refine List.findIdx?_eq_none_iff.2 fun e mem => ?_
    have finished := ended e mem
    generalize e.2 = k at finished
    cases k <;> first | rfl | cases finished
  have only : max 1 threads = 1 := Nat.max_eq_left one
  unfold ready
  simp only [List.zipIdx_append, List.zipIdx_cons, List.filter_append, List.filter_cons, first, last,
    List.nil_append, Nat.zero_add, only, List.findIdx?_append, begun, List.findIdx?_cons]
  cases k with
  | waiting => simp [Task.isRunning, Task.isWaiting]
  | inspected work => rfl
  | changed text q => rfl
  | kept text q => rfl
  | ended outcome phrases => cases going

lemma advance_of_one (one : threads ≤ 1) (ended : ∀ e ∈ before, e.2.isEnded = true)
    (going : k.isEnded = false) (t : FileTree) (rest : List Path) (records : List Log.Record)
    (choice : Nat) :
    (Pool.mk t (before ++ (p, k) :: rest.map (·, .waiting)) records).advance c o disk threads choice =
      ⟨(k.step c o p disk t).tree,
        before ++ (p, (k.step c o p disk t).task) :: rest.map (·, .waiting),
        records ++ (k.step c o p disk t).records⟩ := by
  rw [advance, ready_of_one one ended going]
  simp only [List.length_nil, Nat.zero_add, Nat.mod_one]
  exact step_of_split rfl

lemma run_of_ended (ended : ∀ e ∈ pool.tasks, e.2.isEnded = true) (schedule : Nat → Nat) (n : Nat) :
    pool.run c o disk threads schedule n = pool := by
  induction n generalizing schedule with
  | zero => rfl
  | succ n ih =>
    rcases pool.advance_cases c o disk threads (schedule 0) with ⟨-, idle⟩ | ⟨before, p, k, after, split, going, -⟩
    · rw [run, idle]
      exact ih _
    · have finished := ended (p, k) (by rw [split]; simp)
      rw [going] at finished
      cases finished

/-- With one thread, the work on the first file goes on to its end, and then the next one comes. -/
lemma run_one {t u : FileTree} {records base : List Log.Record} {rest : List Path} {n : Nat}
    (one : threads ≤ 1) (ended : ∀ e ∈ before, e.2.isEnded = true) (going : k.isEnded = false)
    (stage : Task.Stage c o disk t p u k records) (schedule : Nat → Nat)
    (bound : k.rank + stepsPerFile * rest.length ≤ n) :
    (Pool.mk u (before ++ (p, k) :: rest.map (·, .waiting)) (base ++ records)).run c o disk threads
        schedule n =
      (p :: rest).foldl (finish c o disk) ⟨t, before, base⟩ := by
  induction n generalizing before p k t u records base rest schedule with
  | zero =>
    have positive := Task.rank_eq_zero_iff.1 (show k.rank = 0 by omega)
    rw [going] at positive
    cases positive
  | succ n ih =>
    have less := Task.rank_step c o p disk u going
    have next := stage.step
    rw [run, advance_of_one one ended going, List.append_assoc]
    cases finished : (k.step c o p disk u).task.isEnded with
    | false => exact ih ended finished next _ (by omega)
    | true =>
      -- this file is done; the next one is at its start
      have done : Pool.mk (k.step c o p disk u).tree
          (before ++ [(p, (k.step c o p disk u).task)])
          (base ++ (records ++ (k.step c o p disk u).records)) =
          finish c o disk ⟨t, before, base⟩ p := by
        generalize k.step c o p disk u = s at next finished
        generalize records ++ s.records = log at next
        obtain ⟨tree, task, more⟩ := s
        cases next with
        | ended whole => simp only [finish, whole]
        | _ => cases finished
      have all : ∀ e ∈ before ++ [(p, (k.step c o p disk u).task)], e.2.isEnded = true := by
        intro e mem
        rcases List.mem_append.1 mem with mem | mem
        · exact ended e mem
        · rw [List.mem_singleton.1 mem]
          exact finished
      cases rest with
      | nil =>
        rw [List.foldl_cons, ← done]
        exact run_of_ended all _ n
      | cons q rest =>
        rw [List.length_cons, Nat.mul_succ] at bound
        have enough : Task.waiting.rank + stepsPerFile * rest.length ≤ n := by
          rw [Task.rank]
          omega
        have following := fun t base => @ih q .waiting _ t t [] base rest all rfl .waiting
          (fun n => schedule (n + 1)) enough
        rw [List.foldl_cons, ← done, List.append_cons]
        simpa only [List.append_nil, List.map_cons] using following _ _

end Pool

/-! ## Files that are apart -/

/-- The work on one file alone changes neither the file that another path leads to, unless that path
is a link, nor, the bytes of files aside, any place that the work on the other file looks at. -/
structure Spares (c : Config) (o : Options) (disk : Disk) (t : FileTree) (p q : Path) : Prop where
  file : ∀ loc, (process c o t p disk).tree.node? loc ≠ t.node? loc →
    t.isLink q = false → t.locate true q ≠ .ok loc
  place : ∀ loc, (process c o t p disk).tree.node? loc ≠ t.node? loc →
    (∀ bytes, t.node? loc ≠ some (.file bytes)) → loc ∉ looks t q

/-- Two files neither of which the work on the other one has to do with. -/
def Apart (c : Config) (o : Options) (disk : Disk) (t : FileTree) (p q : Path) : Prop :=
  Spares c o disk t p q ∧ Spares c o disk t q p

lemma Apart.symm {c : Config} {o : Options} {disk : Disk} {t : FileTree} {p q : Path}
    (apart : Apart c o disk t p q) : Apart c o disk t q p :=
  And.symm apart

namespace Pool

variable {t : FileTree} {paths : List Path}

/-- A pool in which the work on each file has come as far as it would alone, with all changes side by
side in one tree. -/
structure Merged (c : Config) (o : Options) (disk : Disk) (t : FileTree) (paths : List Path)
    (pool : Pool) : Prop where
  paths : pool.tasks.map Prod.fst = paths
  working : pool.tree.working = t.working
  stage : ∀ e ∈ pool.tasks, (e.2.own c o disk t e.1).working = t.working ∧
    ∃ records, Task.Stage c o disk t e.1 (e.2.own c o disk t e.1) e.2 records
  held : ∀ e ∈ pool.tasks, ∀ loc, (e.2.own c o disk t e.1).node? loc ≠ t.node? loc →
    pool.tree.node? loc = (e.2.own c o disk t e.1).node? loc
  made : ∀ loc, pool.tree.node? loc ≠ t.node? loc →
    (∃ bytes, pool.tree.node? loc = some (.file bytes)) ∧
      ∃ e ∈ pool.tasks, (e.2.own c o disk t e.1).node? loc = pool.tree.node? loc

lemma merged_start (c : Config) (o : Options) (disk : Disk) (t : FileTree) (paths : List Path) :
    Merged c o disk t paths (start t paths) where
  paths := by simp [start, Function.comp_def]
  working := rfl
  stage := by
    intro e mem
    obtain ⟨p, -, rfl⟩ := List.mem_map.1 mem
    exact ⟨rfl, [], .waiting⟩
  held := by
    intro e mem loc moved
    obtain ⟨p, -, rfl⟩ := List.mem_map.1 mem
    exact absurd rfl moved
  made := fun loc moved => absurd rfl moved

section Step

variable (merged : Merged c o disk t paths pool)
  (split : pool.tasks = before ++ (p, k) :: after)
  (spares : ∀ e ∈ before ++ after, Spares c o disk t e.1 p)

include split

omit merged spares in
lemma mem_iff_of_split (e : Path × Task) :
    e ∈ pool.tasks ↔ e = (p, k) ∨ e ∈ before ++ after := by
  rw [split]
  exact List.perm_middle.mem_iff.trans List.mem_cons

include merged

lemma Merged.made_cases {loc : Location} (moved : pool.tree.node? loc ≠ t.node? loc) :
    (k.own c o disk t p).node? loc = pool.tree.node? loc ∨
      ∃ e ∈ before ++ after, (e.2.own c o disk t e.1).node? loc = pool.tree.node? loc := by
  obtain ⟨-, e, here, eq⟩ := merged.made loc moved
  rcases (mem_iff_of_split split e).1 here with rfl | other
  · exact .inl eq
  · exact .inr ⟨e, other, eq⟩

/-- How a pool changes when the work on one of its files goes on. -/
lemma Merged.replace {k' : Task} {t' : FileTree} {records : List Log.Record}
    (working : t'.working = t.working)
    (stage : (k'.own c o disk t p).working = t.working ∧
      ∃ records, Task.Stage c o disk t p (k'.own c o disk t p) k' records)
    (mine : ∀ loc, (k'.own c o disk t p).node? loc ≠ t.node? loc →
      t'.node? loc = (k'.own c o disk t p).node? loc)
    (others : ∀ e ∈ before ++ after, ∀ loc, (e.2.own c o disk t e.1).node? loc ≠ t.node? loc →
      t'.node? loc = (e.2.own c o disk t e.1).node? loc)
    (made : ∀ loc, t'.node? loc ≠ t.node? loc → (∃ bytes, t'.node? loc = some (.file bytes)) ∧
      ((k'.own c o disk t p).node? loc = t'.node? loc ∨
        ∃ e ∈ before ++ after, (e.2.own c o disk t e.1).node? loc = t'.node? loc)) :
    Merged c o disk t paths ⟨t', before ++ (p, k') :: after, records⟩ := by
  have split' : (Pool.mk t' (before ++ (p, k') :: after) records).tasks =
      before ++ (p, k') :: after := rfl
  constructor
  · rw [← merged.paths, split]
    simp
  · exact working
  · intro e mem
    rcases (mem_iff_of_split split' e).1 mem with rfl | other
    · exact stage
    · exact merged.stage e ((mem_iff_of_split split e).2 (.inr other))
  · intro e mem
    rcases (mem_iff_of_split split' e).1 mem with rfl | other
    · exact mine
    · exact others e other
  · intro loc moved
    obtain ⟨file, own | ⟨e, other, own⟩⟩ := made loc moved
    · exact ⟨file, _, (mem_iff_of_split split' _).2 (.inl rfl), own⟩
    · exact ⟨file, e, (mem_iff_of_split split' e).2 (.inr other), own⟩

/-- What differs from the tree that a file alone would see was changed for another file. -/
lemma Merged.other_of_ne {loc : Location}
    (differs : pool.tree.node? loc ≠ (k.own c o disk t p).node? loc) :
    (k.own c o disk t p).node? loc = t.node? loc ∧
      (∃ bytes, pool.tree.node? loc = some (.file bytes)) ∧
      ∃ e ∈ before ++ after, (process c o t e.1 disk).tree.node? loc ≠ t.node? loc := by
  have mem := (mem_iff_of_split split _).2 (.inl rfl)
  have same : (k.own c o disk t p).node? loc = t.node? loc := by
    by_contra moved
    exact differs (merged.held _ mem loc moved)
  have moved : pool.tree.node? loc ≠ t.node? loc := same ▸ differs
  rcases merged.made_cases split moved with mine | ⟨e, other, eq⟩
  · exact absurd mine.symm differs
  · obtain ⟨-, records, stage⟩ := merged.stage e ((mem_iff_of_split split _).2 (.inr other))
    have whole := stage.node?_process (eq ▸ moved)
    exact ⟨same, (merged.made loc moved).1, e, other, by rwa [whole, eq]⟩

include spares

/-- The next step of the work on a file goes as it would alone. -/
lemma Merged.parallel :
    Stepped.Parallel (Touches t p) (k.own c o disk t p) pool.tree
      (k.step c o p disk (k.own c o disk t p)) (k.step c o p disk pool.tree) := by
  have mem := (mem_iff_of_split split _).2 (.inl rfl)
  obtain ⟨working, records, stage⟩ := merged.stage _ mem
  refine stage.parallel ⟨merged.working.trans working.symm, fun loc seen => ?_⟩ ?_
  · by_cases differs : pool.tree.node? loc = (k.own c o disk t p).node? loc
    · rw [differs]
      exact .same _
    · obtain ⟨same, ⟨bytes, file⟩, e, other, moved⟩ := merged.other_of_ne split differs
      rw [same, file]
      by_cases old : ∃ before, t.node? loc = some (.file before)
      · obtain ⟨before, old⟩ := old
        rw [old]
        exact .files before bytes
      · exact absurd (stage.mem_looks seen)
          ((spares e other).place loc moved fun b stands => old ⟨b, stands⟩)
  · intro alone direct loc leads
    by_contra differs
    obtain ⟨-, -, e, other, moved⟩ := merged.other_of_ne split (alone ▸ differs)
    exact (spares e other).file loc moved direct leads

/-- No other file was changed in a place that the work on this one may touch. -/
lemma Merged.own_eq_of_touches {loc : Location} (touches : Touches t p loc)
    {e : Path × Task} (other : e ∈ before ++ after) :
    (e.2.own c o disk t e.1).node? loc = t.node? loc := by
  by_contra moved
  obtain ⟨-, records, stage⟩ := merged.stage e ((mem_iff_of_split split _).2 (.inr other))
  have whole : (process c o t e.1 disk).tree.node? loc ≠ t.node? loc := by
    rwa [stage.node?_process moved]
  cases touches with
  | file direct leads stands => exact (spares e other).file loc whole direct leads
  | backup read seen free =>
    exact (spares e other).place loc whole free
      (mem_looks_of_readText read (List.mem_append_left _ seen))

/-- A step of the work on a file keeps the changes side by side. -/
lemma Merged.step_at : Merged c o disk t paths (pool.step c o disk before.length) := by
  have mem := (mem_iff_of_split split _).2 (.inl rfl)
  obtain ⟨working, records, stage⟩ := merged.stage _ mem
  have next := stage.step
  have own := next.eq_own
  have parallel := merged.parallel split spares
  rw [step_of_split split]
  generalize k.step c o p disk (k.own c o disk t p) = s at parallel next own
  generalize k.step c o p disk pool.tree = s' at parallel
  cases parallel with
  | still k' log =>
    replace own : k.own c o disk t p = k'.own c o disk t p := own
    refine merged.replace split merged.working ⟨own ▸ working, _, own ▸ next⟩ ?_ ?_ ?_
    · rw [← own]
      exact merged.held _ mem
    · intro e other
      exact merged.held e ((mem_iff_of_split split _).2 (.inr other))
    · rw [← own]
      exact fun loc moved => ⟨(merged.made loc moved).1, merged.made_cases split moved⟩
  | @put place bytes k' log touches below =>
    replace own : (k.own c o disk t p).put place (.file bytes) = k'.own c o disk t p := own
    refine merged.replace split merged.working ⟨own ▸ working, _, own ▸ next⟩ ?_ ?_ ?_
    · rw [← own]
      intro loc moved
      rw [FileTree.node?_put below] at moved ⊢
      rw [FileTree.node?_put below]
      split
      · rfl
      · rename_i apart
        rw [if_neg apart] at moved
        exact merged.held _ mem loc moved
    · intro e other loc moved
      refine (FileTree.node?_put_of_ne below _ ?_).trans
        (merged.held e ((mem_iff_of_split split _).2 (.inr other)) loc moved)
      rintro rfl
      exact moved (merged.own_eq_of_touches split spares touches other)
    · rw [← own]
      intro loc moved
      rw [FileTree.node?_put below] at moved ⊢
      rw [FileTree.node?_put below]
      split
      · exact ⟨⟨bytes, rfl⟩, .inl rfl⟩
      · rename_i apart
        rw [if_neg apart] at moved
        exact ⟨(merged.made loc moved).1, merged.made_cases split moved⟩

end Step

/-- A run of a pool keeps the changes side by side, if its files are apart. -/
lemma Merged.run (apart : paths.Pairwise (Apart c o disk t)) (schedule : Nat → Nat) (n : Nat)
    (merged : Merged c o disk t paths pool) :
    Merged c o disk t paths (pool.run c o disk threads schedule n) := by
  induction n generalizing pool schedule with
  | zero => exact merged
  | succ n ih =>
    rw [Pool.run]
    refine ih _ ?_
    rcases pool.advance_cases c o disk threads (schedule 0) with
      ⟨-, idle⟩ | ⟨before, p, k, after, split, -, steps⟩
    · rw [idle]
      exact merged
    · rw [steps]
      refine merged.step_at split fun e other => ?_
      rw [← merged.paths, split, List.map_append, List.map_cons,
        List.pairwise_middle Apart.symm, List.pairwise_cons, ← List.map_append] at apart
      exact (apart.1 e.1 (List.mem_map_of_mem other)).2

/-- When all work has come to its end, each file has come to what it comes to alone. -/
lemma Merged.tasks_eq (merged : Merged c o disk t paths pool)
    (ended : ∀ e ∈ pool.tasks, e.2.isEnded = true) :
    pool.tasks = paths.map fun p =>
      (p, .ended (process c o t p disk).outcome (process c o t p disk).phrases) := by
  rw [← merged.paths, List.map_map]
  refine (List.map_id' pool.tasks).symm.trans (List.map_congr_left fun e mem => ?_)
  obtain ⟨p, k⟩ := e
  obtain ⟨-, records, stage⟩ := merged.stage _ mem
  have finished := ended _ mem
  dsimp only at stage finished
  generalize k.own c o disk t p = u at stage
  cases stage with
  | ended whole =>
    cases whole
    rfl
  | _ => cases finished

/-- What one pool has changed, another one with the same files has changed in the same way. -/
lemma Merged.node?_of_ne {paths' : List Path} {pool' : Pool} {loc : Location}
    (merged : Merged c o disk t paths pool) (merged' : Merged c o disk t paths' pool')
    (ended : ∀ e ∈ pool.tasks, e.2.isEnded = true) (ended' : ∀ e ∈ pool'.tasks, e.2.isEnded = true)
    (among : paths ⊆ paths') (moved : pool.tree.node? loc ≠ t.node? loc) :
    pool'.tree.node? loc = pool.tree.node? loc := by
  obtain ⟨-, e, mem, own⟩ := merged.made loc moved
  rw [merged.tasks_eq ended] at mem
  obtain ⟨p, here, rfl⟩ := List.mem_map.1 mem
  rw [← own] at moved ⊢
  refine merged'.held (p, .ended (process c o t p disk).outcome (process c o t p disk).phrases) ?_
    loc moved
  rw [merged'.tasks_eq ended']
  exact List.mem_map.2 ⟨p, among here, rfl⟩

lemma Merged.node?_eq {paths' : List Path} {pool' : Pool}
    (merged : Merged c o disk t paths pool) (merged' : Merged c o disk t paths' pool')
    (ended : ∀ e ∈ pool.tasks, e.2.isEnded = true) (ended' : ∀ e ∈ pool'.tasks, e.2.isEnded = true)
    (same : ∀ p, p ∈ paths ↔ p ∈ paths') (loc : Location) :
    pool'.tree.node? loc = pool.tree.node? loc := by
  by_cases moved : pool.tree.node? loc = t.node? loc
  · by_cases moved' : pool'.tree.node? loc = t.node? loc
    · exact moved'.trans moved.symm
    · exact (merged'.node?_of_ne merged ended' ended (fun p mem => (same p).2 mem) moved').symm
  · exact merged.node?_of_ne merged' ended ended' (fun p mem => (same p).1 mem) moved

end Pool

end Source

end Phrasebook
