import Mathlib.Tactic.Lemma
import Phrasebook.Command.Session

/-!
# What sessions do to files

`Session.Runs m t r u` says that the session `m` returns `r` and leaves the files `u` wherever it finds the
files `t`, whatever the level of the log is and whatever was logged and printed before. There is a rule for
each step of a session, and one for steps in a row.
-/

namespace Phrasebook.Command

namespace Session

variable {α β : Type} {t u v : FileTree} {m : Session α} {k : α → Session β} {r : Except Ending β}

/-- On every console with the files `t`, a session returns `r` and leaves the files `u`. -/
def Runs (m : Session α) (t : FileTree) (r : Except Ending α) (u : FileTree) : Prop :=
  ∀ c : Console, c.tree = t → (m.run.run c).1 = r ∧ (m.run.run c).2.tree = u

/-- Two steps in a row: the second is taken only if the first returns. -/
lemma run_bind (m : Session α) (k : α → Session β) (c : Console) :
    (m >>= k).run.run c = match m.run.run c with
      | (.ok a, c) => (k a).run.run c
      | (.error e, c) => (.error e, c) := by
  change (match m.run.run c with | (x, c) => (ExceptT.bindCont k x).run c) = _
  generalize m.run.run c = ran
  obtain ⟨x, c⟩ := ran
  cases x with
  | error e => rfl
  | ok a => rfl

namespace Runs

/-- A session that returns at once leaves the files as they are. -/
lemma pure (a : α) : Runs (Pure.pure a) t (.ok a) t :=
  fun _ same => ⟨rfl, same⟩

/-- The second step finds the files that the first leaves. -/
lemma bind {a : α} (first : Runs m t (.ok a) u) (rest : Runs (k a) u r v) : Runs (m >>= k) t r v := by
  intro c same
  obtain ⟨returned, left⟩ := first c same
  rw [run_bind, show m.run.run c = (.ok a, (m.run.run c).2) from Prod.ext returned rfl]
  exact rest _ left

/-- A step that ends the session ends it for all that follow. -/
lemma stop {e : Ending} (first : Runs m t (.error e) u) : Runs (m >>= k) t (.error e) u := by
  intro c same
  obtain ⟨returned, left⟩ := first c same
  rw [run_bind, show m.run.run c = (.error e, (m.run.run c).2) from Prod.ext returned rfl]
  exact ⟨rfl, left⟩

/-- Steps that leave the files alone do so in a row. -/
lemma forM {step : β → Session Unit} (each : ∀ b, Runs (step b) t (.ok ()) t) (bs : List β) :
    Runs (bs.forM step) t (.ok ()) t := by
  induction bs with
  | nil => exact pure ()
  | cons b bs ih => exact (each b).bind ih

/-! ## The steps of sessions -/

/-- Printing a line leaves the files alone. -/
lemma print (line : Text) : Runs (Session.print line) t (.ok ()) t :=
  fun _ same => ⟨rfl, same⟩

/-- Printing lines leaves the files alone. -/
lemma printAll (lines : List Text) : Runs (Session.printAll lines) t (.ok ()) t :=
  forM print lines

/-- The level of the log is no matter of the files. -/
lemma setLevel (name : Option Text) : Runs (Session.setLevel name) t (.ok ()) t :=
  fun _ same => ⟨rfl, same⟩

/-- A record leaves the files alone, whether the level keeps it or not. -/
lemma log (record : Log.Record) : Runs (Session.log record) t (.ok ()) t := by
  intro c same
  refine ⟨rfl, ?_⟩
  change (if Log.isKept c.level record.severity then _ else c).tree = t
  split
  · exact same
  · exact same

/-- Records leave the files alone. -/
lemma logAll (records : List Log.Record) : Runs (Session.logAll records) t (.ok ()) t :=
  forM log records

/-- A failure ends the session with the files as they are. -/
lemma fail (f : Failure) : Runs (Session.fail f : Session α) t (.error (.failed f)) t :=
  fun _ same => ⟨rfl, same⟩

/-- A refusal is logged and ends the session with code 1. -/
lemma refuse (message : Text) : Runs (Session.refuse message : Session α) t (.error (.exit 1)) t :=
  (log _).bind fun _ same => ⟨rfl, same⟩

/-- The files that a session looks at are those it finds. -/
lemma tree : Runs Session.tree t (.ok t) t := by
  rintro c rfl
  exact ⟨rfl, rfl⟩

/-- A path that the files resolve is resolved. -/
lemma resolve {p q : Path} (found : t.resolve p = .ok q) : Runs (Session.resolve p) t (.ok q) t := by
  refine tree.bind ?_
  rw [found]
  exact pure q

/-- A loop of links is a failure. -/
lemma resolve_loop {p : Path} {f : Files.LinkLoop} (loop : t.resolve p = .error f) :
    Runs (Session.resolve p) t (.error (.failed (.loop f))) t := by
  refine tree.bind ?_
  rw [loop]
  exact fail _

/-- Looking up a path that nothing obstructs returns. -/
lemma lookUp {p : Path} (free : t.obstacle? true p = none) : Runs (Session.lookUp p) t (.ok ()) t := by
  refine tree.bind ?_
  rw [FileTree.incident?, free]
  exact pure ()

/-- An obstacle on a path is a failure that names the path. -/
lemma lookUp_obstacle {p : Path} {f : Files.Fault} (obstacle : t.obstacle? true p = some f) :
    Runs (Session.lookUp p) t (.error (.failed (.file ⟨f, [p]⟩))) t := by
  refine tree.bind ?_
  rw [FileTree.incident?, obstacle]
  exact fail _

/-- An operation on the files changes them, and its incident is returned. -/
lemma change (op : FileTree → FileTree × Option Files.Incident) :
    Runs (Session.change op) t (.ok (op t).2) (op t).1 := by
  rintro c rfl
  exact ⟨rfl, rfl⟩

/-- Storing a mapping does what storing it in the files does. -/
lemma store (p : Path) (mapping : Mapping) (sort : Bool) :
    Runs (Session.store p mapping sort) t (.ok (Mapping.store t p mapping sort).2)
      (Mapping.store t p mapping sort).1 := by
  refine (change _).bind ?_
  generalize Mapping.store t p mapping sort = stored
  obtain ⟨u, fault⟩ := stored
  cases fault with
  | some f => exact pure _
  | none => exact (log _).bind (pure _)

end Runs

/-- The configuration that a session gets. -/
def configOf (a : Arguments) (t : FileTree) : Except Ending Config :=
  match a.word? "--config" with
  | none =>
    match Config.loadStandard t.system with
    | .ok l => .ok l.config
    | .error i => .error (.failed (.file i))
  | some path =>
    match Config.load t.system (.ofText path) with
    | .ok l => .ok l.config
    | .error (.obstacle f) => .error (.failed (.file ⟨f, [.ofText path]⟩))
    | .error _ => .error (.exit 1)

/-- Reading the configuration leaves the files alone. -/
lemma Runs.config (a : Arguments) (t : FileTree) : Runs (Session.config a) t (configOf a t) t := by
  unfold Session.config configOf
  cases a.word? "--config" with
  | none =>
    refine tree.bind ?_
    cases Config.loadStandard t.system with
    | ok l => exact (logAll _).bind (pure _)
    | error f => exact fail _
  | some path =>
    dsimp only
    refine tree.bind ?_
    cases Config.load t.system (.ofText path) with
    | ok l => exact (logAll _).bind (pure _)
    | error f =>
      cases f with
      | obstacle f => exact fail _
      | _ => exact refuse _

end Session

end Phrasebook.Command
