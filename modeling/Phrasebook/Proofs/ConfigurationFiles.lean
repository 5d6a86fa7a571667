import Mathlib
import Phrasebook.Config.File
import Phrasebook.Proofs.FileTrees

/-!
# Configuration files, named or found

A configuration file that is named and one that is found in the working folder are read in the same
way; only what a fault leads to differs (`loadStandard_of_read`, `loadStandard_of_fault`). This holds
for whatever a system answers (`loadsAlike_iff`): a file that may not be looked up, and a working
folder that is gone, are all that sets the two apart. In a file tree a path cannot be looked up only
where a name on its way is too long for anything to have it (`FileTree.fault_of_stat`), and since the
name of the configuration file is short, that takes a link (`stat_standardPath`).
-/

namespace Phrasebook

namespace FileTree

open Files

variable {t : FileTree} {follow : Bool} {p : Path}

/-- Names lead nowhere, or one of them is too long. -/
lemma fault_of_walk {links : Nat} {here : Location} {names : List Text} {f : Fault}
    (failed : t.walk follow links here names = .error f) :
    f.isAbsence = true ∨ f = .nameTooLong := by
  induction links, here, names using FileTree.walk.induct t follow with
  | case1 links here =>
    rw [walk.eq_1] at failed
    cases failed
  | case2 links here names ih =>
    rw [walk_dots] at failed
    exact ih failed
  | case3 links here name names named _ absent =>
    rw [walk_of_absent named absent] at failed
    cases failed
    unfold absence
    split
    · exact .inr rfl
    · exact .inl rfl
  | case4 links here name names named _ folder ih =>
    rw [walk_of_folder named folder] at failed
    exact ih failed
  | case5 links here name names named _ bytes file last =>
    rw [walk_of_file named file, if_pos last] at failed
    cases failed
  | case6 links here name names named _ bytes file inner =>
    rw [walk_of_file named file, if_neg inner] at failed
    cases failed
    exact .inl rfl
  | case7 links here name names named _ target link last =>
    rw [walk.eq_2, if_neg named] at failed
    simp only [show t.node? (here ++ [name]) = some (.link target) from link, last, if_true] at failed
    cases failed
  | case8 here name names named _ target link inner =>
    rw [walk_of_link_loop named link (Bool.eq_false_iff.2 inner)] at failed
    cases failed
    exact .inl rfl
  | case9 here name names named _ target link inner links p ih =>
    rw [walk_of_link named link links (Bool.eq_false_iff.2 inner)] at failed
    exact ih failed

/-- What a path leads to is told, or it leads nowhere, or a name on its way is too long. -/
lemma fault_of_stat {f : Fault} (failed : t.stat p = .error f) :
    f.isAbsence = true ∨ f = .nameTooLong := by
  unfold stat at failed
  split at failed
  · rename_i located
    cases failed
    exact fault_of_walk located
  · split at failed
    · cases failed
    · cases failed
      exact .inl rfl

/-- A name on the way of a path is too long exactly if the walk along it finds so. -/
lemma stat_eq_nameTooLong_iff :
    t.stat p = .error .nameTooLong ↔ t.locate true p = .error .nameTooLong := by
  unfold stat
  cases t.locate true p with
  | error f => simp
  | ok loc =>
    dsimp only
    cases t.node? loc <;> simp

/-- The working folder is told exactly if a folder stands at its place. -/
lemma workingFolder_eq_ok_iff {folder : Path} :
    t.workingFolder = .ok folder ↔ t.node? t.working = some .folder ∧ folder = t.workingPath := by
  unfold workingFolder
  split
  · rename_i there
    simp [there, eq_comm]
  · rename_i gone
    constructor
    · intro told
      cases told
    · rintro ⟨there, -⟩
      exact absurd there gone

end FileTree

/-- A system tells the same of two paths. -/
structure Files.System.SameAt (s : Files.System) (p q : Path) : Prop where
  stat : s.stat p = s.stat q
  read : s.read p = s.read q

/-- A tree tells the same of two paths that lead to the same place. -/
lemma FileTree.sameAt_of_locate {t : FileTree} {p q : Path}
    (same : t.locate true p = t.locate true q) : t.system.SameAt p q := by
  have stat : t.stat p = t.stat q := by
    rw [FileTree.stat, FileTree.stat, same]
  refine ⟨stat, ?_⟩
  show t.readBytes p = t.readBytes q
  rw [FileTree.readBytes, FileTree.readBytes, stat]

namespace Config

variable {s : Files.System} {t : FileTree} {p q folder : Path}

/-- The path at which a configuration file is looked for in a tree when none is named. -/
def standardPath (t : FileTree) : Path :=
  t.workingPath.child fileName

/-- Parsing a text meets no path that cannot be looked up. -/
lemma parse_ne_obstacle (text : Text) (f : Files.Fault) : parse text ≠ .error (.obstacle f) := by
  unfold parse
  intro failed
  split at failed
  · cases failed
  · split at failed
    · cases failed
    · split at failed
      · cases failed
      · cases failed
    · cases failed

/-- A file is not looked up exactly if the system answers with a fault that is no absence. -/
lemma readFile_eq_obstacle_iff {f : Files.Fault} :
    readFile s p = .error (.obstacle f) ↔ s.stat p = .error f ∧ f.isAbsence = false := by
  unfold readFile Files.System.exists?
  cases s.stat p with
  | error g =>
    cases absent : g.isAbsence with
    | true =>
      simp only [absent, if_true]
      constructor
      · intro failed
        cases failed
      · rintro ⟨same, other⟩
        cases same
        cases absent.symm.trans other
    | false =>
      simp only [absent, Bool.false_eq_true, if_false]
      constructor
      · intro failed
        cases failed
        exact ⟨rfl, absent⟩
      · rintro ⟨same, -⟩
        cases same
        rfl
  | ok n =>
    dsimp only
    constructor
    · intro failed
      split at failed
      · cases failed
      · exact absurd failed (parse_ne_obstacle _ f)
    · rintro ⟨same, -⟩
      cases same

/-- What is read depends only on what the system tells of a path. -/
lemma readFile_congr (same : s.SameAt q p) : readFile s q = readFile s p := by
  rw [readFile, readFile, Files.System.exists?, Files.System.exists?, same.stat,
    Files.System.readText, Files.System.readText, same.read]

/-- Loading a named file gives its configuration, its path and one record. -/
lemma load_eq_ok_iff {l : Loaded} :
    load s p = .ok l ↔ ∃ c, readFile s p = .ok c ∧ l = ⟨c, some p, [loadedRecord p]⟩ := by
  unfold load
  cases readFile s p with
  | error f => simp
  | ok c => simp [eq_comm]

/-- Loading a named file fails with what reading it fails with. -/
lemma load_eq_error_iff {f : FileFault} : load s p = .error f ↔ readFile s p = .error f := by
  unfold load
  cases readFile s p with
  | error g => simp
  | ok c => simp

/-- A file that is found and right gives its configuration. -/
lemma loadStandard_of_read {c : Config} (there : s.working = .ok folder)
    (read : readFile s (folder.child fileName) = .ok c) :
    loadStandard s = .ok ⟨c, some (folder.child fileName), [loadedRecord (folder.child fileName)]⟩ := by
  rw [loadStandard, there]
  simp only [read]

/-- A file that is found but cannot be used leaves the defaults, with a warning unless it is
missing. -/
lemma loadStandard_of_fault {f : FileFault} (there : s.working = .ok folder)
    (failed : readFile s (folder.child fileName) = .error f) (clear : ∀ g, f ≠ .obstacle g) :
    ∃ records, loadStandard s = .ok ⟨standard, none, records⟩ := by
  rw [loadStandard, there]
  simp only [failed]
  cases f with
  | obstacle g => exact absurd rfl (clear g)
  | missing => exact ⟨_, rfl⟩
  | unreadable g => exact ⟨_, rfl⟩
  | malformed message => exact ⟨_, rfl⟩
  | notObject => exact ⟨_, rfl⟩
  | invalid g => exact ⟨_, rfl⟩

/-- A file that may not be looked up is a fault when none is named, too. -/
lemma loadStandard_of_obstacle {f : Files.Fault} (there : s.working = .ok folder)
    (failed : readFile s (folder.child fileName) = .error (.obstacle f)) :
    loadStandard s = .error ⟨f, [folder.child fileName]⟩ := by
  rw [loadStandard, there]
  simp only [failed]

/-- Without a working folder there is no path to look for a file at. -/
lemma loadStandard_of_gone {f : Files.Fault} (gone : s.working = .error f) :
    loadStandard s = .error ⟨f, []⟩ := by
  rw [loadStandard, gone]

/-- Loading the file at a path and loading without a path agree: the first refuses a file only for
what the file is, the second gives the same configuration then and the defaults otherwise. -/
structure LoadsAlike (s : Files.System) (q : Path) : Prop where
  refuses : ∀ f, load s q ≠ .error (.obstacle f)
  returns : ∀ l, load s q = .ok l → ∃ r, loadStandard s = .ok r ∧ r.config = l.config ∧
    ∀ folder, s.working = .ok folder → q = folder.child fileName → r = l
  falls : ∀ f, load s q = .error f → ∃ records, loadStandard s = .ok ⟨standard, none, records⟩

/-- If both ways of loading agree, then loading without a path ends well. -/
lemma LoadsAlike.ends (alike : LoadsAlike s q) : ∃ l, loadStandard s = .ok l := by
  cases loaded : load s q with
  | ok l =>
    obtain ⟨r, standard, -⟩ := alike.returns l loaded
    exact ⟨r, standard⟩
  | error f =>
    obtain ⟨records, standard⟩ := alike.falls f loaded
    exact ⟨_, standard⟩

/-- Where the working folder is there and the file may be looked up, both ways of loading agree. -/
lemma loadsAlike_of_clear (there : s.working = .ok folder)
    (same : s.SameAt q (folder.child fileName))
    (clear : ∀ f, s.stat q = .error f → f.isAbsence = true) : LoadsAlike s q := by
  have free : ∀ f, readFile s q ≠ .error (.obstacle f) := by
    intro f failed
    obtain ⟨answer, other⟩ := readFile_eq_obstacle_iff.1 failed
    cases other.symm.trans (clear f answer)
  constructor
  case refuses =>
    intro f failed
    exact free f (load_eq_error_iff.1 failed)
  case returns =>
    intro l loaded
    obtain ⟨c, read, rfl⟩ := load_eq_ok_iff.1 loaded
    refine ⟨_, loadStandard_of_read there (readFile_congr same ▸ read), rfl, ?_⟩
    rintro folder' there' rfl
    cases there.symm.trans there'
    rfl
  case falls =>
    intro f failed
    have read := load_eq_error_iff.1 failed
    exact loadStandard_of_fault there (readFile_congr same ▸ read)
      fun g obstacle => free g (obstacle ▸ read)

/-- Both ways of loading agree exactly if the system tells the working folder and does not keep the
file from being looked up. -/
lemma loadsAlike_iff (same : ∀ folder, s.working = .ok folder → s.SameAt q (folder.child fileName)) :
    LoadsAlike s q ↔
      (∃ folder, s.working = .ok folder) ∧ ∀ f, s.stat q = .error f → f.isAbsence = true := by
  constructor
  · intro alike
    constructor
    · cases there : s.working with
      | ok folder => exact ⟨folder, rfl⟩
      | error f =>
        obtain ⟨l, ended⟩ := alike.ends
        cases (loadStandard_of_gone there).symm.trans ended
    · intro f answer
      refine Bool.of_not_eq_false fun other => ?_
      exact alike.refuses f (load_eq_error_iff.2 (readFile_eq_obstacle_iff.2 ⟨answer, other⟩))
  · rintro ⟨⟨folder, there⟩, clear⟩
    exact loadsAlike_of_clear there (same folder there) clear

/-- In a folder that is there, the name of the configuration file is short enough to be looked up;
only a link may lead to one that is not. -/
lemma stat_standardPath {folder : Files.Location}
    (located : t.locateFolder t.workingPath = .ok folder)
    (direct : ∀ target, t.node? (folder ++ [fileName]) ≠ some (.link target)) :
    t.stat (standardPath t) ≠ .error .nameTooLong := by
  have name : (standardPath t).name = fileName := by
    rw [standardPath, Path.name, Path.child, List.getLast?_concat, Option.getD_some]
  have parent : (standardPath t).parent = t.workingPath :=
    congrArg (Path.mk 1) List.dropLast_concat
  have plain : (fileName != "..".toList) = true := by decide
  have named : FileTree.namesEntry (standardPath t) = true := by
    rw [FileTree.namesEntry, name, plain, standardPath, Path.child]
    simp
  have above : t.locateParent (standardPath t) = .ok folder := by
    rwa [FileTree.locateParent, parent]
  rw [Ne, FileTree.stat_eq_nameTooLong_iff]
  intro failed
  cases stands : t.node? (folder ++ [fileName]) with
  | none =>
    obtain ⟨k, whole⟩ := FileTree.walk_of_parent above named true
    rw [name, FileTree.walk_of_absent (by decide) stands, failed] at whole
    rw [Files.absence_of_short (by decide)] at whole
    cases whole
  | some n =>
    rw [FileTree.locate_of_stands above named (name ▸ stands)] at failed
    · cases failed
    · rintro target rfl
      exact direct target stands

/-- In a file tree both ways of loading agree exactly if the working folder is there and no name on the
way of the file is too long. -/
lemma loadsAlike_system_iff
    (same : ∀ folder, t.system.working = .ok folder → t.system.SameAt q (folder.child fileName)) :
    LoadsAlike t.system q ↔ t.node? t.working = some .folder ∧ t.stat q ≠ .error .nameTooLong := by
  rw [loadsAlike_iff same]
  constructor
  · rintro ⟨⟨folder, told⟩, clear⟩
    refine ⟨(FileTree.workingFolder_eq_ok_iff.1 told).1, fun long => ?_⟩
    cases clear _ long
  · rintro ⟨there, short⟩
    refine ⟨⟨_, FileTree.workingFolder_eq_ok_iff.2 ⟨there, rfl⟩⟩, fun f failed => ?_⟩
    rcases FileTree.fault_of_stat failed with absent | rfl
    · exact absent
    · exact absurd failed short

/-- Whatever a system answers: loading by a path that leads to the configuration file of the working
folder and loading without a path agree exactly if the working folder is told and looking up the file
ends in no fault but that it is not there. If the working folder is gone, loading without a path ends
in that fault; if the file may not be looked up, both ways of loading end in the fault. In a file tree
the one such fault is a name that is too long, and only a link can lead to it: whatever else stands
under the name of the configuration file, and if nothing does, both ways of loading agree. -/
theorem loads_alike_iff
    (same : ∀ folder, s.working = .ok folder → s.SameAt q (folder.child fileName)) :
    (LoadsAlike s q ↔
      (∃ folder, s.working = .ok folder) ∧ ∀ f, s.stat q = .error f → f.isAbsence = true) ∧
    (∀ f, s.working = .error f → loadStandard s = .error ⟨f, []⟩) ∧
    (∀ f, s.stat q = .error f → f.isAbsence = false →
      load s q = .error (.obstacle f) ∧
        ∀ folder, s.working = .ok folder → loadStandard s = .error ⟨f, [folder.child fileName]⟩) ∧
    ∀ t : FileTree, s = t.system →
      (LoadsAlike s q ↔ t.node? t.working = some .folder ∧ t.stat q ≠ .error .nameTooLong) ∧
      ∀ folder, t.node? t.working = some .folder → t.locateFolder t.workingPath = .ok folder →
        (∀ target, t.node? (folder ++ [fileName]) ≠ some (.link target)) → LoadsAlike s q := by
  refine ⟨loadsAlike_iff same, fun f => loadStandard_of_gone, fun f answer other => ?_, ?_⟩
  · have failed : readFile s q = .error (.obstacle f) := readFile_eq_obstacle_iff.2 ⟨answer, other⟩
    refine ⟨load_eq_error_iff.2 failed, fun folder there => ?_⟩
    exact loadStandard_of_obstacle there (readFile_congr (same folder there) ▸ failed)
  · rintro t rfl
    have tree := loadsAlike_system_iff same
    refine ⟨tree, fun folder there located direct => tree.2 ⟨there, ?_⟩⟩
    have told : t.system.working = .ok t.workingPath :=
      FileTree.workingFolder_eq_ok_iff.2 ⟨there, rfl⟩
    rw [show t.stat q = t.stat (standardPath t) from (same _ told).stat]
    exact stat_standardPath located direct

/-- A working folder with one entry under the name of the configuration file. -/
def workshop (n : Files.Node) : FileTree :=
  ⟨[(["w".toList], .folder), (["w".toList, fileName], n)], ["w".toList]⟩

/-- A name of 256 bytes. -/
def longName : Text :=
  List.replicate 64 '😀'

/-- A system that tells its working folder but nothing of the files in it. -/
def barred : Files.System :=
  ⟨.ok ⟨1, ["w".toList]⟩, fun _ => .error .denied, fun _ => .error .denied⟩

/-- A tree whose working folder is gone. -/
def deserted : FileTree :=
  ⟨[], ["w".toList]⟩

set_option maxRecDepth 4000 in
/-- A file that is no text leaves the defaults and is refused when it is named. A link to a name that
is too long makes both fail, and so does a file that may not be looked up. If the working folder is
gone, only loading without a path fails with a fault of the system. -/
theorem loads_alike_unless_barred :
    LoadsAlike (workshop (.file [0xFF])).system ⟨0, [fileName]⟩ ∧
      ¬LoadsAlike (workshop (.link longName)).system ⟨0, [fileName]⟩ ∧
      (load barred ⟨0, [fileName]⟩ = .error (.obstacle .denied) ∧
        loadStandard barred = .error ⟨.denied, [⟨1, ["w".toList, fileName]⟩]⟩) ∧
      load deserted.system ⟨0, [fileName]⟩ = .error .missing ∧
      loadStandard deserted.system = .error ⟨.notFound, []⟩ := by
  have near : (workshop (.file [0xFF])).locate true ⟨0, [fileName]⟩ =
      (workshop (.file [0xFF])).locate true (standardPath (workshop (.file [0xFF]))) := by
    cbv
  have far : (workshop (.link longName)).locate true ⟨0, [fileName]⟩ =
      (workshop (.link longName)).locate true (standardPath (workshop (.link longName))) := by
    cbv
  have long : (workshop (.link longName)).stat ⟨0, [fileName]⟩ = .error .nameTooLong := by
    cbv
  have located : (workshop (.file [0xFF])).locateFolder (workshop (.file [0xFF])).workingPath =
      .ok ["w".toList] := by
    cbv
  have stands : (workshop (.file [0xFF])).node? (["w".toList] ++ [fileName]) = some (.file [0xFF]) := by
    cbv
  have told : ∀ n, (workshop n).system.working = .ok (workshop n).workingPath :=
    fun n => (FileTree.workingFolder_eq_ok_iff (t := workshop n)).2 ⟨rfl, rfl⟩
  have gone : deserted.system.working = .error .notFound := by
    cbv
  refine ⟨?_, ?_, ?_, ?_, ?_⟩
  · refine ((loads_alike_iff ?_).2.2.2 _ rfl).2 _ rfl located ?_
    · intro folder there
      cases (told _).symm.trans there
      exact FileTree.sameAt_of_locate near
    · rw [stands]
      intro target link
      cases link
  · rw [((loads_alike_iff ?_).2.2.2 _ rfl).1]
    · exact fun clear => clear.2 long
    · intro folder there
      cases (told _).symm.trans there
      exact FileTree.sameAt_of_locate far
  · have failed := (loads_alike_iff (s := barred) (q := ⟨0, [fileName]⟩)
      fun folder there => ⟨rfl, rfl⟩).2.2.1 .denied rfl rfl
    exact ⟨failed.1, failed.2 _ rfl⟩
  · cbv
  · refine (loads_alike_iff (q := ⟨0, [fileName]⟩) fun folder there => ?_).2.1 _ gone
    cases gone.symm.trans there

end Config

end Phrasebook
