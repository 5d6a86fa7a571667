import Phrasebook.Mapping.File
import Phrasebook.Proofs.ConfigurationFiles
import Phrasebook.Proofs.Selections

/-!
# Files in trees that have grown

What is read at a path in a tree without links stays the same while the tree grows, unless the path leads to
the file that is written. A mapping file and a configuration file that is named are found at their paths,
so this is all there is to say of them (`Mapping.load_grown`, `Config.readFile_grown`). The configuration
file of the working folder may be missing, and a folder may come in its place; the defaults hold before and
after that (`Config.loadStandard_grown`).
-/

namespace Phrasebook

open Files

namespace FileTree

variable {t u : FileTree} {loc place : Location} {p : Path}

/-- A path that does not lead to the place of a write leads to what it led to. -/
lemma Grown.stat (grown : Grown place t u) (linkless : t.Linkless) (located : t.locate true p = .ok loc)
    (other : loc ≠ place) : u.stat p = t.stat p := by
  rw [FileTree.stat, FileTree.stat, located, grown.locate linkless located]
  dsimp only
  obtain ⟨-, -, n, stands⟩ := linkless.of_locate located
  cases n with
  | folder => rw [stands, grown.folder_kept stands]
  | file bytes =>
    obtain ⟨b, kept, same⟩ := grown.file_kept stands
    rw [stands, kept, same other]
  | link target => exact absurd stands (linkless.node?_ne_link _ _)

lemma Grown.obstacle? (grown : Grown place t u) (linkless : t.Linkless)
    (located : t.locate true p = .ok loc) : u.obstacle? true p = t.obstacle? true p := by
  rw [FileTree.obstacle?, FileTree.obstacle?, located, grown.locate linkless located]

end FileTree

namespace Config

variable {t u : FileTree} {loc place : Location} {p : Path}

/-- What is read depends only on what a path leads to. -/
lemma readFile_of_stat (stat : u.stat p = t.stat p) : readFile u.system p = readFile t.system p := by
  have bytes : u.readBytes p = t.readBytes p := by
    rw [FileTree.readBytes, FileTree.readBytes, stat]
  have answer : u.system.stat p = t.system.stat p := stat
  have content : u.system.read p = t.system.read p := bytes
  rw [readFile, readFile, System.exists?, System.exists?, System.readText, System.readText, answer,
    content]

/-- A configuration is only read where a path leads to something. -/
lemma locate_of_readFile {c : Config} (read : readFile t.system p = .ok c) :
    ∃ loc, t.locate true p = .ok loc := by
  cases located : t.locate true p with
  | ok loc => exact ⟨loc, rfl⟩
  | error f =>
    have nowhere : t.system.stat p = .error f := by
      show t.stat p = .error f
      rw [FileTree.stat, located]
    rw [readFile, System.exists?, nowhere] at read
    dsimp only at read
    cases absent : f.isAbsence <;> simp [absent] at read

/-- A named configuration file is read as before while a tree grows elsewhere. -/
lemma readFile_grown (linkless : t.Linkless) (grown : t.Grown place u)
    (located : t.locate true p = .ok loc) (other : loc ≠ place) :
    readFile u.system p = readFile t.system p :=
  readFile_of_stat (grown.stat linkless located other)

/-- The working folder of a tree without links is where it says. -/
lemma locate_workingPath (linkless : t.Linkless) : t.locate true t.workingPath = .ok t.working :=
  linkless.walk_down linkless.home

/-- A tree without links tells its working folder. -/
lemma workingFolder_of_linkless (linkless : t.Linkless) : t.system.working = .ok t.workingPath :=
  FileTree.workingFolder_eq_ok_iff.2 ⟨linkless.home, rfl⟩

/-- Where no file stands at the standard path, the defaults hold. -/
lemma loadStandard_of_no_file (linkless : t.Linkless) (missing : t.isFile (standardPath t) = false) :
    ∃ records, loadStandard t.system = .ok ⟨standard, none, records⟩ := by
  have free : t.obstacle? true (standardPath t) = none := by
    refine linkless.obstacle?_eq_none fun name mem => ?_
    rcases List.mem_append.1 mem with mem | mem
    · exact (linkless.of_locate (locate_workingPath linkless)).2.1 name mem
    · rw [List.mem_singleton.1 mem]
      decide
  have told := workingFolder_of_linkless linkless
  rw [FileTree.isFile] at missing
  cases answer : t.stat (standardPath t) with
  | error f =>
    have absent : f.isAbsence = true := by
      rcases FileTree.fault_of_stat answer with absent | rfl
      · exact absent
      · rw [FileTree.obstacle?, FileTree.stat_eq_nameTooLong_iff.1 answer] at free
        cases free
    have answer : t.system.stat (t.workingPath.child fileName) = .error f := answer
    refine loadStandard_of_fault (f := .missing) told ?_ (by simp)
    rw [readFile, System.exists?, answer]
    simp only [absent, if_true]
  | ok n =>
    have bytes : t.system.read (t.workingPath.child fileName) = .error .isFolder := by
      show t.readBytes (standardPath t) = .error .isFolder
      rw [FileTree.readBytes, answer]
      cases n with
      | file bytes =>
        rw [answer] at missing
        cases missing
      | _ => rfl
    have answer : t.system.stat (t.workingPath.child fileName) = .ok n := answer
    refine loadStandard_of_fault (f := .unreadable (.access .isFolder)) told ?_ (by simp)
    rw [readFile, System.exists?, answer, System.readText, bytes]
    rfl

lemma isFile_standardPath_grown (linkless : t.Linkless) (grown : t.Grown place u)
    (other : t.placeOf (standardPath t) ≠ place) (isFile : u.isFile (standardPath u) = true) :
    t.isFile (standardPath t) = true := by
  have linkless' := grown.linkless linkless
  obtain ⟨loc, bytes, located', there'⟩ := FileTree.exists_of_isFile isFile
  have apart : loc ≠ place := by
    rw [(linkless'.of_locate located').1, grown.placeOf, standardPath, FileTree.workingPath, grown.working]
    exact other
  have next : loc = below t.working fileName := by
    have found := locate_below linkless' (locate_workingPath linkless') linkless'.home fileName
    rw [show u.locate true (u.workingPath.child fileName) = .ok loc from located', grown.working] at found
    split at found
    · exact Except.ok.inj found
    · cases found
  cases there : t.node? loc with
  | none =>
    rcases grown.new there there' with folder | same
    · cases folder
    · exact absurd same apart
  | some n =>
    have located : t.locate true (standardPath t) = .ok loc := by
      rw [standardPath, locate_below linkless (locate_workingPath linkless) linkless.home, ← next, there]
      rfl
    cases n with
    | file bytes => exact (FileTree.isFile_iff_of_locate located).2 ⟨bytes, there⟩
    | folder => cases there'.symm.trans (grown.folder_kept there)
    | link target => exact absurd there (linkless.node?_ne_link _ _)

/-- The configuration of the working folder stays the same while a tree grows elsewhere. A folder may come
in place of a file that is missing; the defaults hold in both cases. -/
lemma loadStandard_grown (linkless : t.Linkless) (grown : t.Grown place u)
    (other : t.placeOf (standardPath t) ≠ place) {l : Loaded}
    (loaded : loadStandard t.system = .ok l) :
    ∃ l', loadStandard u.system = .ok l' ∧ l'.config = l.config := by
  cases isFile : t.isFile (standardPath t) with
  | true =>
    obtain ⟨loc, bytes, located, -⟩ := FileTree.exists_of_isFile isFile
    obtain ⟨rfl, -⟩ := linkless.of_locate located
    have same : readFile u.system (t.workingPath.child fileName) =
        readFile t.system (t.workingPath.child fileName) :=
      readFile_grown linkless grown located other
    have base : u.workingPath = t.workingPath := by
      rw [FileTree.workingPath, FileTree.workingPath, grown.working]
    refine ⟨l, ?_, rfl⟩
    rw [← loaded, loadStandard, loadStandard, workingFolder_of_linkless linkless,
      workingFolder_of_linkless (grown.linkless linkless), base]
    simp only [same]
  | false =>
    obtain ⟨records, standard⟩ := loadStandard_of_no_file linkless isFile
    cases loaded.symm.trans standard
    have missing : u.isFile (standardPath u) = false := by
      refine Bool.eq_false_iff.2 fun isFile' => ?_
      cases isFile.symm.trans (isFile_standardPath_grown linkless grown other isFile')
    obtain ⟨records', standard'⟩ := loadStandard_of_no_file (grown.linkless linkless) missing
    exact ⟨_, standard', rfl⟩

end Config

namespace Mapping

variable {t u : FileTree} {loc place : Location} {p : Path}

lemma parse_ne_obstacle (text : Text) (f : Files.Fault) : parse text ≠ .error (.obstacle f) := by
  unfold parse
  intro failed
  split at failed
  · cases failed
  · unfold ofMembers at failed
    split at failed
    · cases failed
    · cases failed
  · cases failed

lemma load_ne_obstacle (located : t.locate true p = .ok loc) (f : Files.Fault) :
    load t p ≠ .error (.obstacle f) := by
  intro failed
  rw [load, FileTree.obstacle?, located] at failed
  dsimp only at failed
  split at failed
  · cases failed
  · split at failed
    · cases failed
    · exact parse_ne_obstacle _ f failed

lemma load_grown (linkless : t.Linkless) (grown : t.Grown place u) (located : t.locate true p = .ok loc)
    (other : loc ≠ place) : load u p = load t p := by
  have stat := grown.stat linkless located other
  rw [load, load, grown.obstacle? linkless located, FileTree.isFile, FileTree.isFile, Files.readText,
    Files.readText, FileTree.readBytes, FileTree.readBytes, stat]

end Mapping

end Phrasebook
