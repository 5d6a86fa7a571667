import Phrasebook.Proofs.SoundTrees

/-!
# Trees without links

In a tree without links a path leads to one place, which its names alone tell (`placeOf`), or it leads
nowhere; resolving it gives that place in both cases (`Linkless.resolve_eq`).

A write makes a tree grow (`Grown`): folders come where nothing stood, and the file comes or gets other
bytes. Everything else stays where it is, and so do the ways to it. `Linkless.write_again` says what a second
write to the same path does: it fails if the first one did, with nothing changed, and otherwise it succeeds
with whatever bytes, and changes nothing if they are the same.
-/

namespace Phrasebook

open Files

namespace FileTree

variable {t u : FileTree} {loc folder here place : Location} {p : Path} {n : Node} {name : Text}
  {names : List Text} {follow : Bool} {links : Nat}

/-- A tree without links that holds the working folder and no name that is too long. -/
structure Linkless (t : FileTree) : Prop extends Sound t where
  direct : ∀ e ∈ t.nodes, ∀ target, e.2 ≠ .link target
  short : ∀ e ∈ t.nodes, ∀ name ∈ e.1, isTooLong name = false
  home : t.node? t.working = some .folder

lemma linkless_empty {working : Location} (plain : "..".toList ∉ working)
    (short : ∀ name ∈ working, isTooLong name = false) : (empty working).Linkless := by
  have sound := sound_empty plain
  refine ⟨sound, ?_, ?_, ?_⟩
  · intro e mem target
    obtain ⟨i, -, rfl⟩ := List.mem_map.1 mem
    simp
  · intro e mem name inside
    obtain ⟨i, -, rfl⟩ := List.mem_map.1 mem
    exact short name (List.mem_of_mem_take inside)
  · change (empty working).node? working = some .folder
    cases working with
    | nil => rfl
    | cons name rest =>
      have mem : (name :: rest, Node.folder) ∈ (empty (name :: rest)).nodes := by
        refine List.mem_map.2 ⟨rest.length, List.mem_range.2 (Nat.lt_succ_self _), ?_⟩
        rw [List.take_of_length_le (Nat.le_of_eq (List.length_cons))]
      exact ((mem_nodes_iff sound).1 mem).2

lemma Linkless.node?_ne_link (linkless : t.Linkless) (loc : Location) (target : Text) :
    t.node? loc ≠ some (.link target) := by
  intro stands
  have below : loc ≠ [] := by
    rintro rfl
    cases stands
  exact linkless.direct _ (mem_nodes_of_node? linkless.toSound below stands) target rfl

lemma Linkless.short_of_stands (linkless : t.Linkless) (stands : t.node? (here ++ [name]) = some n) :
    isTooLong name = false :=
  linkless.short _ (mem_nodes_of_node? linkless.toSound (by simp) stands) name (by simp)

lemma Linkless.put (linkless : t.Linkless) (above : t.node? folder = some .folder)
    (plain : name ≠ "..".toList) (short : isTooLong name = false) (direct : ∀ target, n ≠ .link target)
    (free : n = .folder ∨ t.node? (folder ++ [name]) ≠ some .folder) :
    (t.put (folder ++ [name]) n).Linkless := by
  refine ⟨linkless.toSound.put above plain free, ?_, ?_, ?_⟩
  · intro e mem
    rcases mem_nodes_put mem with rfl | old
    · exact direct
    · exact linkless.direct e old
  · intro e mem name' inside
    rcases mem_nodes_put mem with rfl | old
    · rcases List.mem_append.1 inside with inside | last
      · have filled : folder ≠ [] := List.ne_nil_of_mem inside
        exact linkless.short _ (mem_nodes_of_node? linkless.toSound filled above) name' inside
      · rwa [List.mem_singleton.1 last]
    · exact linkless.short e old name' inside
  · change (t.put _ n).node? t.working = _
    rw [node?_put (by simp)]
    split
    · rename_i same
      have home := linkless.home
      rw [same] at home
      exact congrArg some (free.resolve_right fun other => other home)
    · exact linkless.home

/-! ## Walking without links -/

lemma Sound.node?_dropLast (sound : t.Sound) (stands : t.node? loc = some n) :
    t.node? loc.dropLast = some .folder := by
  by_cases root : loc = []
  · rw [root]
    rfl
  · exact (sound.closed _ (mem_nodes_of_node? sound root stands)).2

/-- What a walk does at a name. -/
lemma Linkless.walk_cons (linkless : t.Linkless) (follow : Bool) (links : Nat) (here : Location)
    (name : Text) (rest : List Text) :
    (name = "..".toList ∧
      t.walk follow links here (name :: rest) = t.walk follow links here.dropLast rest) ∨
    name ≠ "..".toList ∧
      (t.node? (here ++ [name]) = none ∧
        t.walk follow links here (name :: rest) = .error (absence name) ∨
      t.node? (here ++ [name]) = some .folder ∧
        t.walk follow links here (name :: rest) = t.walk follow links (here ++ [name]) rest ∨
      ∃ bytes, t.node? (here ++ [name]) = some (.file bytes) ∧
        t.walk follow links here (name :: rest) =
          if rest.isEmpty then .ok (here ++ [name]) else .error .notFolder) := by
  by_cases named : name = "..".toList
  · rw [named]
    exact .inl ⟨rfl, walk_dots ..⟩
  · refine .inr ⟨named, ?_⟩
    cases stands : t.node? (here ++ [name]) with
    | none => exact .inl ⟨rfl, walk_of_absent named stands ..⟩
    | some n =>
      cases n with
      | folder => exact .inr (.inl ⟨rfl, walk_of_folder named stands ..⟩)
      | file bytes => exact .inr (.inr ⟨bytes, rfl, walk_of_file named stands ..⟩)
      | link target => exact absurd stands (linkless.node?_ne_link _ _)

/-- Where a walk ends can be read off its names, none of which is too long, and something stands
there. -/
lemma Linkless.of_walk (linkless : t.Linkless) (start : t.node? here = some .folder)
    (walked : t.walk follow links here names = .ok loc) :
    loc = foldDots here names ∧ (∀ name ∈ names, isTooLong name = false) ∧ ∃ n, t.node? loc = some n := by
  induction names generalizing here with
  | nil =>
    rw [walk.eq_1] at walked
    cases walked
    exact ⟨rfl, List.forall_mem_nil _, _, start⟩
  | cons name rest ih =>
    rcases linkless.walk_cons follow links here name rest with
      ⟨rfl, step⟩ | ⟨named, ⟨-, step⟩ | ⟨folder, step⟩ | ⟨bytes, file, step⟩⟩
    · rw [step] at walked
      obtain ⟨place, short, stands⟩ := ih (linkless.toSound.node?_dropLast start) walked
      refine ⟨?_, List.forall_mem_cons.2 ⟨isTooLong_eq_false (by decide), short⟩, stands⟩
      rw [place, foldDots, foldDots, List.foldl_cons, if_pos rfl]
    · cases step.symm.trans walked
    · rw [step] at walked
      obtain ⟨place, short, stands⟩ := ih folder walked
      refine ⟨?_, List.forall_mem_cons.2 ⟨linkless.short_of_stands folder, short⟩, stands⟩
      rw [place, foldDots, foldDots, List.foldl_cons, if_neg named]
    · rw [step] at walked
      split at walked
      · rename_i last
        cases walked
        rw [List.isEmpty_iff.1 last]
        refine ⟨?_, List.forall_mem_singleton.2 (linkless.short_of_stands file), _, file⟩
        rw [foldDots, List.foldl_cons, if_neg named, List.foldl_nil]
      · cases walked

/-- A walk ends early at a file, or where nothing has the name. -/
lemma Linkless.fault_of_walk (linkless : t.Linkless) {f : Fault}
    (failed : t.walk follow links here names = .error f) :
    f = .notFolder ∨ ∃ name ∈ names, f = absence name := by
  induction names generalizing here with
  | nil =>
    rw [walk.eq_1] at failed
    cases failed
  | cons name rest ih =>
    have later : (∃ name ∈ rest, f = absence name) → ∃ name' ∈ name :: rest, f = absence name' := by
      rintro ⟨name, mem, same⟩
      exact ⟨name, List.mem_cons_of_mem _ mem, same⟩
    rcases linkless.walk_cons follow links here name rest with
      ⟨rfl, step⟩ | ⟨named, ⟨-, step⟩ | ⟨folder, step⟩ | ⟨bytes, file, step⟩⟩
    · exact (ih (step.symm.trans failed)).imp_right later
    · exact .inr ⟨name, List.mem_cons_self, Except.error.inj (failed.symm.trans step)⟩
    · exact (ih (step.symm.trans failed)).imp_right later
    · rw [step] at failed
      split at failed
      · cases failed
      · exact .inl (Except.error.inj failed).symm

/-- The place that a path names, whether something stands there or not. -/
def placeOf (t : FileTree) (p : Path) : Location :=
  foldDots (startOf p.isAbsolute t.working) p.parts

lemma Linkless.node?_startOf (linkless : t.Linkless) (absolute : Bool) :
    t.node? (startOf absolute t.working) = some .folder := by
  cases absolute with
  | false => exact linkless.home
  | true => rfl

lemma Linkless.of_locate (linkless : t.Linkless) (located : t.locate follow p = .ok loc) :
    loc = t.placeOf p ∧ (∀ name ∈ p.parts, isTooLong name = false) ∧ ∃ n, t.node? loc = some n :=
  linkless.of_walk (linkless.node?_startOf _) located

lemma Linkless.resolveFrom_eq (linkless : t.Linkless) (fuel : Nat) (active : List Location)
    (here : Location) (names : List Text) :
    t.resolveFrom fuel active here names = (foldDots here names, true) := by
  induction names generalizing here with
  | nil =>
    rw [resolveFrom]
    rfl
  | cons name rest ih =>
    rw [resolveFrom, foldDots, List.foldl_cons]
    split
    · exact ih _
    · dsimp only
      split
      · rename_i link
        exact absurd link (linkless.node?_ne_link _ _)
      · exact ih _

/-- A path stands for the place it names. -/
lemma Linkless.resolve_eq (linkless : t.Linkless) (p : Path) : t.resolve p = .ok ⟨1, t.placeOf p⟩ := by
  rw [resolve, linkless.resolveFrom_eq]
  dsimp only
  split
  · rename_i looped
    unfold stat at looped
    split at looped
    · rename_i f failed
      cases looped
      rcases linkless.fault_of_walk failed with other | ⟨name, -, other⟩
      · cases other
      · rw [absence] at other
        split at other
        · cases other
        · cases other
    · split at looped
      · cases looped
      · cases looped
  · rfl

/-- A path without names that are too long can be looked up. -/
lemma Linkless.obstacle?_eq_none (linkless : t.Linkless)
    (short : ∀ name ∈ p.parts, isTooLong name = false) : t.obstacle? follow p = none := by
  rw [obstacle?]
  split
  · rename_i f failed
    rcases linkless.fault_of_walk failed with rfl | ⟨name, mem, rfl⟩
    · rfl
    · rw [absence_of_short (short name mem)]
      rfl
  · rfl

/-! ## One name more -/

/-- A name more leads into the folder that is found. -/
lemma Linkless.locate_child (linkless : t.Linkless) (located : t.locate true p = .ok loc)
    (folder : t.node? loc = some .folder) (name : Text) :
    t.locate true (p.child name) =
      if name = "..".toList then .ok loc.dropLast
      else if (t.node? (loc ++ [name])).isSome then .ok (loc ++ [name]) else .error (absence name) := by
  unfold locate at located ⊢
  change t.walk true linkLimit (startOf p.isAbsolute t.working) (p.parts ++ [name]) = _
  rcases t.walk_append true linkLimit (startOf p.isAbsolute t.working) p.parts
    (List.cons_ne_nil name []) with ⟨loc', k, first, whole⟩ | ⟨f, -, failed | ⟨loc', b, first, file⟩⟩
  · obtain rfl := Except.ok.inj (first.symm.trans located)
    rw [whole]
    rcases linkless.walk_cons true k loc' name [] with
      ⟨rfl, step⟩ | ⟨named, ⟨absent, step⟩ | ⟨stands, step⟩ | ⟨bytes, stands, step⟩⟩
    · rw [step, walk.eq_1, if_pos rfl]
    · rw [step, if_neg named, absent]
      rfl
    · rw [step, walk.eq_1, if_neg named, stands]
      rfl
    · rw [step, if_neg named, stands]
      rfl
  · cases failed.symm.trans located
  · obtain rfl := Except.ok.inj (first.symm.trans located)
    cases file.symm.trans folder

lemma Linkless.name_ne_dots (linkless : t.Linkless) (stands : t.node? (loc ++ [name]) = some n) :
    name ≠ "..".toList := by
  rintro rfl
  exact linkless.plain _ (mem_nodes_of_node? linkless.toSound (by simp) stands) (by simp)

lemma Linkless.locate_of_child (linkless : t.Linkless) (located : t.locate true p = .ok loc)
    (folder : t.node? loc = some .folder) (stands : t.node? (loc ++ [name]) = some n) :
    t.locate true (p.child name) = .ok (loc ++ [name]) := by
  rw [linkless.locate_child located folder, if_neg (linkless.name_ne_dots stands), stands]
  rfl

lemma isFolder_iff_of_locate (located : t.locate true p = .ok loc) :
    t.isFolder p = true ↔ t.node? loc = some .folder := by
  rw [isFolder, stat, located]
  dsimp only
  cases t.node? loc with
  | none => simp
  | some n => cases n <;> simp

lemma exists_of_isFolder (isFolder : t.isFolder p = true) :
    ∃ loc, t.locate true p = .ok loc ∧ t.node? loc = some .folder := by
  cases located : t.locate true p with
  | error f =>
    rw [FileTree.isFolder, stat, located] at isFolder
    cases isFolder
  | ok loc => exact ⟨loc, rfl, (isFolder_iff_of_locate located).1 isFolder⟩

lemma isFile_iff_of_locate (located : t.locate true p = .ok loc) :
    t.isFile p = true ↔ ∃ bytes, t.node? loc = some (.file bytes) := by
  rw [isFile, stat, located]
  dsimp only
  cases t.node? loc with
  | none => simp
  | some n => cases n <;> simp

lemma exists_of_isFile (isFile : t.isFile p = true) :
    ∃ loc bytes, t.locate true p = .ok loc ∧ t.node? loc = some (.file bytes) := by
  cases located : t.locate true p with
  | error f =>
    rw [FileTree.isFile, stat, located] at isFile
    cases isFile
  | ok loc =>
    obtain ⟨bytes, stands⟩ := (isFile_iff_of_locate located).1 isFile
    exact ⟨loc, bytes, rfl, stands⟩

/-- Before its last name a walk stands in a folder. -/
lemma Linkless.folder_of_walk (linkless : t.Linkless) (start : t.node? here = some .folder)
    (walked : t.walk true links here (names ++ [name]) = .ok loc) :
    ∃ folder, t.walk true links here names = .ok folder ∧ t.node? folder = some .folder := by
  induction names generalizing here with
  | nil => exact ⟨here, walk.eq_1 .., start⟩
  | cons first rest ih =>
    rw [List.cons_append] at walked
    rcases linkless.walk_cons true links here first (rest ++ [name]) with
      ⟨rfl, step⟩ | ⟨named, ⟨-, step⟩ | ⟨folder, step⟩ | ⟨bytes, file, step⟩⟩
    · rw [walk_dots]
      exact ih (linkless.toSound.node?_dropLast start) (step.symm.trans walked)
    · cases step.symm.trans walked
    · rw [walk_of_folder named folder]
      exact ih folder (step.symm.trans walked)
    · rw [step, if_neg (by simp)] at walked
      cases walked

lemma Linkless.locateFolder_parent (linkless : t.Linkless) (located : t.locate true p = .ok loc)
    (named : p.parts ≠ []) : ∃ folder, t.locateFolder p.parent = .ok folder := by
  unfold locate at located
  rw [Path.parts_eq_concat named] at located
  obtain ⟨folder, found, isFolder⟩ := linkless.folder_of_walk (linkless.node?_startOf _) located
  exact ⟨folder, locateFolder_of_node? found isFolder⟩

/-! ## Growing -/

/-- A tree that comes of another one by making folders and by writing a file at a place. -/
inductive Grown (place : Location) (t : FileTree) : FileTree → Prop where
  | refl : Grown place t t
  | folder {u : FileTree} {loc : Location} :
    Grown place t u → u.node? loc = none → (u.put loc .folder).Linkless →
    Grown place t (u.put loc .folder)
  | file {u : FileTree} {bytes : Bytes} :
    Grown place t u → u.node? place ≠ some .folder → place ≠ [] → (u.put place (.file bytes)).Linkless →
    Grown place t (u.put place (.file bytes))

lemma Grown.linkless (grown : Grown place t u) (linkless : t.Linkless) : u.Linkless := by
  cases grown with
  | refl => exact linkless
  | folder _ _ linkless => exact linkless
  | file _ _ _ linkless => exact linkless

lemma ne_nil_of_node? (absent : t.node? loc = none) : loc ≠ [] := by
  rintro rfl
  cases absent

lemma Grown.working (grown : Grown place t u) : u.working = t.working := by
  induction grown with
  | refl => rfl
  | folder _ _ _ ih => exact ih
  | file _ _ _ _ ih => exact ih

/-- A folder stays. -/
lemma Grown.folder_kept (grown : Grown place t u) (stands : t.node? loc = some .folder) :
    u.node? loc = some .folder := by
  induction grown with
  | refl => exact stands
  | folder _ absent _ ih =>
    rw [node?_put (ne_nil_of_node? absent)]
    split
    · rfl
    · exact ih
  | file _ other below _ ih =>
    refine (node?_put_of_ne below _ ?_).trans ih
    rintro rfl
    exact other ih

/-- A file stays, and so do its bytes unless it stands at the place that is written. -/
lemma Grown.file_kept {bytes : Bytes} (grown : Grown place t u)
    (stands : t.node? loc = some (.file bytes)) :
    ∃ b, u.node? loc = some (.file b) ∧ (loc ≠ place → b = bytes) := by
  induction grown with
  | refl => exact ⟨bytes, stands, fun _ => rfl⟩
  | folder _ absent _ ih =>
    obtain ⟨b, kept, same⟩ := ih
    refine ⟨b, (node?_put_of_ne (ne_nil_of_node? absent) _ ?_).trans kept, same⟩
    rintro rfl
    cases absent.symm.trans kept
  | file _ _ below _ ih =>
    obtain ⟨b, kept, same⟩ := ih
    rw [node?_put below]
    split
    · rename_i here
      exact ⟨_, rfl, fun other => absurd here other⟩
    · exact ⟨b, kept, same⟩

/-- What is new is a folder, or stands at the place that is written. -/
lemma Grown.new (grown : Grown place t u) (absent : t.node? loc = none) (stands : u.node? loc = some n) :
    n = .folder ∨ loc = place := by
  induction grown generalizing n with
  | refl => cases absent.symm.trans stands
  | folder _ free _ ih =>
    rw [node?_put (ne_nil_of_node? free)] at stands
    split at stands
    · cases stands
      exact .inl rfl
    · exact ih stands
  | file _ _ below _ ih =>
    rw [node?_put below] at stands
    split at stands
    · rename_i here
      exact .inr here
    · exact ih stands

/-- A walk leads where it led before. -/
lemma Grown.walk (grown : Grown place t u) (linkless : t.Linkless)
    (walked : t.walk follow links here names = .ok loc) : u.walk follow links here names = .ok loc := by
  induction names generalizing here with
  | nil =>
    rw [walk.eq_1] at walked ⊢
    exact walked
  | cons name rest ih =>
    rcases linkless.walk_cons follow links here name rest with
      ⟨rfl, step⟩ | ⟨named, ⟨-, step⟩ | ⟨folder, step⟩ | ⟨bytes, file, step⟩⟩
    · rw [walk_dots]
      exact ih (step.symm.trans walked)
    · cases step.symm.trans walked
    · rw [walk_of_folder named (grown.folder_kept folder)]
      exact ih (step.symm.trans walked)
    · obtain ⟨b, kept, -⟩ := grown.file_kept file
      rw [walk_of_file named kept]
      exact step.symm.trans walked

lemma Grown.locate (grown : Grown place t u) (linkless : t.Linkless)
    (located : t.locate follow p = .ok loc) : u.locate follow p = .ok loc := by
  rw [FileTree.locate, grown.working]
  exact grown.walk linkless located

lemma Grown.locateFolder (grown : Grown place t u) (linkless : t.Linkless)
    (found : t.locateFolder p = .ok loc) : u.locateFolder p = .ok loc := by
  obtain ⟨located, folder⟩ := locate_of_locateFolder found
  exact locateFolder_of_node? (grown.locate linkless located) (grown.folder_kept folder)

lemma Grown.placeOf (grown : Grown place t u) (p : Path) : u.placeOf p = t.placeOf p := by
  rw [FileTree.placeOf, FileTree.placeOf, grown.working]

lemma Grown.trans {v : FileTree} (first : Grown place t u) (second : Grown place u v) :
    Grown place t v := by
  induction second with
  | refl => exact first
  | folder _ absent linkless ih => exact .folder ih absent linkless
  | file _ other below linkless ih => exact .file ih other below linkless

/-! ## Making folders again -/

lemma makeFolder_eq_ok (made : t.makeFolder p = .ok u) :
    ∃ folder, t.locateParent p = .ok folder ∧ namesEntry p = true ∧
      t.node? (folder ++ [p.name]) = none ∧ isTooLong p.name = false ∧
      u = t.put (folder ++ [p.name]) .folder := by
  unfold makeFolder at made
  split at made
  · cases made
  · rename_i folder located
    dsimp only at made
    split at made
    · cases made
    · rename_i free
      split at made
      · cases made
      · rename_i short
        rw [Bool.or_eq_true, not_or, Bool.not_eq_true, Bool.not_eq_true, Option.isSome_eq_false_iff,
          Option.isNone_iff_eq_none, Bool.not_eq_false'] at free
        exact ⟨folder, located, free.1, free.2, by simpa using short, (Except.ok.inj made).symm⟩

lemma locateParent_of_missing (missing : t.makeFolder p = .error .notFound) :
    t.locateParent p = .error .notFound := by
  unfold makeFolder at missing
  split at missing
  · rename_i located
    cases missing
    exact located
  · dsimp only at missing
    split at missing
    · cases missing
    · split at missing
      · cases missing
      · cases missing

/-- A folder that is made is there, and nothing else is new. -/
lemma Linkless.makeFolder (linkless : t.Linkless) (made : t.makeFolder p = .ok u) (place : Location) :
    Grown place t u ∧ ∃ loc, u.locateFolder p = .ok loc := by
  obtain ⟨folder, located, named, absent, short, rfl⟩ := makeFolder_eq_ok made
  have above := (locate_of_locateParent located).2
  have plain : p.name ≠ "..".toList := by
    simp only [namesEntry, Bool.and_eq_true, bne_iff_ne] at named
    exact named.2
  have grown : Grown place t (t.put (folder ++ [p.name]) .folder) :=
    .folder .refl absent (linkless.put above plain short (fun _ => by simp) (.inl rfl))
  have stands : (t.put (folder ++ [p.name]) .folder).node? (folder ++ [p.name]) = some .folder :=
    node?_put_self (by simp) _
  refine ⟨grown, _, locateFolder_of_node? ?_ stands⟩
  exact locate_of_stands (grown.locateFolder linkless located) named stands (by simp)

lemma makeFoldersUpTo_of_refused {f : Fault} (refused : t.makeFolder p = .error f)
    (other : f ≠ .notFound) (k : Nat) : t.makeFoldersUpTo p k = (t, t.folderFault? p f) := by
  cases k with
  | zero | succ k =>
    rw [makeFoldersUpTo, refused]
    cases f with
    | notFound => exact absurd rfl other
    | _ => rfl

lemma makeFoldersUpTo_of_folder (found : t.locateFolder p = .ok loc) (k : Nat) :
    t.makeFoldersUpTo p k = (t, none) := by
  obtain ⟨located, folder⟩ := locate_of_locateFolder found
  obtain ⟨f, refused, other⟩ := makeFolder_refused (locateParent_of_located located)
  rw [makeFoldersUpTo_of_refused refused other, folderFault?,
    (isFolder_iff_of_locate located).2 folder, if_pos rfl]

/-- How making a folder ends: the folder is there, or making it once more ends in a fault and changes
nothing. -/
structure Ends (p : Path) (k : Nat) (made : FileTree × Option Incident) : Prop where
  done : made.2 = none → ∃ loc, made.1.locateFolder p = .ok loc
  failed : made.2 ≠ none → ∃ i, made.1.makeFoldersUpTo p k = (made.1, some i)

lemma Linkless.ends_of_made (linkless : t.Linkless) (made : t.makeFolder p = .ok u) (k : Nat)
    (place : Location) : Grown place t u ∧ Ends p k (u, none) := by
  obtain ⟨grown, found⟩ := linkless.makeFolder made place
  exact ⟨grown, fun _ => found, fun fault => absurd rfl fault⟩

lemma ends_of_refused {f : Fault} (refused : t.makeFolder p = .error f) (other : f ≠ .notFound)
    (k : Nat) : Ends p k (t, t.folderFault? p f) := by
  have again := makeFoldersUpTo_of_refused refused other k
  constructor
  case done =>
    intro clear
    dsimp only at clear
    rw [folderFault?] at clear
    split at clear
    · rename_i isFolder
      obtain ⟨loc, located, folder⟩ := exists_of_isFolder isFolder
      exact ⟨loc, locateFolder_of_node? located folder⟩
    · cases clear
  case failed =>
    intro fault
    obtain ⟨i, fault⟩ := Option.ne_none_iff_exists'.1 fault
    exact ⟨i, again.trans (congrArg _ fault)⟩

lemma Linkless.parts_ne_nil (linkless : t.Linkless) (missing : t.makeFolder p = .error .notFound) :
    p.parts ≠ [] := by
  intro empty
  have same : p.parent.parts = [] := by rw [Path.parent, empty]; rfl
  have found : t.locateParent p = .ok (startOf p.parent.isAbsolute t.working) := by
    refine locateFolder_of_node? ?_ (linkless.node?_startOf _)
    rw [locate, same, walk.eq_1]
  cases found.symm.trans (locateParent_of_missing missing)

/-- Where the folder above cannot be made, the folder itself cannot be made. -/
lemma Linkless.ends_of_failed (linkless : u.Linkless) (named : p.parts ≠ []) {k : Nat}
    {i j : Incident} (above : u.makeFoldersUpTo p.parent k = (u, some i)) :
    Ends p (k + 1) (u, some j) := by
  have apart : ∀ loc, u.locateFolder p.parent ≠ .ok loc := by
    intro loc found
    cases (makeFoldersUpTo_of_folder found k).symm.trans above
  refine ⟨fun clear => absurd clear (by simp), fun _ => ?_⟩
  cases made : u.makeFolder p with
  | ok v =>
    obtain ⟨folder, located, -⟩ := makeFolder_eq_ok made
    exact absurd located (apart folder)
  | error h =>
    by_cases missing : h = .notFound
    · rw [missing] at made
      exact ⟨i, by rw [makeFoldersUpTo, made]; simp only [above]⟩
    · have ends := ends_of_refused made missing (k + 1)
      by_cases done : u.folderFault? p h = none
      · obtain ⟨loc, found⟩ := ends.done done
        obtain ⟨folder, there⟩ := linkless.locateFolder_parent (locate_of_locateFolder found).1 named
        exact absurd there (apart folder)
      · exact ends.failed done

/-- Where the folder above is there, making the folder needs no other. -/
lemma Linkless.ends_zero (linkless : t.Linkless) (above : t.locateFolder p.parent = .ok loc) (k : Nat)
    (place : Location) :
    Grown place t (t.makeFoldersUpTo p 0).1 ∧ Ends p k (t.makeFoldersUpTo p 0) := by
  cases made : t.makeFolder p with
  | ok u =>
    rw [makeFoldersUpTo, made]
    exact linkless.ends_of_made made k place
  | error f =>
    have other : f ≠ .notFound := by
      rintro rfl
      cases above.symm.trans (locateParent_of_missing made)
    rw [makeFoldersUpTo_of_refused made other]
    exact ⟨.refl, ends_of_refused made other k⟩

lemma Linkless.ends_makeFoldersUpTo (linkless : t.Linkless) (p : Path) (k : Nat) (place : Location) :
    Grown place t (t.makeFoldersUpTo p k).1 ∧ Ends p k (t.makeFoldersUpTo p k) := by
  induction k generalizing p with
  | zero =>
    cases made : t.makeFolder p with
    | ok u =>
      rw [makeFoldersUpTo, made]
      exact linkless.ends_of_made made _ place
    | error f =>
      by_cases missing : f = .notFound
      · rw [missing] at made
        have fails : t.makeFoldersUpTo p 0 = (t, some ⟨.notFound, [p]⟩) := by
          rw [makeFoldersUpTo, made]
        rw [fails]
        exact ⟨.refl, fun clear => absurd clear (by simp), fun _ => ⟨_, fails⟩⟩
      · rw [makeFoldersUpTo_of_refused made missing]
        exact ⟨.refl, ends_of_refused made missing 0⟩
  | succ k ih =>
    cases made : t.makeFolder p with
    | ok u =>
      rw [makeFoldersUpTo, made]
      exact linkless.ends_of_made made _ place
    | error f =>
      by_cases missing : f = .notFound
      · rw [missing] at made
        obtain ⟨grown, ends⟩ := ih p.parent
        rw [makeFoldersUpTo, made]
        dsimp only
        generalize t.makeFoldersUpTo p.parent k = above at grown ends
        obtain ⟨u, fault⟩ := above
        have linkless' := grown.linkless linkless
        cases fault with
        | some g =>
          obtain ⟨f, again⟩ := ends.failed (by simp)
          exact ⟨grown, linkless'.ends_of_failed (linkless.parts_ne_nil made) again⟩
        | none =>
          obtain ⟨loc, found⟩ := ends.done rfl
          obtain ⟨grown', ends'⟩ := linkless'.ends_zero found (k + 1) place
          exact ⟨grown.trans grown', ends'⟩
      · rw [makeFoldersUpTo_of_refused made missing]
        exact ⟨.refl, ends_of_refused made missing (k + 1)⟩

/-! ## Writing again -/

lemma put_self (sound : t.Sound) (below : loc ≠ []) (stands : t.node? loc = some n) :
    t.put loc n = t := by
  have found : t.nodes.lookup loc = some n := by
    rwa [node?, if_neg (by simpa using below)] at stands
  have same : (t.nodes.map fun e => if e.1 = loc then (loc, n) else e) = t.nodes := by
    refine (List.map_congr_left fun e mem => ?_).trans (List.map_id _)
    split
    · rename_i here
      have there := ((mem_nodes_iff sound).1 mem).2
      rw [here, stands] at there
      rw [← here, Option.some.inj there]
      rfl
    · rfl
  rw [put, found, Option.isSome_some, if_pos rfl, same]

/-- The path that names a folder from the root leads there. -/
lemma Linkless.walk_down (linkless : t.Linkless) (stands : t.node? (here ++ names) = some .folder) :
    t.walk true links here names = .ok (here ++ names) := by
  induction names generalizing here with
  | nil => rw [walk.eq_1, List.append_nil]
  | cons name rest ih =>
    rw [List.append_cons] at stands ⊢
    have folder : t.node? (here ++ [name]) = some .folder := by
      by_cases last : rest = []
      · rwa [last, List.append_nil] at stands
      · exact node?_above linkless.toSound last stands
    rw [walk_of_folder (linkless.name_ne_dots folder) folder]
    exact ih stands

lemma Linkless.locateFolder_place (linkless : t.Linkless) (stands : t.node? loc = some .folder) :
    t.locateFolder ⟨1, loc⟩ = .ok loc :=
  locateFolder_of_node? (linkless.walk_down stands) stands

lemma placeOf_eq_concat (named : namesEntry p = true) (t : FileTree) :
    t.placeOf p = t.placeOf p.parent ++ [p.name] := by
  simp only [namesEntry, Bool.and_eq_true, Bool.not_eq_true', bne_iff_ne] at named
  have split := Path.parts_eq_concat (p := p) (by simpa using named.1)
  rw [placeOf, split, foldDots, List.foldl_append, List.foldl_cons, if_neg named.2, List.foldl_nil]
  rfl

lemma short_of_writeFault? {disk : Disk} (free : t.writeFault? p disk = none)
    (located : t.locateParent p = .ok folder) (absent : t.node? (folder ++ [p.name]) = none) :
    isTooLong p.name = false := by
  unfold writeFault? at free
  split at free
  · cases free
  · cases free
  · cases free
  · rw [replaceFault?, located] at free
    dsimp only at free
    split at free
    · cases free
    · rw [absent] at free
      dsimp only at free
      split at free
      · cases free
      · rename_i short
        exact Bool.eq_false_iff.2 short

/-- A file that was written can be written again, and with the same bytes nothing changes. -/
lemma Linkless.write_put (linkless : u.Linkless) (located : u.locateParent p = .ok folder)
    (named : namesEntry p = true) {bytes : Bytes}
    (stands : u.node? (folder ++ [p.name]) = some (.file bytes)) (b : Bytes) :
    u.write p b = (u.put (folder ++ [p.name]) (.file b), none) := by
  obtain ⟨found, isFolder⟩ := locate_of_locateParent located
  have drafted : u.locateFolder (u.draftFolder p) = .ok folder := by
    rw [show u.draftFolder p = ⟨1, folder⟩ by rw [(linkless.of_locate found).1]; rfl]
    exact linkless.locateFolder_place isFolder
  refine write_of_free located named ?_ ?_ drafted rfl b
  · rw [stands]
    simp
  · intro absent
    cases absent.symm.trans stands

/-- Where a file can be moved to its path, the tree grows by it, and it can be written again. -/
lemma Linkless.moves (linkless : u.Linkless) (free : u.writeFault? p .sound = none)
    (located : u.locateParent p = .ok folder) (named : namesEntry p = true)
    (other : u.node? (folder ++ [p.name]) ≠ some .folder) (bytes : Bytes) :
    Grown (u.placeOf p) u (u.put (folder ++ [p.name]) (.file bytes)) ∧
      (∀ b, ((u.put (folder ++ [p.name]) (.file bytes)).write p b).2 = none) ∧
      (u.put (folder ++ [p.name]) (.file bytes)).write p bytes =
        (u.put (folder ++ [p.name]) (.file bytes), none) := by
  have place : folder ++ [p.name] = u.placeOf p := by
    rw [placeOf_eq_concat named, (linkless.of_locate (locate_of_locateParent located).1).1]
  have below : folder ++ [p.name] ≠ [] := by simp
  have short : isTooLong p.name = false := by
    cases stands : u.node? (folder ++ [p.name]) with
    | none => exact short_of_writeFault? free located stands
    | some n => exact linkless.short_of_stands stands
  have plain : p.name ≠ "..".toList := by
    simp only [namesEntry, Bool.and_eq_true, bne_iff_ne] at named
    exact named.2
  have linkless' : (u.put (folder ++ [p.name]) (.file bytes)).Linkless :=
    linkless.put (locate_of_locateParent located).2 plain short (by simp) (.inr other)
  have written : Grown (u.placeOf p) u (u.put (folder ++ [p.name]) (.file bytes)) := by
    rw [place] at other below linkless' ⊢
    exact .file .refl other below linkless'
  have stands : (u.put (folder ++ [p.name]) (.file bytes)).node? (folder ++ [p.name]) =
      some (.file bytes) :=
    node?_put_self below _
  have again := linkless'.write_put (written.locateFolder linkless located) named stands
  refine ⟨written, fun b => ?_, ?_⟩
  · rw [again b]
  · rw [again bytes, put_self linkless'.toSound below stands]

/-- Once a file was written, or could not be, the same happens again. -/
theorem Linkless.write_again (linkless : t.Linkless) (p : Path) (bytes : Bytes) :
    Grown (t.placeOf p) t (t.write p bytes).1 ∧
      ((t.write p bytes).2 ≠ none →
        ∀ b, ∃ f, (t.write p bytes).1.write p b = ((t.write p bytes).1, some f)) ∧
      ((t.write p bytes).2 = none →
        (∀ b, ((t.write p bytes).1.write p b).2 = none) ∧
          (t.write p bytes).1.write p bytes = ((t.write p bytes).1, none)) := by
  obtain ⟨grown, ends⟩ :=
    linkless.ends_makeFoldersUpTo p.parent p.parent.parts.length (t.placeOf p)
  have made : t.makeFolders p.parent = t.makeFoldersUpTo p.parent p.parent.parts.length := rfl
  generalize t.makeFoldersUpTo p.parent p.parent.parts.length = above at grown ends made
  obtain ⟨u, fault⟩ := above
  cases fault with
  | some f =>
    obtain ⟨g, again⟩ := ends.failed (by simp)
    have again : u.makeFolders p.parent = (u, some g) := again
    have fails : t.write p bytes = (u, some f) := by rw [write, made]
    rw [fails]
    exact ⟨grown, fun _ b => ⟨g, by rw [write, again]⟩, fun clear => absurd clear (by simp)⟩
  | none =>
    -- The folders are there now, so all that is left is the write in the tree that has them.
    obtain ⟨folder, found⟩ := ends.done rfl
    have kept := makeFolders_of_folder found
    have same : t.write p bytes = u.write p bytes := by rw [write, made, write, kept]
    rw [same]
    rcases write_eq (congrArg Prod.fst kept) bytes .sound with
      ⟨f, fault, fails⟩ | ⟨free, folder', located, named, other, moves⟩
    · rw [fails]
      refine ⟨grown, fun _ b => ?_, fun clear => absurd clear (by simp)⟩
      rcases write_eq (congrArg Prod.fst kept) b .sound with ⟨g, -, again⟩ | ⟨free, -⟩
      · exact ⟨g, again⟩
      · cases fault.symm.trans free
    · obtain ⟨written, again⟩ := (grown.linkless linkless).moves free located named other bytes
      rw [grown.placeOf] at written
      rw [moves]
      exact ⟨grown.trans written, fun failed => absurd rfl failed, fun _ => again⟩

lemma Linkless.write (linkless : t.Linkless) (p : Path) (bytes : Bytes) : (t.write p bytes).1.Linkless :=
  (linkless.write_again p bytes).1.linkless linkless

/-- Where the folder above a file is there, writing the file makes no folders. -/
lemma folder_of_write (found : t.locateFolder p.parent = .ok folder) (bytes : Bytes)
    (stands : (t.write p bytes).1.node? loc = some .folder) : t.node? loc = some .folder := by
  have made := congrArg Prod.fst (makeFolders_of_folder found)
  rcases write_eq made bytes .sound with ⟨f, -, fails⟩ | ⟨-, folder', -, -, -, moves⟩
  · rwa [fails] at stands
  · rw [moves, node?_put (by simp)] at stands
    split at stands
    · cases stands
    · exact stands

/-- A tree grows by the folders that are made in it. -/
lemma Linkless.grown_makeFolders (linkless : t.Linkless) (p : Path) (place : Location) :
    Grown place t (t.makeFolders p).1 :=
  (linkless.ends_makeFoldersUpTo p p.parts.length place).1

/-- Where the folder above a file is there, only the bytes of the file can be written again without a
change. -/
lemma Linkless.write_unchanged_iff (linkless : u.Linkless) (found : u.locateFolder p.parent = .ok folder)
    {bytes : Bytes} (written : (u.write p bytes).2 = none) (b : Bytes) :
    ((u.write p bytes).1.write p b).1 = (u.write p bytes).1 ↔ b = bytes := by
  have made := congrArg Prod.fst (makeFolders_of_folder found)
  rcases write_eq made bytes .sound with
    ⟨f, -, fails⟩ | ⟨free, folder', located, named, other, moves⟩
  · rw [fails] at written
    cases written
  · have below : folder' ++ [p.name] ≠ [] := by simp
    have grown := (linkless.moves free located named other bytes).1
    have linkless' := grown.linkless linkless
    have stands := node?_put_self (t := u) below (.file bytes)
    rw [moves]
    dsimp only
    rw [linkless'.write_put (grown.locateFolder linkless located) named stands b]
    dsimp only
    constructor
    · intro same
      have there := node?_put_self (t := u.put (folder' ++ [p.name]) (.file bytes)) below (.file b)
      rw [same, stands] at there
      cases there
      rfl
    · rintro rfl
      exact put_self linkless'.toSound below stands

/-- Writing a file makes the folders above it and then no others, and only the bytes that were written
can be written again without a change. -/
lemma Linkless.write_from_prepared (linkless : t.Linkless) {bytes : Bytes}
    (written : (t.write p bytes).2 = none) :
    Grown (t.placeOf p) (t.makeFolders p.parent).1 (t.write p bytes).1 ∧
      (∀ loc, (t.write p bytes).1.node? loc = some .folder →
        (t.makeFolders p.parent).1.node? loc = some .folder) ∧
      ∀ b, ((t.write p bytes).1.write p b).1 = (t.write p bytes).1 ↔ b = bytes := by
  obtain ⟨grown, ends⟩ :=
    linkless.ends_makeFoldersUpTo p.parent p.parent.parts.length (t.placeOf p)
  have made : t.makeFolders p.parent = t.makeFoldersUpTo p.parent p.parent.parts.length := rfl
  generalize t.makeFoldersUpTo p.parent p.parent.parts.length = above at grown ends made
  obtain ⟨u, fault⟩ := above
  cases fault with
  | some f =>
    rw [FileTree.write, made] at written
    cases written
  | none =>
    obtain ⟨folder, found⟩ : ∃ folder, u.locateFolder p.parent = .ok folder := ends.done rfl
    have linkless' : u.Linkless := grown.linkless linkless
    have same : t.write p bytes = u.write p bytes := by
      rw [FileTree.write, made, FileTree.write, makeFolders_of_folder found]
    rw [same] at written ⊢
    rw [made, ← grown.placeOf]
    exact ⟨(linkless'.write_again p bytes).1, fun loc => folder_of_write found bytes,
      linkless'.write_unchanged_iff found written⟩

end FileTree

end Phrasebook
