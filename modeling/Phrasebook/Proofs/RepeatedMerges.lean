import Phrasebook.Command.Program
import Phrasebook.Proofs.GrownFiles
import Phrasebook.Proofs.GrownSelections
import Phrasebook.Proofs.Sessions

/-!
# Merging again

`Merge.effect` says what a merge returns and what it leaves of the files, and `Merge.runs_run` that it does
so on every console. The second merge finds the tree that the first one left: grown by the output and the
folders above it. The configuration is the same then, and so is every file that was merged; a pattern that
goes up behind a name with wildcards may select further ones by way of a new folder, but never fewer. So
the second merge ends as the first did, and if it selects the same files it writes the same bytes. What it
selects is what a merge selects once the folders of the output are there, so whether anything changes can
be told from the first tree (`effect_unchanged_iff`, `merge_again`).
-/

namespace Phrasebook

open Files

namespace Command

namespace Session

variable {t u : FileTree} {place : Location} {a : Arguments}

/-- The configuration file that a session reads. -/
def configPath (a : Arguments) (t : FileTree) : Path :=
  match a.word? "--config" with
  | none => Config.standardPath t
  | some path => .ofText path

/-- A session gets the same configuration from a tree that has grown elsewhere. -/
lemma configOf_grown (linkless : t.Linkless) (grown : t.Grown place u)
    (other : t.placeOf (configPath a t) ≠ place) {config : Config} (loaded : configOf a t = .ok config) :
    configOf a u = .ok config := by
  unfold configPath at other
  unfold configOf at loaded ⊢
  cases named : a.word? "--config" with
  | none =>
    rw [named] at loaded other
    dsimp only at loaded other ⊢
    cases read : Config.loadStandard t.system with
    | error f =>
      rw [read] at loaded
      cases loaded
    | ok l =>
      rw [read] at loaded
      cases loaded
      obtain ⟨l', again, same⟩ := Config.loadStandard_grown linkless grown other read
      rw [again]
      exact congrArg _ same
  | some path =>
    rw [named] at loaded other
    dsimp only at loaded other ⊢
    cases read : Config.readFile t.system (.ofText path) with
    | error f =>
      rw [Config.load, read] at loaded
      cases f with
      | _ => cases loaded
    | ok c =>
      obtain ⟨loc, located⟩ := Config.locate_of_readFile read
      obtain ⟨rfl, -⟩ := linkless.of_locate located
      rw [Config.load, Config.readFile_grown linkless grown located other]
      exact loaded

/-- The path of the configuration file stays the same while a tree grows. -/
lemma configPath_grown (grown : t.Grown place u) : configPath a u = configPath a t := by
  unfold configPath Config.standardPath FileTree.workingPath
  rw [grown.working]

end Session

namespace Merge

open Session

variable {t u : FileTree} {a : Arguments}

/-- The path of the output. -/
def output (a : Arguments) : Path :=
  .ofText ((a.text? "--output").getD "./merged-i18n.json".toList)

/-- The pattern of the files that are merged. -/
def pattern (a : Arguments) : Text :=
  (a.text? "--pattern").getD "*.json".toList

/-- The input folder. -/
def folderOf (a : Arguments) (t : FileTree) : Except Ending Path :=
  match a.word? "--input" with
  | some folder => .ok (.ofText folder)
  | none =>
    match configOf a t with
    | .error e => .error e
    | .ok config =>
      let output := Path.ofText config.outputPath
      .ok (if output.isJson then output.parent else output)

/-- The files of a folder that are merged. -/
def filesIn (a : Arguments) (t : FileTree) (folder : Path) : Except Ending (List Path) :=
  if !t.isFolder folder then .error (.exit 1)
  else if a.isBlank "--output" then .error (.failed .noText)
  else if a.isBlank "--pattern" then
    match t.resolve (output a) with
    | .error f => .error (.failed (.loop f))
    | .ok _ => .error (.failed .noPattern)
  else
    match matchingFiles t folder (pattern a) [output a] with
    | .error f => .error (.failed (.select f))
    | .ok [] => .error (.exit 1)
    | .ok files => .ok files

/-- The files that are merged. -/
def selection (a : Arguments) (t : FileTree) : Except Ending (List Path) :=
  match folderOf a t with
  | .error e => .error e
  | .ok folder =>
    match t.obstacle? true folder with
    | some f => .error (.failed (.file ⟨f, [folder]⟩))
    | none => filesIn a t folder

/-- The mappings in files. -/
def loaded (t : FileTree) : List Path → Except Ending (List (Text × Mapping))
  | [] => .ok []
  | p :: ps =>
    match Mapping.load t p with
    | .error (.obstacle f) => .error (.failed (.file ⟨f, [p]⟩))
    | .error _ => loaded t ps
    | .ok m => (loaded t ps).map ((p.name, m) :: ·)

/-- Writes a merged mapping. -/
def stored (a : Arguments) (m : Mapping) (t : FileTree) : Except Ending Nat × FileTree :=
  match Mapping.store t (output a) m (a.has "--sort") with
  | (u, some _) => (.error (.exit 1), u)
  | (u, none) =>
    match u.resolve (output a) with
    | .error f => (.error (.failed (.loop f)), u)
    | .ok _ => (.ok 0, u)

/-- The mapping that is written. -/
def merged (a : Arguments) (t : FileTree) : Except Ending Mapping :=
  match selection a t with
  | .error e => .error e
  | .ok files => (loaded t files).map fun ms => (Mapping.mergeAll (a.has "--overwrite") ms).merged

/-- What the command returns and the files it leaves. -/
def effect (a : Arguments) (t : FileTree) : Except Ending Nat × FileTree :=
  match merged a t with
  | .error e => (.error e, t)
  | .ok m => stored a m t

lemma runs_inputFolder (a : Arguments) (t : FileTree) : Runs (inputFolder a) t (folderOf a t) t := by
  unfold inputFolder folderOf
  cases a.word? "--input" with
  | some folder => exact Runs.pure _
  | none =>
    have runs := Runs.config a t
    dsimp only
    cases read : configOf a t with
    | error e =>
      rw [read] at runs
      exact runs.stop
    | ok config =>
      rw [read] at runs
      exact runs.bind (Runs.pure _)

lemma runs_load (t : FileTree) (ps : List Path) : Runs (load ps) t (loaded t ps) t := by
  induction ps with
  | nil => exact Runs.pure _
  | cons p ps ih =>
    refine Runs.tree.bind ?_
    rw [loaded]
    cases Mapping.load t p with
    | error f =>
      cases f with
      | obstacle f => exact Runs.fail _
      | _ => exact (Runs.log _).bind ih
    | ok m =>
      refine (Runs.print _).bind ?_
      dsimp only
      cases more : loaded t ps with
      | error e =>
        rw [more] at ih
        exact ih.stop
      | ok ms =>
        rw [more] at ih
        exact ih.bind (Runs.pure _)

lemma effect_of_refused {e : Ending} (refused : selection a t = .error e) : effect a t = (.error e, t) := by
  rw [effect, merged, refused]

/-- What is done with the files, whatever is printed on the way. -/
lemma runs_merge (a : Arguments) (t : FileTree) {files : List Path} (chosen : selection a t = .ok files)
    (start : Text) (report closing : List (Text × Mapping) → List Text) (complaint : Incident → Text)
    (last : Path → Text) :
    Runs (do
      print start
      let ms ← load files
      printAll (report ms)
      match ← store (output a) (Mapping.mergeAll (a.has "--overwrite") ms).merged (a.has "--sort") with
      | some i => refuse (complaint i)
      | none =>
        printAll (closing ms)
        print (last (← resolve (output a)))
        return 0) t (effect a t).1 (effect a t).2 := by
  refine (Runs.print _).bind ?_
  have loads := runs_load t files
  rw [effect, merged, chosen]
  dsimp only
  cases read : loaded t files with
  | error e =>
    rw [read] at loads
    exact loads.stop
  | ok ms =>
    rw [read] at loads
    refine loads.bind ((Runs.printAll _).bind ((Runs.store _ _ _).bind ?_))
    change Runs _ _ (stored a _ t).1 (stored a _ t).2
    rw [stored]
    generalize Mapping.store t (output a) _ _ = after
    obtain ⟨u, fault⟩ := after
    cases fault with
    | some f => exact Runs.refuse _
    | none =>
      refine (Runs.printAll _).bind ?_
      dsimp only
      cases resolved : u.resolve (output a) with
      | error f => exact (Runs.resolve_loop resolved).stop
      | ok q => exact (Runs.resolve resolved).bind ((Runs.print _).bind (Runs.pure 0))

/-- How files are chosen in a folder, whatever is said of missing ones and done with those there are. -/
lemma runs_choose (a : Arguments) (t : FileTree) {folder : Path}
    (chosen : selection a t = filesIn a t folder) (missing : Text) (nothing : Text → Text)
    {k : Path → Text → List Path → Session Nat}
    (merges : ∀ files, selection a t = .ok files →
      Runs (k (output a) (pattern a) files) t (effect a t).1 (effect a t).2) :
    Runs (do
      if !(← tree).isFolder folder then refuse missing
      let output ← outputFor a
      let pattern ← patternFor a output
      match matchingFiles (← tree) folder pattern [output] with
      | .error f => fail (.select f)
      | .ok [] => refuse (nothing pattern)
      | .ok files => k output pattern files) t (effect a t).1 (effect a t).2 := by
  refine Runs.tree.bind ?_
  unfold filesIn at chosen
  by_cases absent : (!t.isFolder folder) = true
  · rw [if_pos absent] at chosen ⊢
    rw [effect_of_refused chosen]
    exact (Runs.refuse _).stop
  · rw [if_neg absent] at chosen ⊢
    unfold outputFor
    by_cases blank : a.isBlank "--output" = true
    · rw [if_pos blank] at chosen ⊢
      rw [effect_of_refused chosen]
      exact (Runs.fail _).stop
    · rw [if_neg blank] at chosen ⊢
      refine (Runs.pure (output a)).bind ?_
      unfold patternFor
      by_cases blank : a.isBlank "--pattern" = true
      · rw [if_pos blank] at chosen ⊢
        cases resolved : t.resolve (output a) with
        | error f =>
          rw [resolved] at chosen
          rw [effect_of_refused chosen]
          exact (Runs.resolve_loop resolved).stop.stop
        | ok q =>
          rw [resolved] at chosen
          rw [effect_of_refused chosen]
          exact ((Runs.resolve resolved).bind (Runs.fail _)).stop
      · rw [if_neg blank] at chosen ⊢
        refine (Runs.pure (pattern a)).bind (Runs.tree.bind ?_)
        split
        · rename_i f failed
          rw [failed] at chosen
          rw [effect_of_refused chosen]
          exact Runs.fail _
        · rename_i empty
          rw [empty] at chosen
          rw [effect_of_refused chosen]
          exact Runs.refuse _
        · rename_i files filled selected
          rw [selected] at chosen
          cases files with
          | nil => exact absurd rfl filled
          | cons file files => exact merges _ chosen

lemma runs_run (a : Arguments) (t : FileTree) : Runs (run a) t (effect a t).1 (effect a t).2 := by
  unfold run
  refine (Runs.setLevel _).bind ?_
  have folder := runs_inputFolder a t
  cases found : folderOf a t with
  | error e =>
    rw [found] at folder
    have refused : selection a t = .error e := by rw [selection, found]
    rw [effect_of_refused refused]
    exact folder.stop
  | ok path =>
    rw [found] at folder
    refine folder.bind ?_
    have looks : selection a t = match t.obstacle? true path with
        | some f => .error (.failed (.file ⟨f, [path]⟩))
        | none => filesIn a t path := by
      rw [selection, found]
    cases obstacle : t.obstacle? true path with
    | some f =>
      rw [obstacle] at looks
      rw [effect_of_refused looks]
      exact (Runs.lookUp_obstacle obstacle).stop
    | none =>
      rw [obstacle] at looks
      refine (Runs.lookUp obstacle).bind ?_
      exact runs_choose a t looks _ _ fun files chosen => runs_merge a t chosen _ _ _ _ _

/-! ## The second time -/

variable {files : List Path}

lemma folderOf_grown {place : Location} {folder : Path} (linkless : t.Linkless) (grown : t.Grown place u)
    (spared : a.word? "--input" = none → t.placeOf (configPath a t) ≠ place)
    (found : folderOf a t = .ok folder) : folderOf a u = .ok folder := by
  unfold folderOf at found ⊢
  cases given : a.word? "--input" with
  | some path =>
    rw [given] at found
    exact found
  | none =>
    rw [given] at found
    dsimp only at found ⊢
    cases read : configOf a t with
    | error e =>
      rw [read] at found
      cases found
    | ok config =>
      rw [read] at found
      rw [configOf_grown linkless grown (spared given) read]
      exact found

lemma filesIn_eq_ok_iff {folder : Path} :
    filesIn a t folder = .ok files ↔ t.isFolder folder = true ∧ a.isBlank "--output" = false ∧
      a.isBlank "--pattern" = false ∧ matchingFiles t folder (pattern a) [output a] = .ok files ∧
      files ≠ [] := by
  constructor
  · intro chosen
    rw [filesIn] at chosen
    split at chosen
    · cases chosen
    · rename_i isFolder
      split at chosen
      · cases chosen
      · rename_i given
        split at chosen
        · split at chosen
          · cases chosen
          · cases chosen
        · rename_i given'
          split at chosen
          · cases chosen
          · cases chosen
          · rename_i filled selected
            cases chosen
            exact ⟨by simpa using isFolder, by simpa using given, by simpa using given', selected,
              fun empty => filled (by rw [empty])⟩
  · rintro ⟨isFolder, given, given', selected, filled⟩
    rw [filesIn, isFolder, given, given', selected]
    cases files with
    | nil => exact absurd rfl filled
    | cons file files => rfl

lemma selection_eq_ok_iff :
    selection a t = .ok files ↔ ∃ folder, folderOf a t = .ok folder ∧ t.obstacle? true folder = none ∧
      filesIn a t folder = .ok files := by
  rw [selection]
  cases folderOf a t with
  | error e => simp
  | ok folder =>
    cases free : t.obstacle? true folder with
    | some f => simp [free]
    | none => simp [free]

lemma selection_grown (linkless : t.Linkless) (grown : t.Grown (t.placeOf (output a)) u)
    (spared : a.word? "--input" = none → t.placeOf (configPath a t) ≠ t.placeOf (output a))
    (chosen : selection a t = .ok files) :
    (∃ files', selection a u = .ok files') ∧
      ((climbs (pattern a) = false ∨ ∀ loc, u.node? loc = some .folder → t.node? loc = some .folder) →
        selection a u = .ok files) := by
  obtain ⟨folder, found, free, files⟩ := selection_eq_ok_iff.1 chosen
  obtain ⟨isFolder, given, given', selected, filled⟩ := filesIn_eq_ok_iff.1 files
  obtain ⟨file, rest, rfl⟩ := List.exists_cons_of_ne_nil filled
  obtain ⟨loc, located, stands⟩ := FileTree.exists_of_isFolder isFolder
  have located' := grown.locate linkless located
  have free' := (grown.obstacle? linkless located).trans free
  have isFolder' := (FileTree.isFolder_iff_of_locate located').2 (grown.folder_kept stands)
  have found' := folderOf_grown linkless grown spared found
  obtain ⟨⟨file', rest', more⟩, same⟩ := matchingFiles_grown linkless grown selected
  constructor
  · exact ⟨_, selection_eq_ok_iff.2 ⟨folder, found', free',
      filesIn_eq_ok_iff.2 ⟨isFolder', given, given', more, List.cons_ne_nil _ _⟩⟩⟩
  · exact fun calm => selection_eq_ok_iff.2 ⟨folder, found', free',
      filesIn_eq_ok_iff.2 ⟨isFolder', given, given', same calm, filled⟩⟩

/-- The files that are merged are files, and none is the output. -/
lemma of_mem_selection {p : Path} (linkless : t.Linkless) (chosen : selection a t = .ok files)
    (mem : p ∈ files) :
    ∃ loc bytes, t.locate true p = .ok loc ∧ t.node? loc = some (.file bytes) ∧
      loc ≠ t.placeOf (output a) := by
  obtain ⟨folder, -, -, files⟩ := selection_eq_ok_iff.1 chosen
  obtain ⟨-, -, -, selected, -⟩ := filesIn_eq_ok_iff.1 files
  exact of_mem_matchingFiles linkless selected mem

lemma exists_loaded (located : ∀ p ∈ files, ∃ loc, t.locate true p = .ok loc) :
    ∃ ms, loaded t files = .ok ms := by
  induction files with
  | nil => exact ⟨[], rfl⟩
  | cons p ps ih =>
    obtain ⟨ms, rest⟩ := ih fun q mem => located q (List.mem_cons_of_mem _ mem)
    obtain ⟨loc, there⟩ := located p List.mem_cons_self
    rw [loaded]
    cases load : Mapping.load t p with
    | ok m => exact ⟨(p.name, m) :: ms, by rw [rest]; rfl⟩
    | error f =>
      cases f with
      | obstacle f => exact absurd load (Mapping.load_ne_obstacle there f)
      | _ => exact ⟨ms, rest⟩

lemma loaded_congr (same : ∀ p ∈ files, Mapping.load u p = Mapping.load t p) :
    loaded u files = loaded t files := by
  induction files with
  | nil => rfl
  | cons p ps ih =>
    rw [loaded, loaded, same p List.mem_cons_self, ih fun q mem => same q (List.mem_cons_of_mem _ mem)]

lemma merged_grown (linkless : t.Linkless) (grown : t.Grown (t.placeOf (output a)) u)
    (spared : a.word? "--input" = none → t.placeOf (configPath a t) ≠ t.placeOf (output a)) {m : Mapping}
    (done : merged a t = .ok m) :
    (∃ m', merged a u = .ok m') ∧
      ((climbs (pattern a) = false ∨ ∀ loc, u.node? loc = some .folder → t.node? loc = some .folder) →
        merged a u = .ok m) := by
  have linkless' := grown.linkless linkless
  rw [merged] at done
  cases chosen : selection a t with
  | error e =>
    rw [chosen] at done
    cases done
  | ok files =>
    rw [chosen] at done
    obtain ⟨⟨files', more⟩, same⟩ := selection_grown linkless grown spared chosen
    constructor
    · obtain ⟨ms, loads⟩ : ∃ ms, loaded u files' = .ok ms := by
        refine exists_loaded fun p mem => ?_
        obtain ⟨loc, -, located, -⟩ := of_mem_selection linkless' more mem
        exact ⟨loc, located⟩
      rw [merged, more]
      dsimp only
      rw [loads]
      exact ⟨_, rfl⟩
    · intro calm
      have loads : loaded u files = loaded t files := by
        refine loaded_congr fun p mem => ?_
        obtain ⟨loc, -, located, -, other⟩ := of_mem_selection linkless chosen mem
        exact Mapping.load_grown linkless grown located other
      rw [merged, same calm]
      dsimp only
      rw [loads]
      exact done

/-- The bytes of a merged mapping. -/
def bytesOf (a : Arguments) (m : Mapping) : Bytes :=
  Utf8.encode (if a.has "--sort" then m.sorted else m).dump

lemma stored_eq (linkless : t.Linkless) (a : Arguments) (m : Mapping) :
    stored a m t = match t.write (output a) (bytesOf a m) with
      | (u, some _) => (.error (.exit 1), u)
      | (u, none) => (.ok 0, u) := by
  have grown := (linkless.write_again (output a) (bytesOf a m)).1
  have written : Mapping.store t (output a) m (a.has "--sort") = t.write (output a) (bytesOf a m) := rfl
  rw [stored, written]
  generalize t.write (output a) (bytesOf a m) = after at grown
  obtain ⟨u, fault⟩ := after
  cases fault with
  | some f => rfl
  | none =>
    dsimp only
    rw [(grown.linkless linkless).resolve_eq]

/-- Where the folder of the output is there, a merge makes no folders. -/
lemma folder_of_output {loc : Location} (isFolder : t.isFolder (output a).parent = true) (m : Mapping)
    (stands : (t.write (output a) (bytesOf a m)).1.node? loc = some .folder) :
    t.node? loc = some .folder := by
  obtain ⟨folder, located, there⟩ := FileTree.exists_of_isFolder isFolder
  exact FileTree.folder_of_write (FileTree.locateFolder_of_node? located there) _ stands

/-- A command that ran once ends in the same way when it runs again. It changes no file then, if the
pattern does not go up behind a name with wildcards or if the folder of the output was there. -/
lemma effect_again (linkless : t.Linkless)
    (spared : a.word? "--input" = none → t.placeOf (configPath a t) ≠ t.placeOf (output a)) :
    (effect a (effect a t).2).1 = (effect a t).1 ∧
      (climbs (pattern a) = false ∨ t.isFolder (output a).parent = true →
        (effect a (effect a t).2).2 = (effect a t).2) := by
  cases done : merged a t with
  | error e =>
    have same : effect a t = (.error e, t) := by rw [effect, done]
    rw [same]
    dsimp only
    rw [same]
    exact ⟨rfl, fun _ => rfl⟩
  | ok m =>
    obtain ⟨grown, fails, succeeds⟩ := linkless.write_again (output a) (bytesOf a m)
    have calm (guard : climbs (pattern a) = false ∨ t.isFolder (output a).parent = true) :
        climbs (pattern a) = false ∨ ∀ loc, (t.write (output a) (bytesOf a m)).1.node? loc = some .folder →
          t.node? loc = some .folder :=
      guard.imp_right fun isFolder loc => folder_of_output isFolder m
    have first : effect a t = stored a m t := by rw [effect, done]
    rw [stored_eq linkless] at first
    generalize t.write (output a) (bytesOf a m) = after at grown fails succeeds calm first
    obtain ⟨u, fault⟩ := after
    have linkless' := grown.linkless linkless
    obtain ⟨⟨m', more⟩, same⟩ := merged_grown linkless grown spared done
    have second : effect a u = stored a m' u := by rw [effect, more]
    cases fault with
    | some f =>
      obtain ⟨g, again⟩ := fails (by simp) (bytesOf a m')
      dsimp only at again
      rw [stored_eq linkless', again] at second
      rw [first]
      dsimp only
      rw [second]
      exact ⟨rfl, fun _ => rfl⟩
    | none =>
      obtain ⟨passes, again⟩ := succeeds rfl
      rw [first]
      dsimp only
      constructor
      · have passed := passes (bytesOf a m')
        dsimp only at passed
        rw [second, stored_eq linkless']
        generalize u.write (output a) (bytesOf a m') = after' at passed
        obtain ⟨v, fault⟩ := after'
        obtain rfl : fault = none := passed
        rfl
      · intro guard
        dsimp only at again
        rw [effect, same (calm guard)]
        dsimp only
        rw [stored_eq linkless', again]

/-- The tree with the folders above the output. -/
def prepared (a : Arguments) (t : FileTree) : FileTree :=
  (t.makeFolders (output a).parent).1

/-- Whether a merge that can be written comes to the same bytes once the folders above its output are
there. -/
def IsSteady (a : Arguments) (t : FileTree) : Prop :=
  ∀ m m', merged a t = .ok m → (t.write (output a) (bytesOf a m)).2 = none →
    merged a (prepared a t) = .ok m' → bytesOf a m' = bytesOf a m

/-- After a merge has been written, the next one merges what the folders above the output lead to. -/
lemma merged_written (linkless : t.Linkless)
    (spared : a.word? "--input" = none → t.placeOf (configPath a t) ≠ t.placeOf (output a)) {m : Mapping}
    (done : merged a t = .ok m) (written : (t.write (output a) (bytesOf a m)).2 = none) :
    ∃ m', merged a (prepared a t) = .ok m' ∧
      merged a (t.write (output a) (bytesOf a m)).1 = .ok m' := by
  have grown : t.Grown (t.placeOf (output a)) (prepared a t) := linkless.grown_makeFolders _ _
  obtain ⟨grown', still, -⟩ := linkless.write_from_prepared written
  obtain ⟨⟨m', more⟩, -⟩ := merged_grown linkless grown spared done
  rw [← grown.placeOf] at grown'
  have spared' : a.word? "--input" = none →
      (prepared a t).placeOf (configPath a (prepared a t)) ≠ (prepared a t).placeOf (output a) := by
    rw [configPath_grown grown, grown.placeOf, grown.placeOf]
    exact spared
  exact ⟨m', more, (merged_grown (grown.linkless linkless) grown' spared' more).2 (.inr still)⟩

/-- A merge that is run again changes no file exactly if it is steady. -/
lemma effect_unchanged_iff (linkless : t.Linkless)
    (spared : a.word? "--input" = none → t.placeOf (configPath a t) ≠ t.placeOf (output a)) :
    (effect a (effect a t).2).2 = (effect a t).2 ↔ IsSteady a t := by
  cases done : merged a t with
  | error e =>
    have same : effect a t = (.error e, t) := by rw [effect, done]
    refine iff_of_true (by rw [same, same]) fun m m' first => ?_
    rw [done] at first
    cases first
  | ok m =>
    have first : effect a t = stored a m t := by rw [effect, done]
    rw [stored_eq linkless] at first
    obtain ⟨grown, fails, succeeds⟩ := linkless.write_again (output a) (bytesOf a m)
    have linkless' := grown.linkless linkless
    cases fault : (t.write (output a) (bytesOf a m)).2 with
    | some f =>
      have failed : (t.write (output a) (bytesOf a m)).2 ≠ none := by simp [fault]
      obtain ⟨⟨m', more⟩, -⟩ := merged_grown linkless grown spared done
      obtain ⟨g, again⟩ := fails failed (bytesOf a m')
      refine iff_of_true ?_ fun n n' ok written => ?_
      · generalize t.write (output a) (bytesOf a m) = after at *
        obtain ⟨u, fault'⟩ := after
        obtain rfl : fault' = some f := fault
        rw [first]
        dsimp only at more again ⊢
        rw [effect, more]
        dsimp only
        rw [stored_eq linkless', again]
      · cases done.symm.trans ok
        exact absurd written failed
    | none =>
      obtain ⟨m', more, again⟩ := merged_written linkless spared done fault
      obtain ⟨-, -, unchanged⟩ := linkless.write_from_prepared fault
      have passed := (succeeds fault).1 (bytesOf a m')
      have same := unchanged (bytesOf a m')
      have steady : IsSteady a t ↔ bytesOf a m' = bytesOf a m := by
        constructor
        · exact fun steady => steady m m' done fault more
        · intro bytes n n' ok _ ok'
          cases done.symm.trans ok
          cases more.symm.trans ok'
          exact bytes
      rw [steady, ← same]
      generalize t.write (output a) (bytesOf a m) = after at *
      obtain ⟨u, fault'⟩ := after
      obtain rfl : fault' = none := fault
      rw [first]
      dsimp only at again passed ⊢
      rw [effect, again]
      dsimp only
      rw [stored_eq linkless']
      generalize u.write (output a) (bytesOf a m') = after' at *
      obtain ⟨v, fault'⟩ := after'
      obtain rfl : fault' = none := passed
      rfl

end Merge

open Session

variable {p : Program} {c c' : Console} {ts : List Text}

/-- How a program ends whose session returns `r`. -/
def endingOf (r : Except Ending Nat) : Ending :=
  match r with
  | .ok code => .exit code
  | .error ending => ending

lemma start_of_runs {a : Arguments} {r : Except Ending Nat} {u : FileTree} (read : p.read ts = .ok a)
    (runs : Runs (p.run a) c.tree r u) :
    (p.start c ts).1 = .ended (endingOf r) ∧ (p.start c ts).2.tree = u := by
  obtain ⟨returned, left⟩ := runs c rfl
  rw [Program.start, read]
  dsimp only
  generalize (p.run a).run.run c = ran at returned left
  obtain ⟨x, c⟩ := ran
  obtain rfl : x = r := returned
  obtain rfl : c.tree = u := left
  cases x with
  | ok code => exact ⟨rfl, rfl⟩
  | error ending => exact ⟨rfl, rfl⟩

/-- Without links, and with an output that is not the configuration file, a merge that is run again ends
as it did. It leaves all files as they are exactly if, on the first tree with the folders above the output
added, it comes to the bytes that the first merge wrote. So it does if its pattern does not go up behind a
name with wildcards or if the folder of the output was there the first time. -/
theorem merge_again (named : program? "merge-i18n-json".toList = some p) (linkless : c.tree.Linkless)
    (spared : ∀ a, p.read ts = .ok a → a.word? "--input" = none →
      c.tree.resolve (Merge.output a) ≠ c.tree.resolve (configPath a c.tree))
    (next : c'.tree = (p.start c ts).2.tree) :
    (p.start c' ts).1 = (p.start c ts).1 ∧
      ((∀ a, p.read ts = .ok a →
          climbs (Merge.pattern a) = false ∨ c.tree.isFolder (Merge.output a).parent = true) →
        (p.start c' ts).2.tree = c'.tree) ∧
      ((p.start c' ts).2.tree = c'.tree ↔ ∀ a, p.read ts = .ok a → Merge.IsSteady a c.tree) := by
  obtain rfl : { usage := Merge.usage, run := Merge.run } = p := Option.some.inj named
  cases read : Program.read { usage := Merge.usage, run := Merge.run } ts with
  | error stop =>
    cases stop with
    | help =>
      rw [Program.start, Program.start, read]
      exact ⟨rfl, fun _ => rfl, iff_of_true rfl fun a other => by cases other⟩
    | fault f =>
      rw [Program.start, Program.start, read]
      exact ⟨rfl, fun _ => rfl, iff_of_true rfl fun a other => by cases other⟩
  | ok a =>
    have spared : a.word? "--input" = none →
        c.tree.placeOf (configPath a c.tree) ≠ c.tree.placeOf (Merge.output a) := by
      intro given same
      refine spared a read given ?_
      rw [linkless.resolve_eq, linkless.resolve_eq, same]
    obtain ⟨ended, left⟩ := start_of_runs read (Merge.runs_run a c.tree)
    rw [left] at next
    obtain ⟨ended', left'⟩ := start_of_runs read (Merge.runs_run a c'.tree)
    obtain ⟨again, calm⟩ := Merge.effect_again linkless spared
    have steady := Merge.effect_unchanged_iff linkless spared
    rw [ended, ended', left', next, again]
    refine ⟨rfl, fun guard => calm (guard a rfl), steady.trans ⟨fun same b other => ?_, fun all => all a rfl⟩⟩
    cases other
    exact same

/-- A mapping file beside a folder with another one. -/
def shelf : FileTree :=
  (((FileTree.empty []).write (.ofString "a.json") (Utf8.encode "\x7b\x7d".toList)).1.write
    (.ofString "in/a.json") (Utf8.encode "\x7b\"\":\"\"\x7d".toList)).1

lemma shelf_eq : shelf =
    ⟨[(["a.json".toList], .file [123, 125]), (["in".toList], .folder),
      (["in".toList, "a.json".toList], .file [123, 34, 34, 58, 34, 34, 125])], []⟩ := by
  cbv

lemma linkless_shelf : shelf.Linkless :=
  ((FileTree.linkless_empty (by simp) (by simp)).write _ _).write _ _

/-- Merges the files of the folder into one beside them. -/
def level : List Text :=
  ["--input=in".toList, "--output=in/b.json".toList]

/-- Merges the files above the folder and the folders in it into one in a folder that is not there. -/
def climbing : List Text :=
  ["--input=in".toList, "--pattern=**/../a.json".toList, "--output=in/e/b.json".toList]

/-- The arguments of `climbing`. -/
def climbingArguments : Arguments where
  options := [("--input", .text "in".toList), ("--pattern", .text "**/../a.json".toList),
    ("--output", .text "in/e/b.json".toList)]

lemma effect_shelf : (Merge.effect climbingArguments shelf).2 =
    (shelf.put ["in".toList, "e".toList] .folder).put ["in".toList, "e".toList, "b.json".toList]
      (.file [123, 125]) := by
  rw [shelf_eq]
  cbv

lemma effect_shelf_again :
    (Merge.effect climbingArguments (Merge.effect climbingArguments shelf).2).2.node?
      ["in".toList, "e".toList, "b.json".toList] =
      some (.file [123, 10, 32, 32, 34, 34, 58, 32, 34, 34, 10, 125]) := by
  rw [effect_shelf, shelf_eq]
  cbv

/-- A merge whose output matches its own pattern changes nothing the second time. One that goes up from
the folder it has made finds another file there. -/
theorem merge_again_unless_climbing :
    ∃ p, program? "merge-i18n-json".toList = some p ∧
      (∀ c' : Console, c'.tree = (p.start { tree := shelf } level).2.tree →
        (p.start c' level).2.tree = c'.tree) ∧
      ∀ c' : Console, c'.tree = (p.start { tree := shelf } climbing).2.tree →
        (p.start c' climbing).1 = (p.start { tree := shelf } climbing).1 ∧
          (p.start c' climbing).2.tree ≠ c'.tree := by
  have readLevel : Program.read { usage := Merge.usage, run := Merge.run } level =
      .ok { options := [("--input", .text "in".toList), ("--output", .text "in/b.json".toList)] } := by
    cbv
  have readClimbing : Program.read { usage := Merge.usage, run := Merge.run } climbing =
      .ok climbingArguments := by
    cbv
  refine ⟨{ usage := Merge.usage, run := Merge.run }, rfl, ?_, ?_⟩
  · intro c' next
    refine (merge_again rfl linkless_shelf ?_ next).2.1 ?_
    · intro a read given
      cases readLevel.symm.trans read
      exact absurd given (by decide)
    · intro a read
      cases readLevel.symm.trans read
      exact .inl (by decide)
  · intro c' next
    refine ⟨(merge_again rfl linkless_shelf ?_ next).1, ?_⟩
    · intro a read given
      cases readClimbing.symm.trans read
      exact absurd given (by decide)
    · rw [(start_of_runs readClimbing (Merge.runs_run _ shelf)).2] at next
      rw [(start_of_runs readClimbing (Merge.runs_run _ _)).2, next]
      intro same
      have bytes := effect_shelf_again
      rw [same, effect_shelf, FileTree.node?_put (by simp), if_pos rfl] at bytes
      exact absurd bytes (by decide)


end Command

end Phrasebook
