import Mathlib
import Phrasebook.Files.Discover
import Phrasebook.Proofs.FileTrees
import Phrasebook.Proofs.IgnoredPaths
import Phrasebook.Proofs.MappingFiles
import Phrasebook.Proofs.SoundTrees

/-!
# What discovery finds

The walk below a root lists the ways down on which it finds something, folder by folder
(`mem_walkFolder`). Told at once, these are the ways that end in a wanted entry and lead through
folders none of which is passed over (`finds_iff`). In a sound tree such a way leads from the root, as
a path, to where its names lead from the place of the root (`isFolder_descend`), so what is found can
be said of paths alone (`mem_discover`).
-/

namespace Phrasebook

open Files

/-! ## The order of paths -/

namespace Path

lemma leParts_iff {a b : List Text} : leParts a b = true ↔ a ≤ b := by
  rw [le_iff_lt_or_eq]
  induction a generalizing b with
  | nil => cases b <;> simp [leParts]
  | cons x xs ih =>
    cases b with
    | nil => simp [leParts]
    | cons y ys =>
      rw [leParts, List.cons_lt_cons_iff, List.cons.injEq]
      split
      · rename_i same
        simp [same, ih]
      · rename_i other
        simp [other, Text.le_iff]

lemma le_iff {p q : Path} : le p q = true ↔ p.orderKey ≤ q.orderKey :=
  leParts_iff

lemma pairwise_mergeSort (ps : List Path) : (ps.mergeSort le).Pairwise (le · · = true) := by
  refine List.pairwise_mergeSort ?_ ?_ ps
  · intro p q r first second
    rw [le_iff] at first second ⊢
    exact first.trans second
  · intro p q
    rw [Bool.or_eq_true, le_iff, le_iff]
    exact le_total _ _

end Path

/-! ## Ways down -/

namespace Files

/-- Whether something holds wherever a way of names stops short of its end. -/
def Along (names : List Text) (P : List Text → Prop) : Prop :=
  ∀ front, front <+: names → front ≠ [] → front ≠ names → P front

variable {t : FileTree} {loc : Location} {root here p : Path} {name : Text} {names : List Text}
  {P : List Text → Prop}

lemma along_singleton (name : Text) : Along [name] P := by
  intro front short filled other
  rcases List.prefix_cons_iff.1 short with rfl | ⟨rest, rfl, empty⟩
  · exact absurd rfl filled
  · rw [List.prefix_nil.1 empty] at other
    exact absurd rfl other

lemma along_cons (more : names ≠ []) :
    Along (name :: names) P ↔ P [name] ∧ Along names fun front => P (name :: front) := by
  constructor
  · intro along
    refine ⟨along [name] (List.prefix_append [name] names) (by simp) (by simpa using more.symm), ?_⟩
    intro front short filled other
    exact along _ (List.cons_prefix_cons.2 ⟨rfl, short⟩) (by simp) (by simpa using other)
  · rintro ⟨first, along⟩ front short filled other
    rcases List.prefix_cons_iff.1 short with rfl | ⟨rest, rfl, inner⟩
    · exact absurd rfl filled
    · by_cases empty : rest = []
      · rw [empty]
        exact first
      · exact along rest inner empty (by simpa using other)

/-- Names that lead through folders lead on from the last of these. -/
lemma walk_along {follow : Bool} {links : Nat} (plain : "..".toList ∉ names) (nonempty : names ≠ [])
    (way : Along names fun front => t.node? (loc ++ front) = .some .folder) :
    t.walk follow links loc names =
      t.walk follow links (loc ++ names.dropLast) [names.getLast nonempty] := by
  induction names generalizing loc with
  | nil => exact absurd rfl nonempty
  | cons name names ih =>
    by_cases more : names = []
    · subst more
      simp
    · rw [List.mem_cons, not_or] at plain
      obtain ⟨first, rest⟩ := (along_cons more).1 way
      rw [FileTree.walk_of_folder (Ne.symm plain.1) first,
        ih plain.2 more (by simpa only [List.append_assoc, List.singleton_append] using rest)]
      rw [List.dropLast_cons_of_ne_nil more, List.getLast_cons more, List.append_assoc,
        List.singleton_append]

/-- What a way through folders leads to from a root counts as a folder if the path leads to one. -/
lemma isFolder_descend (located : t.locateFolder root = .ok loc) (plain : "..".toList ∉ names)
    (nonempty : names ≠ []) {n : Node} (stands : t.node? (loc ++ names) = .some n)
    (way : Along names fun front => t.node? (loc ++ front) = .some .folder) :
    t.isFolder (root.descend names) = countsAsFolder t (root.descend names) n := by
  obtain ⟨found, isFolder⟩ := FileTree.locate_of_locateFolder located
  obtain ⟨k, whole⟩ : ∃ k, t.locate true (root.descend names) = t.walk true k loc names := by
    rcases t.walk_append true FileTree.linkLimit (FileTree.startOf root.isAbsolute t.working) root.parts
      nonempty with ⟨place, k, first, whole⟩ | ⟨f, -, failed | ⟨place, bytes, first, file⟩⟩
    · cases first.symm.trans found
      exact ⟨k, whole⟩
    · cases failed.symm.trans found
    · cases first.symm.trans found
      cases isFolder.symm.trans file
  rw [walk_along plain nonempty way] at whole
  have last : names.getLast nonempty ≠ "..".toList := fun same => plain (same ▸ List.getLast_mem nonempty)
  have place : loc ++ names.dropLast ++ [names.getLast nonempty] = loc ++ names := by
    rw [List.append_assoc, List.dropLast_append_getLast]
  cases n with
  | folder =>
    rw [FileTree.walk_of_folder last (place ▸ stands), FileTree.walk.eq_1, place] at whole
    rw [FileTree.isFolder, FileTree.stat, whole]
    simp only [stands, countsAsFolder]
  | file bytes =>
    rw [FileTree.walk_of_file last (place ▸ stands), List.isEmpty_nil, if_pos rfl, place] at whole
    rw [FileTree.isFolder, FileTree.stat, whole]
    simp only [stands, countsAsFolder]
  | link target => rfl

/-! ## What the walk finds -/

/-- The ways down on which the walk of a search finds something, folder by folder. -/
inductive Finds (t : FileTree) (s : Search) : Location → Path → List Text → Prop where
  | entry {loc : Location} {here : Path} {name : Text} {n : Node} :
    t.node? (loc ++ [name]) = some n →
    countsAsFolder t (here.child name) n = false →
    s.wants (here.child name) = true →
    Finds t s loc here [name]
  | folder {loc : Location} {here : Path} {name : Text} {names : List Text} :
    t.node? (loc ++ [name]) = some .folder →
    s.skips (here.child name) = false →
    Finds t s (loc ++ [name]) (here.child name) names →
    Finds t s loc here (name :: names)

variable {s : Search}

lemma Finds.ne_nil (found : Finds t s loc here names) : names ≠ [] := by
  cases found with
  | entry => exact List.cons_ne_nil _ _
  | folder => exact List.cons_ne_nil _ _

/-- What the walk lists at one entry of a folder. -/
def walkEntry (t : FileTree) (s : Search) (fuel : Nat) (loc : Location) (here : Path)
    (e : Text × Node) : List Path :=
  match e.2 with
  | .folder =>
    if s.skips (here.child e.1) then [] else walkFolder t s fuel (loc ++ [e.1]) (here.child e.1)
  | n =>
    if !countsAsFolder t (here.child e.1) n && s.wants (here.child e.1) then [here.child e.1] else []

lemma walkFolder_succ (t : FileTree) (s : Search) (fuel : Nat) (loc : Location) (here : Path) :
    walkFolder t s (fuel + 1) loc here = (t.children loc).flatMap (walkEntry t s fuel loc here) :=
  rfl

lemma mem_walkEntry {fuel : Nat} {e : Text × Node} :
    p ∈ walkEntry t s fuel loc here e ↔
      (e.2 = .folder ∧ s.skips (here.child e.1) = false ∧
        p ∈ walkFolder t s fuel (loc ++ [e.1]) (here.child e.1)) ∨
      (countsAsFolder t (here.child e.1) e.2 = false ∧ s.wants (here.child e.1) = true ∧
        p = here.child e.1) := by
  rw [walkEntry]
  cases kind : e.2 with
  | folder =>
    dsimp only
    cases s.skips (here.child e.1) <;> simp [countsAsFolder]
  | file bytes =>
    dsimp only
    simp [countsAsFolder]
  | link target =>
    dsimp only
    simp [and_assoc]

/-- The walk lists the ways down that fit its depth. -/
lemma mem_walkFolder (sound : t.Sound) {fuel : Nat} :
    p ∈ walkFolder t s fuel loc here ↔
      ∃ names, Finds t s loc here names ∧ names.length ≤ fuel ∧ p = here.descend names := by
  induction fuel generalizing loc here with
  | zero =>
    constructor
    · intro mem
      cases mem
    · rintro ⟨names, found, shallow, -⟩
      exact absurd (List.eq_nil_of_length_eq_zero (Nat.le_zero.1 shallow)) found.ne_nil
  | succ fuel ih =>
    rw [walkFolder_succ, List.mem_flatMap]
    constructor
    · rintro ⟨e, entry, mem⟩
      have stands := (FileTree.mem_children sound).1 entry
      rcases mem_walkEntry.1 mem with ⟨kind, free, inner⟩ | ⟨file, wanted, rfl⟩
      · obtain ⟨names, found, fits, rfl⟩ := ih.1 inner
        refine ⟨e.1 :: names, .folder (kind ▸ stands) free found, Nat.succ_le_succ fits, ?_⟩
        exact Path.descend_child ..
      · exact ⟨[e.1], .entry stands file wanted, Nat.succ_le_succ (Nat.zero_le _), rfl⟩
    · rintro ⟨names, found, fits, rfl⟩
      cases found with
      | @entry _ _ name n stands file wanted =>
        refine ⟨(name, n), (FileTree.mem_children sound).2 stands, ?_⟩
        exact mem_walkEntry.2 (.inr ⟨file, wanted, rfl⟩)
      | @folder _ _ name names stands free found =>
        refine ⟨(name, .folder), (FileTree.mem_children sound).2 stands, ?_⟩
        refine mem_walkEntry.2 (.inl ⟨rfl, free, ih.2 ⟨names, found, Nat.le_of_succ_le_succ fits, ?_⟩⟩)
        exact (Path.descend_child ..).symm

/-- The ways down on which something is found, told at once: they end in a wanted entry that is no
folder, and lead through folders none of which is passed over. -/
lemma finds_iff :
    Finds t s loc here names ↔ names ≠ [] ∧
      (∃ n, t.node? (loc ++ names) = some n ∧ countsAsFolder t (here.descend names) n = false) ∧
      s.wants (here.descend names) = true ∧
      (Along names fun front => t.node? (loc ++ front) = some .folder) ∧
      Along names fun front => s.skips (here.descend front) = false := by
  constructor
  · intro found
    induction found with
    | entry stands file wanted =>
      exact ⟨by simp, ⟨_, stands, file⟩, wanted, along_singleton _, along_singleton _⟩
    | @folder loc here name names stands free found ih =>
      obtain ⟨more, ⟨n, last, file⟩, wanted, way, kept⟩ := ih
      simp only [Path.descend_child, List.append_assoc,
        List.singleton_append] at last file wanted way kept
      exact ⟨by simp, ⟨n, last, file⟩, wanted, (along_cons more).2 ⟨stands, way⟩,
        (along_cons more).2 ⟨free, kept⟩⟩
  · rintro ⟨filled, ⟨n, last, file⟩, wanted, way, kept⟩
    induction names generalizing loc here with
    | nil => exact absurd rfl filled
    | cons name names ih =>
      by_cases more : names = []
      · subst more
        exact .entry last file wanted
      · obtain ⟨stands, way⟩ := (along_cons more).1 way
        obtain ⟨free, kept⟩ := (along_cons more).1 kept
        refine .folder stands free (ih more ?_ ?_ ?_ ?_ ?_)
        · rwa [List.append_assoc, List.singleton_append]
        · rwa [Path.descend_child]
        · rwa [Path.descend_child]
        · simpa only [List.append_assoc, List.singleton_append] using way
        · simpa only [Path.descend_child] using kept

/-- What is listed at an entry lies below it or is it. -/
lemma exists_of_mem_walkEntry (sound : t.Sound) {fuel : Nat} {e : Text × Node}
    (mem : p ∈ walkEntry t s fuel loc here e) : ∃ names, p = here.descend (e.1 :: names) := by
  rcases mem_walkEntry.1 mem with ⟨-, -, inner⟩ | ⟨-, -, rfl⟩
  · obtain ⟨names, -, -, rfl⟩ := (mem_walkFolder sound).1 inner
    exact ⟨names, Path.descend_child ..⟩
  · exact ⟨[], rfl⟩

/-- No path is listed twice: those from two entries of a folder differ in the names of these. -/
lemma nodup_walkFolder (sound : t.Sound) (fuel : Nat) (loc : Location) (here : Path) :
    (walkFolder t s fuel loc here).Nodup := by
  induction fuel generalizing loc here with
  | zero => exact List.nodup_nil
  | succ fuel ih =>
    rw [walkFolder_succ, List.nodup_flatMap]
    constructor
    · intro e _
      rw [walkEntry]
      split
      · split
        · exact List.nodup_nil
        · exact ih _ _
      · split
        · exact List.pairwise_singleton _ _
        · exact List.nodup_nil
    · refine (List.pairwise_map.1 (FileTree.nodup_children sound loc)).imp ?_
      intro e d apart p first second
      obtain ⟨names, rfl⟩ := exists_of_mem_walkEntry sound first
      obtain ⟨names', same⟩ := exists_of_mem_walkEntry sound second
      exact apart (List.head_eq_of_cons_eq (Path.descend_injective here same))

/-! ## Discovery -/

lemma length_le_depth {e : Location × Node} (mem : e ∈ t.nodes) : e.1.length ≤ depth t := by
  have run : ∀ (nodes : List (Location × Node)) (n : Nat),
      n ≤ nodes.foldl (fun n e => max n e.1.length) n ∧
        ∀ e ∈ nodes, e.1.length ≤ nodes.foldl (fun n e => max n e.1.length) n := by
    intro nodes
    induction nodes with
    | nil => exact fun n => ⟨Nat.le_refl n, List.forall_mem_nil _⟩
    | cons d nodes ih =>
      intro n
      obtain ⟨least, all⟩ := ih (max n d.1.length)
      rw [List.foldl_cons]
      refine ⟨(Nat.le_max_left ..).trans least, List.forall_mem_cons.2 ⟨?_, all⟩⟩
      exact (Nat.le_max_right ..).trans least
  exact (run t.nodes 0).2 e mem

/-- Whether names lead from a root through real folders to something that is no folder. -/
def LeadsToEntry (t : FileTree) (root : Path) (names : List Text) : Prop :=
  names ≠ [] ∧ t.isFolder (root.descend names) = false ∧
    ∃ loc, t.locateFolder root = .ok loc ∧ (t.node? (loc ++ names)).isSome = true ∧
      Along names fun front => t.node? (loc ++ front) = some .folder

/-- Names that lead to something through folders are those of real folders and entries. -/
lemma leadsToEntry_iff (sound : t.Sound) (located : t.locate true root = .ok loc) :
    LeadsToEntry t root names ↔ names ≠ [] ∧
      (∃ n, t.node? (loc ++ names) = some n ∧ countsAsFolder t (root.descend names) n = false) ∧
      Along names fun front => t.node? (loc ++ front) = some .folder := by
  have plain : ∀ {n}, names ≠ [] → t.node? (loc ++ names) = some n → "..".toList ∉ names := by
    intro n filled stands dots
    have mem := FileTree.mem_nodes_of_node? sound (by simp [filled]) stands
    exact sound.plain _ mem (List.mem_append_right loc dots)
  constructor
  · rintro ⟨filled, file, place, folder, stands, way⟩
    obtain rfl := Except.ok.inj (located.symm.trans (FileTree.locate_of_locateFolder folder).1)
    obtain ⟨n, stands⟩ := Option.isSome_iff_exists.1 stands
    rw [isFolder_descend folder (plain filled stands) filled stands way] at file
    exact ⟨filled, ⟨n, stands, file⟩, way⟩
  · rintro ⟨filled, ⟨n, stands, file⟩, way⟩
    have folder := FileTree.locateFolder_of_node? located (FileTree.node?_above sound filled stands)
    rw [← isFolder_descend folder (plain filled stands) filled stands way] at file
    exact ⟨filled, file, loc, folder, by rw [stands]; rfl, way⟩

/-- What is found are the entries with a wanted suffix that neither are ignored themselves nor lie in
an ignored folder below the root. -/
lemma mem_discover (sound : t.Sound) {extensions patterns : List Text} :
    p ∈ discover t root extensions patterns ↔
      ∃ names, LeadsToEntry t root names ∧ p = root.descend names ∧
        p.suffix ∈ extensions.map withDot ∧ isIgnored patterns (some root) p = false ∧
        Along names fun front => isIgnored patterns (some root) (root.descend front) = false := by
  rw [discover]
  cases located : t.locate true root with
  | error f =>
    constructor
    · intro mem
      cases mem
    · rintro ⟨names, ⟨-, -, loc, folder, -⟩, -⟩
      cases located.symm.trans (FileTree.locate_of_locateFolder folder).1
  | ok loc =>
    simp only [List.mem_mergeSort, mem_walkFolder sound, finds_iff, leadsToEntry_iff sound located,
      Search.wants, Search.skips, Bool.and_eq_true, Bool.not_eq_true', List.contains_iff_mem]
    constructor
    · rintro ⟨names, ⟨filled, stands, ⟨suffix, free⟩, way, kept⟩, -, rfl⟩
      exact ⟨names, ⟨filled, stands, way⟩, rfl, suffix, free, kept⟩
    · rintro ⟨names, ⟨filled, ⟨n, stands, file⟩, way⟩, rfl, suffix, free, kept⟩
      have fits := length_le_depth (FileTree.mem_nodes_of_node? sound (by simp [filled]) stands)
      rw [List.length_append] at fits
      exact ⟨names, ⟨filled, ⟨n, stands, file⟩, ⟨suffix, free⟩, way, kept⟩, by omega, rfl⟩

/-- Discovery lists, in order and each once, exactly the entries that are no folders, are reached from
the root through real folders, have one of the suffixes, and neither are ignored nor lie in a folder
below the root that is. If no pattern has a wildcard, what lies below something ignored is ignored
itself, so the folders on the way need not be looked at. -/
theorem discover_finds_exactly (sound : t.Sound) (root : Path) (extensions patterns : List Text) :
    (∀ p, p ∈ discover t root extensions patterns ↔
      ∃ names, LeadsToEntry t root names ∧ p = root.descend names ∧
        p.suffix ∈ extensions.map withDot ∧ isIgnored patterns (some root) p = false ∧
        Along names fun front => isIgnored patterns (some root) (root.descend front) = false) ∧
      (discover t root extensions patterns).Pairwise (Path.le · · = true) ∧
      (discover t root extensions patterns).Nodup ∧
      ((∀ pattern ∈ patterns, Wildcard.isWild pattern = false) →
        (∀ names more, names ≠ [] → isIgnored patterns (some root) (root.descend names) = true →
          isIgnored patterns (some root) (root.descend (names ++ more)) = true) ∧
        ∀ p, p ∈ discover t root extensions patterns ↔
          ∃ names, LeadsToEntry t root names ∧ p = root.descend names ∧
            p.suffix ∈ extensions.map withDot ∧ isIgnored patterns (some root) p = false) := by
  refine ⟨fun p => mem_discover sound, ?_, ?_, fun plain => ⟨?_, fun p => ?_⟩⟩
  · rw [discover]
    split
    · exact .nil
    · exact Path.pairwise_mergeSort _
  · rw [discover]
    split
    · exact List.nodup_nil
    · exact (List.mergeSort_perm _ _).nodup_iff.2 (nodup_walkFolder sound _ _ _)
  · exact fun names more filled => isIgnored_descend plain filled more
  · rw [mem_discover sound]
    constructor
    · rintro ⟨names, leads, same, suffix, free, -⟩
      exact ⟨names, leads, same, suffix, free⟩
    · rintro ⟨names, leads, rfl, suffix, free⟩
      refine ⟨names, leads, rfl, suffix, free, fun front short filled _ => ?_⟩
      obtain ⟨more, rfl⟩ := short
      -- an ignored folder on the way would make the entry ignored too
      by_contra ignored
      have below := isIgnored_descend plain filled more (Bool.not_eq_false _ ▸ ignored)
      rw [free] at below
      cases below

/-- Two modules, one of them in an inner folder. -/
def modules : FileTree :=
  (((FileTree.empty []).write (.ofString "src/a.ts") []).1.write (.ofString "src/lib/b.ts") []).1

lemma modules_eq : modules =
    ⟨[(["src".toList], .folder), (["src".toList, "a.ts".toList], .file []),
      (["src".toList, "lib".toList], .folder),
      (["src".toList, "lib".toList, "b.ts".toList], .file [])], []⟩ := by
  cbv

/-- The modules beside a link to the inner folder and a link that leads nowhere. -/
def grove : FileTree :=
  (modules.put ["src".toList, "l.ts".toList] (.link "lib".toList)).put ["src".toList, "c.ts".toList]
    (.link "gone".toList)

lemma sound_grove : grove.Sound := by
  have written : modules.Sound := ((FileTree.sound_empty (by simp)).write _ _ _).write _ _ _
  have first : (modules.put (["src".toList] ++ ["l.ts".toList]) (.link "lib".toList)).Sound := by
    refine written.put ?_ (by decide) (.inr ?_)
    · rw [modules_eq]
      decide
    · rw [modules_eq]
      decide
  refine FileTree.Sound.put first (?_ : FileTree.node? _ ["src".toList] = _) (by decide) (.inr ?_)
  · rw [modules_eq]
    decide
  · rw [modules_eq]
    decide

/-- A link that leads nowhere is found. A module in a folder that a wildcard ignores is not, although
nothing ignores the module itself; a pattern without wildcards ignores both. -/
theorem discover_finds_exactly_in_grove :
    let src := Path.ofString "src"
    let inner := src.descend ["lib".toList, "b.ts".toList]
    grove.Sound ∧ src.descend ["c.ts".toList] ∈ discover grove src ["ts".toList] ["*lib".toList] ∧
      inner ∉ discover grove src ["ts".toList] ["*lib".toList] ∧
      isIgnored ["*lib".toList] (some src) inner = false ∧
      isIgnored ["lib".toList] (some src) inner = true := by
  intro src inner
  obtain ⟨exactly, -⟩ := discover_finds_exactly sound_grove src ["ts".toList] ["*lib".toList]
  obtain ⟨-, -, -, unwild⟩ := discover_finds_exactly sound_grove src ["ts".toList] ["lib".toList]
  have leads : LeadsToEntry grove src ["c.ts".toList] := by
    rw [grove, modules_eq]
    refine ⟨by simp, ?_, ["src".toList], ?_, ?_, along_singleton _⟩
    · cbv
    · cbv
    · decide
  refine ⟨sound_grove, (exactly _).2 ⟨_, leads, rfl, ?_, ?_, along_singleton _⟩, fun found => ?_, ?_, ?_⟩
  · decide
  · decide
  · obtain ⟨names, -, same, -, -, kept⟩ := (exactly _).1 found
    obtain rfl := Path.descend_injective src same
    have free := kept ["lib".toList] (by decide) (by decide) (by decide)
    exact absurd free (by decide)
  · decide
  · exact (unwild (by decide)).1 ["lib".toList] ["b.ts".toList] (by decide) (by decide)

end Files

end Phrasebook
