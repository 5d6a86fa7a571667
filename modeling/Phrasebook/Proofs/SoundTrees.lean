import Mathlib.Data.List.Induction
import Mathlib.Data.List.Nodup
import Phrasebook.Proofs.FileTrees

/-!
# Sound trees

In a sound tree one thing stands at each place, every place lies in a folder, and no name is a double
dot (`FileTree.Sound`). The entries of a folder are then what stands under their names in it
(`mem_children`). The empty tree is sound, and so is whatever comes of a sound one by making folders
and writing files, whether that goes well or not (`Sound.makeFolders`, `Sound.write`).
-/

namespace Phrasebook

open Files

namespace FileTree

variable {t t' : FileTree} {loc folder : Location} {p : Path} {n : Node}

/-- A tree of folders: at each place stands one thing, in a folder, and no name is a double dot. -/
structure Sound (t : FileTree) : Prop where
  distinct : (t.nodes.map Prod.fst).Nodup
  plain : ∀ e ∈ t.nodes, "..".toList ∉ e.1
  closed : ∀ e ∈ t.nodes, e.1 ≠ [] ∧ t.node? e.1.dropLast = some .folder

lemma lookup_eq_some_iff {nodes : List (Location × Node)} (distinct : (nodes.map Prod.fst).Nodup)
    {e : Location × Node} : nodes.lookup e.1 = some e.2 ↔ e ∈ nodes := by
  induction nodes with
  | nil => simp
  | cons d nodes ih =>
    obtain ⟨fresh, rest⟩ := List.nodup_cons.1 distinct
    rw [List.mem_cons, List.lookup_cons]
    by_cases here : e.1 = d.1
    · have apart : e ∉ nodes := fun mem => fresh (here ▸ List.mem_map_of_mem mem)
      simp [here, apart, Prod.ext_iff, eq_comm]
    · have other : e ≠ d := fun same => here (congrArg Prod.fst same)
      rw [beq_false_of_ne here]
      simp [other, ih rest]

lemma mem_nodes_iff (sound : t.Sound) {e : Location × Node} :
    e ∈ t.nodes ↔ e.1 ≠ [] ∧ t.node? e.1 = some e.2 := by
  constructor
  · intro mem
    have below := (sound.closed e mem).1
    rw [node?, if_neg (by simpa using below)]
    exact ⟨below, (lookup_eq_some_iff sound.distinct).2 mem⟩
  · rintro ⟨below, stands⟩
    rw [node?, if_neg (by simpa using below)] at stands
    exact (lookup_eq_some_iff sound.distinct).1 stands

lemma mem_nodes_of_node? (sound : t.Sound) (below : loc ≠ []) (stands : t.node? loc = some n) :
    (loc, n) ∈ t.nodes :=
  (mem_nodes_iff sound).2 ⟨below, stands⟩

/-- The entries of a folder, each at its place, are nodes of the tree in their order. -/
lemma children_sublist (t : FileTree) (loc : Location) :
    ((t.children loc).map fun b => (loc ++ [b.1], b.2)).Sublist t.nodes := by
  rw [children]
  induction t.nodes with
  | nil => exact .slnil
  | cons e nodes ih =>
    rw [List.filterMap_cons]
    split
    · exact ih.cons e
    · rename_i b taken
      split at taken
      · rename_i name last
        split at taken
        · rename_i above
          cases taken
          obtain ⟨front, split⟩ := List.getLast?_eq_some_iff.1 last
          rw [split, List.dropLast_concat] at above
          have place : (loc ++ [name], e.2) = e := by rw [← above, ← split]
          rw [List.map_cons, place]
          exact ih.cons_cons e
        · cases taken
      · cases taken

/-- The entries of a folder are what stands under their names in it. -/
lemma mem_children (sound : t.Sound) {b : Text × Node} :
    b ∈ t.children loc ↔ t.node? (loc ++ [b.1]) = some b.2 := by
  constructor
  · intro mem
    have among := (children_sublist t loc).subset (List.mem_map_of_mem mem)
    exact ((mem_nodes_iff sound).1 among).2
  · intro stands
    rw [children, List.mem_filterMap]
    refine ⟨(loc ++ [b.1], b.2), mem_nodes_of_node? sound (by simp) stands, ?_⟩
    simp

lemma nodup_children (sound : t.Sound) (loc : Location) :
    ((t.children loc).map Prod.fst).Nodup := by
  have places := sound.distinct.sublist ((children_sublist t loc).map Prod.fst)
  rw [List.map_map] at places
  exact List.Nodup.of_map (fun name => loc ++ [name]) (by rwa [List.map_map])

/-- Above everything that stands somewhere there are folders. -/
lemma node?_above (sound : t.Sound) {names : List Text} (nonempty : names ≠ []) {n : Node}
    (stands : t.node? (loc ++ names) = .some n) : t.node? loc = .some .folder := by
  induction names using List.reverseRecOn generalizing n with
  | nil => exact absurd rfl nonempty
  | append_singleton names name ih =>
    have mem := mem_nodes_of_node? sound (by simp) stands
    have above := (sound.closed _ mem).2
    rw [← List.append_assoc, List.dropLast_concat] at above
    by_cases empty : names = []
    · rwa [empty, List.append_nil] at above
    · exact ih empty above

/-! ## Trees stay sound -/

lemma sound_empty {working : Location} (plain : "..".toList ∉ working) : (empty working).Sound := by
  have distinct : ((empty working).nodes.map Prod.fst).Nodup := by
    rw [empty, List.map_map]
    refine List.Nodup.map_on ?_ List.nodup_range
    intro i inside j inside' same
    have size := congrArg List.length same
    simp only [Function.comp_apply, List.length_take] at size
    rw [List.mem_range] at inside inside'
    omega
  constructor
  case distinct => exact distinct
  case plain =>
    intro e mem dots
    obtain ⟨i, -, rfl⟩ := List.mem_map.1 mem
    exact plain (List.mem_of_mem_take dots)
  case closed =>
    intro e mem
    obtain ⟨i, inside, rfl⟩ := List.mem_map.1 mem
    rw [List.mem_range] at inside
    have front : (working.take (i + 1)).dropLast = working.take i := by
      rw [List.take_succ_eq_append_getElem inside, List.dropLast_concat]
    refine ⟨List.ne_nil_of_length_pos (by rw [List.length_take]; omega), ?_⟩
    rw [front, node?]
    cases i with
    | zero => rfl
    | succ i =>
      have filled : (working.take (i + 1)).isEmpty = false := by
        rw [List.isEmpty_eq_false_iff]
        exact List.ne_nil_of_length_pos (by rw [List.length_take]; omega)
      rw [filled, if_neg Bool.false_ne_true]
      refine (lookup_eq_some_iff distinct (e := (working.take (i + 1), .folder))).2 ?_
      exact List.mem_map.2 ⟨i, List.mem_range.2 (by omega), rfl⟩

lemma mem_nodes_put {e : Location × Node} (mem : e ∈ (t.put loc n).nodes) :
    e = (loc, n) ∨ e ∈ t.nodes := by
  rw [put] at mem
  dsimp only at mem
  split at mem
  · obtain ⟨d, among, same⟩ := List.mem_map.1 mem
    split at same
    · exact .inl same.symm
    · exact .inr (same ▸ among)
  · rcases List.mem_append.1 mem with old | new
    · exact .inr old
    · exact .inl (List.mem_singleton.1 new)

lemma distinct_put (distinct : (t.nodes.map Prod.fst).Nodup) (loc : Location) (n : Node) :
    ((t.put loc n).nodes.map Prod.fst).Nodup := by
  rw [put]
  dsimp only
  split
  · have same : (t.nodes.map fun e => if e.1 = loc then (loc, n) else e).map Prod.fst =
        t.nodes.map Prod.fst := by
      rw [List.map_map]
      refine List.map_congr_left fun e _ => ?_
      by_cases here : e.1 = loc
      · simp [here]
      · simp [here]
    rwa [same]
  · rename_i absent
    rw [Option.not_isSome_iff_eq_none, List.lookup_eq_none_iff] at absent
    rw [List.map_append, List.nodup_append]
    refine ⟨distinct, List.pairwise_singleton _ _, ?_⟩
    intro place mem place' new same
    obtain ⟨e, among, rfl⟩ := List.mem_map.1 mem
    have other := absent e among
    rw [bne_iff_ne] at other
    exact other ((List.mem_singleton.1 new).symm.trans same.symm)

/-- A node put in a folder keeps a tree sound, unless it takes the place of a folder. -/
lemma Sound.put {name : Text} (sound : t.Sound) (above : t.node? folder = some .folder)
    (plain : name ≠ "..".toList) (free : n = .folder ∨ t.node? (folder ++ [name]) ≠ some .folder) :
    (t.put (folder ++ [name]) n).Sound := by
  have below : folder ++ [name] ≠ [] := by simp
  constructor
  case distinct => exact distinct_put sound.distinct _ _
  case plain =>
    intro e mem
    rcases mem_nodes_put mem with rfl | old
    · intro dots
      rcases List.mem_append.1 dots with inside | last
      · have filled : folder ≠ [] := List.ne_nil_of_mem inside
        exact sound.plain _ (mem_nodes_of_node? sound filled above) inside
      · exact plain (List.mem_singleton.1 last).symm
    · exact sound.plain e old
  case closed =>
    intro e mem
    rw [node?_put below]
    rcases mem_nodes_put mem with rfl | old
    · refine ⟨below, ?_⟩
      rw [List.dropLast_concat, if_neg (by simp), above]
    · obtain ⟨filled, inner⟩ := sound.closed e old
      refine ⟨filled, ?_⟩
      split
      · rename_i same
        rw [same] at inner
        exact congrArg some (free.resolve_right fun other => other inner)
      · exact inner

lemma Sound.makeFolder (sound : t.Sound) (made : t.makeFolder p = .ok t') : t'.Sound := by
  unfold FileTree.makeFolder at made
  split at made
  · cases made
  · rename_i loc located
    dsimp only at made
    split at made
    · cases made
    · rename_i free
      split at made
      · cases made
      · cases made
        simp only [Bool.or_eq_true, Bool.not_eq_true', not_or, Bool.not_eq_false, namesEntry,
          Bool.and_eq_true, bne_iff_ne] at free
        exact sound.put (locate_of_locateParent located).2 free.1.2 (.inl rfl)

lemma Sound.makeFoldersUpTo (sound : t.Sound) (p : Path) (k : Nat) :
    (t.makeFoldersUpTo p k).1.Sound := by
  have last : ∀ {t : FileTree}, t.Sound → ∀ p, (t.makeFoldersUpTo p 0).1.Sound := by
    intro t sound p
    rw [FileTree.makeFoldersUpTo]
    split
    · rename_i made
      exact sound.makeFolder made
    · exact sound
    · exact sound
  induction k generalizing p with
  | zero => exact last sound p
  | succ k ih =>
    rw [FileTree.makeFoldersUpTo]
    split
    · rename_i made
      exact sound.makeFolder made
    · have above := ih p.parent
      split
      · rename_i made
        rwa [made] at above
      · rename_i made
        rw [made] at above
        exact last above p
    · exact sound

/-- Making folders keeps a tree sound, also where it ends in a fault. -/
theorem Sound.makeFolders (sound : t.Sound) (p : Path) : (t.makeFolders p).1.Sound :=
  sound.makeFoldersUpTo p _

/-- A write by way of a draft leaves the tree as it was or puts one file under the name of the
path. -/
lemma tree_of_writeVia (t : FileTree) (drafts : Location) (p : Path) (bytes : Bytes) (disk : Disk) :
    (t.writeVia drafts p bytes disk).1 = t ∨
      ∃ folder, t.locateParent p = .ok folder ∧ namesEntry p = true ∧
        t.node? (folder ++ [p.name]) ≠ some .folder ∧
        (t.writeVia drafts p bytes disk).1 = t.put (folder ++ [p.name]) (.file bytes) := by
  have fresh := disk.fresh t drafts
  unfold writeVia
  cases disk.mishap p with
  | some m =>
    cases m with
    | refused f => exact .inl rfl
    | cutShort k f => exact .inl (remove_put fresh _)
    | stuck f => exact .inl (remove_put fresh _)
  | none =>
    simp only [moveFile_put fresh, remove_put fresh]
    rcases t.replaceFile_cases p bytes with ⟨f, -, failed⟩ | ⟨-, loc, located, named, other, moved⟩
    · rw [failed]
      exact .inl rfl
    · rw [moved]
      exact .inr ⟨loc, located, named, other, rfl⟩

/-- Writing a file keeps a tree sound, also where it ends in a fault. -/
theorem Sound.write (sound : t.Sound) (p : Path) (bytes : Bytes) (disk : Disk) :
    (t.write p bytes disk).1.Sound := by
  have made := sound.makeFolders p.parent
  unfold FileTree.write
  split
  · rename_i failed
    rwa [failed] at made
  · rename_i above
    rw [above] at made
    split
    · exact made
    · rename_i drafts _
      rcases tree_of_writeVia _ drafts p bytes disk with same | ⟨folder, located, named, other, moved⟩
      · rwa [same]
      · rw [moved]
        simp only [namesEntry, Bool.and_eq_true, bne_iff_ne] at named
        exact made.put (locate_of_locateParent located).2 named.2 (.inr other)

end FileTree

end Phrasebook
