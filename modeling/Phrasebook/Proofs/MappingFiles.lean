import Mathlib
import Phrasebook.Proofs.JsonText
import Phrasebook.Proofs.Reading
import Phrasebook.Proofs.Registrations
import Phrasebook.Proofs.Visits

/-!
# Mapping files

The text of a mapping is read as that mapping, in the same order (`parse_dump`), and sorting only puts
the entries in the order of their keys (`sorted_perm`, `pairwise_keys_sorted`). A mapping that was
stored is therefore read back from its path, unless the way to the folder of the path leads over the
link that the file took the place of (`stored_mapping_reads_back`).
-/

namespace Phrasebook

open Files

/-! ## The order of texts -/

namespace Text

lemma le_iff {a b : Text} : le a b = true ↔ a < b ∨ a = b := by
  induction a generalizing b with
  | nil => cases b <;> simp [le]
  | cons x xs ih =>
    cases b with
    | nil => simp [le]
    | cons y ys =>
      rw [le, Bool.or_eq_true, Bool.and_eq_true, decide_eq_true_iff, beq_iff_eq, ih,
        List.cons_lt_cons_iff, List.cons.injEq]
      tauto

end Text

/-! ## Texts of mappings -/

namespace Entries

variable {β : Type}

lemma foldl_insert (es ps : Entries β) (nodup : (keys (es ++ ps)).Nodup) :
    ps.foldl (fun es p => insert p.1 p.2 es) es = es ++ ps := by
  induction ps generalizing es with
  | nil => exact (List.append_nil es).symm
  | cons p ps ih =>
    rw [List.append_cons] at nodup
    have fresh : p.1 ∉ keys es := by
      simp only [keys, List.map_append, List.map_cons, List.map_nil] at nodup
      have front := (List.nodup_append.1 nodup).1
      exact fun mem => (List.nodup_append.1 front).2.2 _ mem _ List.mem_cons_self rfl
    rw [List.foldl_cons, insert_of_notMem fresh, ih _ nodup, ← List.append_cons]

lemma ofPairs_of_nodup {ps : Entries β} (nodup : (keys ps).Nodup) : ofPairs ps = ps :=
  foldl_insert [] ps nodup

end Entries

namespace Mapping

lemma dump_eq (m : Mapping) : m.dump = Json.pretty 0 (.obj (Json.strings m.entries)) :=
  rfl

/-- The text of a mapping is read as that mapping. -/
lemma parse_dump (m : Mapping) : parse m.dump = .ok m := by
  have names : Entries.keys (Json.strings m.entries) = Entries.keys m.entries := by
    simp [Entries.keys, Json.strings, Function.comp_def]
  have members := Entries.ofPairs_of_nodup (names ▸ m.nodup)
  have texts : (Json.strings m.entries).filterMap (fun e => e.2.str?.map (e.1, ·)) = m.entries := by
    simp [Json.strings, Json.str?, List.filterMap_map]
  have plain : oddMember? (Json.strings m.entries) = none := by
    simp [oddMember?, Json.strings, Json.str?]
  rw [parse, dump_eq, Json.read_pretty, members]
  simp only [ofMembers, plain, texts]
  simp only [ofPairs, Entries.ofPairs_of_nodup m.nodup]

lemma sorted_perm (m : Mapping) : m.sorted.entries.Perm m.entries :=
  List.mergeSort_perm _ _

/-- The keys of a sorted mapping ascend, and none comes twice. -/
lemma pairwise_keys_sorted (m : Mapping) : m.sorted.keys.Pairwise (· < ·) := by
  have trans : ∀ a b c : Text × Text,
      Text.le a.1 b.1 = true → Text.le b.1 c.1 = true → Text.le a.1 c.1 = true := by
    simp only [Text.le_iff]
    rintro a b c (ab | ab) (bc | bc)
    · exact .inl (List.lt_trans ab bc)
    · exact .inl (bc ▸ ab)
    · exact .inl (ab ▸ bc)
    · exact .inr (ab.trans bc)
  have total : ∀ a b : Text × Text, (Text.le a.1 b.1 || Text.le b.1 a.1) = true := by
    intro a b
    rw [Bool.or_eq_true, Text.le_iff, Text.le_iff]
    rcases lt_trichotomy a.1 b.1 with lt | eq | gt
    · exact .inl (.inl lt)
    · exact .inl (.inr eq)
    · exact .inr (.inl gt)
  have ordered := List.pairwise_mergeSort trans total m.entries
  have distinct : m.sorted.entries.Pairwise fun a b => a.1 ≠ b.1 :=
    List.pairwise_map.1 m.sorted.nodup
  apply List.pairwise_map.2
  exact (ordered.and distinct).imp fun both => (Text.le_iff.1 both.1).resolve_right both.2

end Mapping

/-! ## Files -/

/-- Whether the way to the folder of a path leads over the entry of that folder which the path names.
That entry is then a link, and a file put in its place bars the way. -/
def FileTree.LeadsOverItself (t : FileTree) (p : Path) : Prop :=
  ∃ folder, t.locateParent p = .ok folder ∧
    folder ++ [p.name] ∈ t.visits true linkLimit (startOf p.isAbsolute t.working) p.parent.parts

namespace FileTree

variable {t : FileTree} {p : Path} {folder : Location}

lemma stat_put (located : t.locateParent p = .ok folder) (named : namesEntry p = true)
    (clear : ¬t.LeadsOverItself p) (bytes : Bytes) :
    (t.put (folder ++ [p.name]) (.file bytes)).stat p = .ok (.file bytes) := by
  have below : folder ++ [p.name] ≠ [] := by simp
  obtain ⟨found, isFolder⟩ := locate_of_locateParent located
  have stands : (t.put (folder ++ [p.name]) (.file bytes)).node? (folder ++ [p.name]) =
      some (.file bytes) :=
    node?_put_self below _
  -- the folder is found as before
  have aside := fun mem => clear ⟨folder, located, mem⟩
  have still : (t.put (folder ++ [p.name]) (.file bytes)).locateParent p = .ok folder := by
    apply locateFolder_of_node?
    · exact (walk_put_of_notMem below bytes aside).trans found
    · exact (node?_put_of_ne below _ (by simp)).trans isFolder
  rw [stat, locate_of_stands still named stands (by simp)]
  simp only [stands]

lemma stat_put_of_leadsOverItself (located : t.locateParent p = .ok folder)
    (named : namesEntry p = true) (looped : t.LeadsOverItself p) (bytes : Bytes) :
    (t.put (folder ++ [p.name]) (.file bytes)).stat p = .error .notFolder := by
  have below : folder ++ [p.name] ≠ [] := by simp
  obtain ⟨folder', located', onWay⟩ := looped
  cases located.symm.trans located'
  obtain ⟨found, -⟩ := locate_of_locateParent located
  have nonempty : p.parts ≠ [] := by
    rintro empty
    simp [namesEntry, empty] at named
  have barred : (t.put (folder ++ [p.name]) (.file bytes)).locate true p = .error .notFolder := by
    rw [locate, Path.parts_eq_concat nonempty]
    exact walk_put_of_mem below bytes found (by simp) onWay (List.cons_ne_nil _ _)
  rw [stat, barred]

/-- Only a path that ends in a link leads over itself, if no folder stands there. -/
lemma isLink_of_leadsOverItself (located : t.locateParent p = .ok folder)
    (named : namesEntry p = true) (notFolder : t.node? (folder ++ [p.name]) ≠ some .folder)
    (looped : t.LeadsOverItself p) : t.isLink p = true := by
  obtain ⟨folder', located', onWay⟩ := looped
  cases located.symm.trans located'
  obtain ⟨found, -⟩ := locate_of_locateParent located
  obtain ⟨target, link⟩ := (node?_of_mem_visits found (by simp) onWay).resolve_left notFolder
  obtain ⟨k, whole⟩ := walk_of_parent located named false
  simp only [namesEntry, Bool.and_eq_true, bne_iff_ne] at named
  rw [isLink, whole, walk_of_last_link named.2 link]
  simp only [link]

end FileTree

namespace Mapping

variable {t : FileTree} {p : Path}

/-- Whether a mapping can be stored does not depend on the mapping. -/
lemma store_cases (t : FileTree) (p : Path) :
    (∃ f, ∀ m sort, (store t p m sort).2 = some f) ∨
      ∃ folder, (t.makeFolders p.parent).1.locateParent p = .ok folder ∧
        FileTree.namesEntry p = true ∧
        (t.makeFolders p.parent).1.node? (folder ++ [p.name]) ≠ some .folder ∧
        ∀ m sort, store t p m sort =
          ((t.makeFolders p.parent).1.put (folder ++ [p.name])
            (.file (Utf8.encode (if sort then m.sorted else m).dump)), none) := by
  rcases t.write_of_made p .sound with ⟨f, failed⟩ | ⟨folder, located, named, notFolder, moves⟩
  · exact .inl ⟨f, fun m sort => failed _⟩
  · exact .inr ⟨folder, located, named, notFolder, fun m sort => moves _⟩

/-- A file that holds the text of a mapping is read as that mapping. -/
lemma load_of_stat {m : Mapping} (stands : t.stat p = .ok (.file (Utf8.encode m.dump))) :
    load t p = .ok m := by
  have isFile : t.isFile p = true := by rw [FileTree.isFile, stands]
  have clear : t.obstacle? true p = none := FileTree.obstacle?_of_stat stands
  have text : Files.readText t p = .ok m.dump := by
    rw [Files.readText, FileTree.readBytes, stands]
    simp only [textOf, Utf8.decode_encode, dump_eq,
      Text.foldNewlines_eq_self (Json.pretty_ne_return m.entries)]
  rw [load, clear, isFile, text]
  exact parse_dump m

lemma load_of_stat_error {f : Fault} (failed : t.stat p = .error f) (absent : f.isAbsence = true) :
    load t p = .error .missing := by
  rw [load, FileTree.obstacle?_of_absence failed absent, FileTree.isFile, failed]
  rfl

/-- A mapping that was stored, in order or sorted by its keys, is read back from its path unless the
path leads over the very link that the file has replaced; then no file is found. Any other mapping
could have been stored there as well. -/
theorem stored_mapping_reads_back {t' : FileTree} {m : Mapping} {sort : Bool}
    (stored : m.store t p sort = (t', none)) :
    (load t' p = .ok (if sort then m.sorted else m) ↔
        ¬(t.makeFolders p.parent).1.LeadsOverItself p) ∧
      ((t.makeFolders p.parent).1.LeadsOverItself p →
        (t.makeFolders p.parent).1.isLink p = true ∧ load t' p = .error .missing) ∧
      m.sorted.entries.Perm m.entries ∧ m.sorted.keys.Pairwise (· < ·) ∧
      ∀ m' sort', (store t p m' sort').2 = none := by
  rcases store_cases t p with ⟨f, failed⟩ | ⟨folder, located, named, notFolder, moves⟩
  · have fault := failed m sort
    rw [stored] at fault
    cases fault
  · obtain rfl := (Prod.mk.inj ((moves m sort).symm.trans stored)).1
    have barred := fun looped => load_of_stat_error
      (FileTree.stat_put_of_leadsOverItself located named looped
        (Utf8.encode (if sort then m.sorted else m).dump)) rfl
    refine ⟨⟨fun read looped => ?_, fun clear => ?_⟩, fun looped => ⟨?_, barred looped⟩, sorted_perm m,
      pairwise_keys_sorted m, fun m' sort' => ?_⟩
    · cases read.symm.trans (barred looped)
    · exact load_of_stat (FileTree.stat_put located named clear _)
    · exact FileTree.isLink_of_leadsOverItself located named notFolder looped
    · rw [moves]

/-- A file in a new folder, with keys out of order and characters that have to be escaped. -/
theorem stored_mapping_reads_back_sorted :
    ∃ t', store (.empty []) (.ofString "new/zh.json")
        (.ofPairs [("b\r\n\"".toList, "中\\".toList), ("a\x01".toList, "😀\t".toList)]) true =
          (t', none) ∧
      load t' (.ofString "new/zh.json") =
        .ok (.ofPairs [("a\x01".toList, "😀\t".toList), ("b\r\n\"".toList, "中\\".toList)]) := by
  have plain : ((FileTree.empty []).makeFolders (Path.ofString "new/zh.json").parent).1.isLink
      (.ofString "new/zh.json") = false := by
    cbv
  have order : (ofPairs [("b\r\n\"".toList, "中\\".toList), ("a\x01".toList, "😀\t".toList)]).sorted =
      .ofPairs [("a\x01".toList, "😀\t".toList), ("b\r\n\"".toList, "中\\".toList)] := by
    apply Mapping.ext
    cbv
  obtain ⟨t', stored⟩ : ∃ t', store (.empty []) (.ofString "new/zh.json")
      (.ofPairs [("b\r\n\"".toList, "中\\".toList), ("a\x01".toList, "😀\t".toList)]) true =
        (t', none) := by
    refine ⟨_, Prod.ext rfl ?_⟩
    cbv
  obtain ⟨reads, looped, -⟩ := stored_mapping_reads_back stored
  refine ⟨t', stored, order ▸ reads.2 fun leads => ?_⟩
  rw [(looped leads).1] at plain
  cases plain

/-- Stored through a link to a folder and back, a mapping takes the place of that link, and its path
leads nowhere. -/
theorem stored_mapping_lost_behind_link :
    ∃ (t : FileTree) (p : Path) (m : Mapping), (m.store t p false).2 = none ∧
      load (m.store t p false).1 p = .error .missing := by
  refine ⟨⟨[(["d".toList], .folder), (["l.json".toList], .link "d".toList)], []⟩,
    .ofString "l.json/../l.json", .ofPairs [("k".toList, "v".toList)], ?_, ?_⟩
  · cbv
  · cbv

end Mapping

end Phrasebook
