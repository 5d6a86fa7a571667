import Phrasebook.Proofs.Batches
import Phrasebook.Proofs.JsonText

/-!
# What a backup keeps

Where nothing stands under the name of a backup, a file that was saved stands beside its backup, and
nothing else has changed (`tree_of_save`). The backup holds the bytes of the text as it was read, with
a line feed for every line end. So it holds the bytes of the file exactly if these have no carriage
return.
-/

namespace Phrasebook

open Files

namespace Text

lemma length_hex (width n : Nat) : (hex width n).length = width := by
  induction width generalizing n with
  | zero => rfl
  | succ width ih => rw [hex, List.length_append, ih, List.length_singleton]

lemma hexChar_mem {n : Nat} (small : n < 16) : hexChar n ∈ "0123456789abcdef".toList := by
  have inside : n < "0123456789abcdef".toList.length := small
  rw [hexChar, List.getD_eq_getElem?_getD, List.getElem?_eq_getElem inside, Option.getD_some]
  exact List.getElem_mem inside

lemma return_notMem_foldNewlines (t : Text) : '\r' ∉ foldNewlines t := by
  induction t using foldNewlines.induct with
  | case1 => exact List.not_mem_nil
  | case2 rest ih => exact List.not_mem_cons_of_ne_of_not_mem (by decide) ih
  | case3 rest apart ih =>
    rw [foldNewlines.eq_3 _ apart]
    exact List.not_mem_cons_of_ne_of_not_mem (by decide) ih
  | case4 c rest pair other ih =>
    rw [foldNewlines.eq_4 _ _ pair other]
    exact List.not_mem_cons_of_ne_of_not_mem (Ne.symm other) ih

/-- Reading keeps a text exactly if it holds no carriage return. -/
lemma foldNewlines_eq_self_iff {t : Text} : foldNewlines t = t ↔ '\r' ∉ t :=
  ⟨fun same => same ▸ return_notMem_foldNewlines t, foldNewlines_eq_self⟩

end Text

namespace Source

variable {c : Config} {o : Options} {t t' : FileTree} {p : Path} {disk : Disk} {folder : Location}

/-- A name followed by a dot, eight hexadecimal digits and the suffix of backups. -/
def IsBackupOf (name kept : Text) : Prop :=
  ∃ digits : Text, digits.length = 8 ∧ (∀ d ∈ digits, d ∈ "0123456789abcdef".toList) ∧
    kept = name ++ '.' :: digits ++ ".bak".toList

lemma isBackupOf_backupPath (p : Path) (text : Text) :
    IsBackupOf p.name (backupPath p text).name := by
  obtain ⟨n, first⟩ : ∃ n, (Digest.sha1 (Utf8.encode text)).take 8 = Text.hex 8 n := by
    rw [Digest.sha1, List.flatMap_cons]
    exact ⟨_, List.take_left' (Text.length_hex ..)⟩
  refine ⟨_, ?_, ?_, name_backupPath p text⟩
  · rw [first, Text.length_hex]
  · rw [first]
    intro d mem
    obtain ⟨k, small, rfl⟩ := Json.mem_hex mem
    exact Text.hexChar_mem small

/-- A backup under a new name is a new file. -/
lemma tree_of_backup {text : Text} (located : t.locateParent p = .ok folder)
    (absent : t.node? (folder ++ [(backupPath p text).name]) = none)
    (made : backup t p text disk = (t', none)) :
    t' = t.put (folder ++ [(backupPath p text).name]) (.file (Utf8.encode text)) := by
  have above : t.locateParent (backupPath p text) = .ok folder := by
    rwa [FileTree.locateParent, parent_backupPath]
  have missing : t.exists? (backupPath p text) = false := by
    obtain ⟨k, whole⟩ := FileTree.walk_of_parent above (namesEntry_backupPath p text) true
    have named := namesEntry_backupPath p text
    simp only [FileTree.namesEntry, Bool.and_eq_true, bne_iff_ne] at named
    rw [FileTree.exists?, FileTree.stat, whole, FileTree.walk_of_absent named.2 absent]
  have kept := congrArg Prod.fst (FileTree.makeFolders_of_folder above)
  unfold backup at made
  dsimp only at made
  split at made
  · cases made
  · rw [missing, if_neg Bool.false_ne_true] at made
    rcases FileTree.write_cases kept (Utf8.encode text) disk with ⟨f, failed⟩ | ⟨loc, found, -, moves⟩
    · cases (Prod.mk.inj (made.symm.trans failed)).2
    · cases above.symm.trans found
      exact (Prod.mk.inj (made.symm.trans moves)).1

/-- A file that was saved with a backup under a new name stands beside it. -/
lemma tree_of_save {before after : Text} (writes : o.dryRun = false) (keeps : o.backup = true)
    (located : t.locateParent p = .ok folder)
    (absent : t.node? (folder ++ [(backupPath p before).name]) = none)
    (saved : save t p o before after disk = (t', none)) :
    FileTree.namesEntry p = true ∧
      t' = (t.put (folder ++ [(backupPath p before).name]) (.file (Utf8.encode before))).put
        (folder ++ [p.name]) (.file (Utf8.encode after)) := by
  have above := (FileTree.locate_of_locateParent located).1
  have below : folder ++ [(backupPath p before).name] ≠ [] := by simp
  have free : ∀ n, t.node? (folder ++ [(backupPath p before).name]) = some n →
      ∃ target, n = .link target := by
    rw [absent]
    intro n stands
    cases stands
  unfold save at saved
  rw [writes, keeps, if_neg Bool.false_ne_true, if_pos rfl] at saved
  cases made : backup t p before disk with
  | mk u fault =>
    rw [made] at saved
    cases fault with
    | some f => cases saved
    | none =>
      obtain rfl := tree_of_backup located absent made
      have again := FileTree.makeFolders_put above below free (Utf8.encode before)
      rcases FileTree.write_cases again (Utf8.encode after) disk with
        ⟨f, failed⟩ | ⟨loc, found, named, moves⟩
      · cases (Prod.mk.inj (saved.symm.trans failed)).2
      · obtain ⟨rfl, -⟩ := FileTree.locateParent_of_put above below free found
        exact ⟨named, (Prod.mk.inj (saved.symm.trans moves)).1⟩

/-- A name of that form is longer than the name of the file. -/
lemma IsBackupOf.ne {name kept : Text} (form : IsBackupOf name kept) : kept ≠ name := by
  obtain ⟨digits, -, -, rfl⟩ := form
  intro same
  have size := congrArg List.length same
  rw [List.length_append, List.length_append, List.length_cons] at size
  omega

/-- Where no name has the suffix of backups, none has their form. -/
lemma node?_of_bare {name kept : Text} (form : IsBackupOf name kept)
    (bare : ∀ name n, t.node? (folder ++ [name]) = some n → ¬".bak".toList <:+ name) :
    t.node? (folder ++ [kept]) = none := by
  obtain ⟨digits, -, -, rfl⟩ := form
  cases stands : t.node? (folder ++ [name ++ '.' :: digits ++ ".bak".toList]) with
  | none => rfl
  | some n => exact absurd (List.suffix_append _ _) (bare _ n stands)

/-- Under a name of the form of backups nothing but the backup stands beside a file that was saved
with it, if no name in the folder had their suffix. -/
lemma node?_of_save {before after kept : Text} (form : IsBackupOf p.name kept)
    (bare : ∀ name n, t.node? (folder ++ [name]) = some n → ¬".bak".toList <:+ name) :
    ((t.put (folder ++ [(backupPath p before).name]) (.file (Utf8.encode before))).put
        (folder ++ [p.name]) (.file (Utf8.encode after))).node? (folder ++ [kept]) =
      if kept = (backupPath p before).name then some (.file (Utf8.encode before)) else none := by
  have other : folder ++ [kept] ≠ folder ++ [p.name] := by
    intro same
    exact form.ne (List.head_eq_of_cons_eq (List.append_cancel_left same))
  rw [FileTree.node?_put_of_ne (by simp) _ other, FileTree.node?_put (by simp),
    node?_of_bare form bare]
  congr 1
  rw [eq_iff_iff]
  exact ⟨fun same => List.head_eq_of_cons_eq (List.append_cancel_left same), fun same => by rw [same]⟩

/-- A file that is changed with a backup, in a folder without backups, has a backup beside it with the
bytes of its text as it was read. A backup with the bytes of the file itself stands there exactly if
the file held no carriage return. -/
theorem backup_restores_iff {n : Nat} {diff : Option Text} (writes : o.dryRun = false)
    (keeps : o.backup = true) (located : t.locateParent p = .ok folder)
    (bare : ∀ name n, t.node? (folder ++ [name]) = some n → ¬".bak".toList <:+ name)
    (changed : (process c o t p disk).outcome = .done n true diff) :
    ∃ bytes text, t.node? (folder ++ [p.name]) = some (.file bytes) ∧
      Utf8.decode bytes = .ok text ∧
      (∃ kept, IsBackupOf p.name kept ∧ (process c o t p disk).tree.node? (folder ++ [kept]) =
        some (.file (Utf8.encode (Text.foldNewlines text)))) ∧
      ((∃ kept, IsBackupOf p.name kept ∧
          (process c o t p disk).tree.node? (folder ++ [kept]) = some (.file bytes)) ↔
        '\r' ∉ text) := by
  obtain ⟨-, read, q, direct, -, taken, -, saved⟩ := process_of_changed changed
  obtain ⟨bytes, text, file, decoded, rfl⟩ := exists_of_readText taken
  have form := isBackupOf_backupPath p (Text.foldNewlines text)
  obtain ⟨named, tree⟩ := tree_of_save writes keeps located (node?_of_bare form bare) saved
  refine ⟨bytes, text, FileTree.node?_of_readBytes located named direct file, decoded, ?_⟩
  rw [tree]
  refine ⟨⟨_, form, ?_⟩, ?_, fun clean => ⟨_, form, ?_⟩⟩
  · rw [node?_of_save form bare, if_pos rfl]
  · rintro ⟨kept, alike, stands⟩
    rw [node?_of_save alike bare] at stands
    split at stands
    · cases stands
      -- both texts are decoded from the same bytes
      have same : Text.foldNewlines text = text :=
        Except.ok.inj ((Utf8.decode_encode _).symm.trans decoded)
      exact Text.foldNewlines_eq_self_iff.1 same
    · cases stands
  · rw [node?_of_save form bare, if_pos rfl, Text.foldNewlines_eq_self clean,
      Utf8.encode_of_decode decoded]

/-- A module in the root folder whose only line ends in a carriage return and a line feed: its backup
holds a line feed alone. -/
theorem backup_restores_not_carriage_return :
    let name := "a.ts".toList
    let line := "const a = '中'\r\n".toList
    let t := (FileTree.empty []).put [name] (.file (Utf8.encode line))
    let w := process default { backup := true } t ⟨0, [name]⟩
    w.outcome = .done 1 true none ∧
      (∃ kept, IsBackupOf name kept ∧ w.tree.node? [kept] = some (.file (Utf8.encode phraseLine))) ∧
      ¬∃ kept, IsBackupOf name kept ∧ w.tree.node? [kept] = some (.file (Utf8.encode line)) := by
  intro name line t w
  have located : t.locateParent ⟨0, [name]⟩ = .ok [] := FileTree.locateFolder_root rfl 0
  have only : ∀ other n, t.node? [other] = some n → other = name := by
    intro other n stands
    by_contra apart
    rw [FileTree.node?_put (by simp), if_neg (by simpa using apart)] at stands
    cases stands
  have bare : ∀ other n, t.node? ([] ++ [other]) = some n → ¬".bak".toList <:+ other := by
    intro other n stands
    rw [only other n stands]
    decide
  obtain ⟨q, change, one⟩ := toChange_phraseLine located (by decide) rfl rfl
    (rfl : Utf8.decode (Utf8.encode line) = .ok line) rfl (by decide)
  have form := isBackupOf_backupPath ⟨0, [name]⟩ phraseLine
  have short : isTooLong (backupPath ⟨0, [name]⟩ phraseLine).name = false := by
    obtain ⟨digits, eight, -, same⟩ := form
    rw [same]
    apply isTooLong_eq_false
    rw [List.length_append, List.length_append, List.length_cons, eight]
    decide
  have outcome : w.outcome = .done 1 true none := by
    have whole := change.process_of_fresh rfl rfl (by decide) rfl (node?_of_bare form bare) short
    rw [show w = process default { backup := true } t ⟨0, [name]⟩ from rfl, whole, finished, one,
      change.other]
    rfl
  obtain ⟨bytes, read, stands, decoded, kept, restores⟩ :=
    backup_restores_iff rfl rfl located bare outcome
  obtain rfl : Utf8.encode line = bytes := by
    cases stands
    rfl
  obtain rfl : line = read := Except.ok.inj ((Utf8.decode_encode line).symm.trans decoded)
  refine ⟨outcome, kept, fun original => ?_⟩
  exact restores.1 original (by decide)

end Source

end Phrasebook
