import Phrasebook.Proofs.Visits

/-!
# What operations on files look at

Following a path and writing a file look at a few places only (`sights`, `writeSights`), and mostly
just ask of a file that it is one. So where two trees look alike at these places, paths lead to the
same places, and writing a file fails with the same fault or puts the same file in the same place
(`write_congr`).
-/

namespace Phrasebook

open Files

namespace FileTree

/-- The places that are looked at to follow a path. -/
def sights (t : FileTree) (follow : Bool) (p : Path) : List Location :=
  t.visits follow linkLimit (startOf p.isAbsolute t.working) p.parts

/-- The places that are looked at to write a file in a folder that is there. -/
def writeSights (t : FileTree) (p : Path) : List Location :=
  t.sights true p ++ t.sights true p.parent ++ t.sights true p.parent.parent ++
    t.sights true (t.draftFolder p)

/-- Two trees that look alike at some places. -/
structure LooksLike (t t' : FileTree) (places : List Location) : Prop where
  working : t'.working = t.working
  alike : ∀ loc ∈ places, Node.Alike (t.node? loc) (t'.node? loc)

variable {t t' : FileTree} {places : List Location} {follow : Bool} {p : Path} {loc : Location}

lemma LooksLike.mono {fewer : List Location} (like : LooksLike t t' places)
    (part : fewer ⊆ places) : LooksLike t t' fewer :=
  ⟨like.working, fun loc mem => like.alike loc (part mem)⟩

lemma mem_sights_of_locate (located : t.locate follow p = .ok loc) : loc ∈ t.sights follow p :=
  mem_visits_of_walk located

/-- The place that a path names in its folder is looked at to follow it. -/
lemma mem_sights_of_locateParent (located : t.locateParent p = .ok loc)
    (named : namesEntry p = true) : loc ++ [p.name] ∈ t.sights follow p := by
  obtain ⟨found, isFolder⟩ := locate_of_locateParent located
  simp only [namesEntry, Bool.and_eq_true, Bool.not_eq_true', bne_iff_ne] at named
  have split : p.parts = p.parent.parts ++ [p.name] :=
    Path.parts_eq_concat (by simpa using named.1)
  rw [sights, split]
  exact mem_visits_concat found isFolder named.2

lemma mem_sights_of_put {place : Location} {bytes : Bytes} (below : place ≠ [])
    (mem : loc ∈ (t.put place (.file bytes)).sights follow p) : loc ∈ t.sights follow p :=
  mem_visits_of_put below mem

lemma mem_writeSights_of_put {place : Location} {bytes : Bytes} (below : place ≠ [])
    (mem : loc ∈ (t.put place (.file bytes)).writeSights p) : loc ∈ t.writeSights p := by
  simp only [writeSights, List.mem_append] at mem ⊢
  exact mem.imp (Or.imp (Or.imp (mem_sights_of_put below) (mem_sights_of_put below))
    (mem_sights_of_put below)) (mem_sights_of_put below)

/-! ## Following paths -/

lemma locate_congr (like : LooksLike t t' (t.sights follow p)) :
    t'.locate follow p = t.locate follow p := by
  rw [locate, locate, like.working]
  exact walk_congr like.alike

/-- Where a path leads, nothing but the bytes of a file may differ. -/
lemma alike_of_locate (like : LooksLike t t' (t.sights follow p))
    (located : t.locate follow p = .ok loc) : Node.Alike (t.node? loc) (t'.node? loc) :=
  like.alike loc (mem_sights_of_locate located)

lemma obstacle?_congr (like : LooksLike t t' (t.sights follow p)) :
    t'.obstacle? follow p = t.obstacle? follow p := by
  rw [obstacle?, obstacle?, locate_congr like]

lemma isLink_congr (like : LooksLike t t' (t.sights false p)) : t'.isLink p = t.isLink p := by
  rw [isLink, isLink, locate_congr like]
  cases located : t.locate false p with
  | error f => rfl
  | ok loc =>
    have alike := alike_of_locate like located
    dsimp only
    generalize t.node? loc = n at alike
    generalize t'.node? loc = m at alike
    cases alike <;> rfl

lemma locateFolder_congr (like : LooksLike t t' (t.sights true p)) :
    t'.locateFolder p = t.locateFolder p := by
  rw [locateFolder, locateFolder, locate_congr like]
  cases located : t.locate true p with
  | error f => rfl
  | ok loc =>
    have alike := alike_of_locate like located
    dsimp only
    generalize t.node? loc = n at alike
    generalize t'.node? loc = m at alike
    cases alike <;> rfl

/-- A path leads to the same node or fault, or to a file in both trees. -/
lemma stat_alike (like : LooksLike t t' (t.sights true p)) :
    t'.stat p = t.stat p ∨ ∃ a b, t.stat p = .ok (.file a) ∧ t'.stat p = .ok (.file b) := by
  rw [stat, stat, locate_congr like]
  cases located : t.locate true p with
  | error f => exact .inl rfl
  | ok loc =>
    have alike := alike_of_locate like located
    dsimp only
    generalize t.node? loc = n at alike
    generalize t'.node? loc = m at alike
    cases alike with
    | same => exact .inl rfl
    | files a b => exact .inr ⟨a, b, rfl, rfl⟩

lemma isFolder_congr (like : LooksLike t t' (t.sights true p)) : t'.isFolder p = t.isFolder p := by
  unfold isFolder
  rcases stat_alike like with same | ⟨a, b, file, file'⟩
  · rw [same]
  · rw [file, file']

lemma exists?_congr (like : LooksLike t t' (t.sights true p)) : t'.exists? p = t.exists? p := by
  unfold exists?
  rcases stat_alike like with same | ⟨a, b, file, file'⟩
  · rw [same]
  · rw [file, file']

/-- A path leads to the very same node if the place where it ends holds the same. -/
lemma stat_congr (like : LooksLike t t' (t.sights true p))
    (same : ∀ loc, t.locate true p = .ok loc → t'.node? loc = t.node? loc) :
    t'.stat p = t.stat p := by
  rw [stat, stat, locate_congr like]
  cases located : t.locate true p with
  | error f => rfl
  | ok loc => simp only [same loc located]

/-! ## Writing files -/

/-- A folder that is refused in one tree is refused in the other one. -/
lemma makeFolder_congr {f : Fault}
    (like : LooksLike t t' (t.sights true p ++ t.sights true p.parent))
    (refused : t.makeFolder p = .error f) : t'.makeFolder p = .error f := by
  have above : t'.locateParent p = t.locateParent p :=
    locateFolder_congr (like.mono (List.subset_append_right _ _))
  unfold makeFolder at refused ⊢
  rw [above]
  cases located : t.locateParent p with
  | error g =>
    rw [located] at refused
    exact refused
  | ok folder =>
    rw [located] at refused
    dsimp only at refused ⊢
    cases named : namesEntry p with
    | false =>
      rw [named] at refused
      exact refused
    | true =>
      have alike := like.alike (folder ++ [p.name])
        (List.mem_append_left _ (mem_sights_of_locateParent located named))
      rw [named] at refused
      generalize t.node? (folder ++ [p.name]) = n at alike refused
      generalize t'.node? (folder ++ [p.name]) = m at alike
      cases alike with
      | files a b => exact refused
      | same =>
        cases taken : n.isSome with
        | true =>
          rw [taken] at refused
          exact refused
        | false =>
          rw [taken] at refused
          simp only [Bool.not_true, Bool.or_self, Bool.false_eq_true, if_false] at refused ⊢
          split at refused
          · rename_i long
            rw [if_pos long]
            exact refused
          · cases refused

lemma draftFolder_congr (working : t'.working = t.working) (p : Path) :
    t'.draftFolder p = t.draftFolder p := by
  rw [draftFolder, draftFolder, working]

lemma replaceFault?_congr (like : LooksLike t t' (t.writeSights p)) :
    t'.replaceFault? p = t.replaceFault? p := by
  have above : t'.locateParent p = t.locateParent p := by
    refine locateFolder_congr (like.mono fun loc mem => ?_)
    simp only [writeSights, List.mem_append]
    exact .inl (.inl (.inr mem))
  rw [replaceFault?, replaceFault?, above]
  cases located : t.locateParent p with
  | error f => rfl
  | ok folder =>
    dsimp only
    cases named : namesEntry p with
    | false => rfl
    | true =>
      have alike := like.alike (folder ++ [p.name]) (by
        simp only [writeSights, List.mem_append]
        exact .inl (.inl (.inl (mem_sights_of_locateParent located named))))
      generalize t.node? (folder ++ [p.name]) = n at alike
      generalize t'.node? (folder ++ [p.name]) = m at alike
      cases alike with
      | same => rfl
      | files a b => simp

/-- No folders are made above a path in either tree, with the same answer. -/
lemma makeFolders_congr {f : Fault} (like : LooksLike t t' (t.writeSights p))
    (refused : t.makeFolder p.parent = .error f) (other : f ≠ .notFound) :
    t'.makeFolders p.parent = (t', (t.makeFolders p.parent).2) := by
  have still : t'.makeFolder p.parent = .error f := by
    refine makeFolder_congr (like.mono fun loc mem => ?_) refused
    simp only [writeSights, List.mem_append] at mem ⊢
    exact .inl (mem.elim (.inl ∘ .inr) .inr)
  have above : LooksLike t t' (t.sights true p.parent) := by
    refine like.mono fun loc mem => ?_
    simp only [writeSights, List.mem_append]
    exact .inl (.inl (.inr mem))
  rw [makeFolders_of_refused still other, makeFolders_of_refused refused other, folderFault?,
    folderFault?, isFolder_congr above, obstacle?_congr above]

lemma writeFault?_congr {f : Fault} (like : LooksLike t t' (t.writeSights p))
    (refused : t.makeFolder p.parent = .error f) (other : f ≠ .notFound) (disk : Disk) :
    t'.writeFault? p disk = t.writeFault? p disk := by
  have drafts : t'.locateFolder (t'.draftFolder p) = t.locateFolder (t.draftFolder p) := by
    rw [draftFolder_congr like.working]
    refine locateFolder_congr (like.mono fun loc mem => ?_)
    simp only [writeSights, List.mem_append]
    exact .inr mem
  rw [writeFault?, writeFault?, makeFolders_congr like refused other, drafts,
    replaceFault?_congr like, draftFolder_congr like.working]

/-- A write fails in both trees, with the same fault, or puts the same file in the same place. -/
lemma write_congr {f : Fault} (like : LooksLike t t' (t.writeSights p))
    (refused : t.makeFolder p.parent = .error f) (other : f ≠ .notFound) (bytes : Bytes)
    (disk : Disk) :
    (∃ g, t.write p bytes disk = (t, some g) ∧ t'.write p bytes disk = (t', some g)) ∨
      ∃ folder, t.locateParent p = .ok folder ∧ namesEntry p = true ∧
        t.write p bytes disk = (t.put (folder ++ [p.name]) (.file bytes), none) ∧
        t'.write p bytes disk = (t'.put (folder ++ [p.name]) (.file bytes), none) := by
  have kept : (t.makeFolders p.parent).1 = t := by rw [makeFolders_of_refused refused other]
  have kept' : (t'.makeFolders p.parent).1 = t' := by rw [makeFolders_congr like refused other]
  have above : t'.locateParent p = t.locateParent p := by
    refine locateFolder_congr (like.mono fun loc mem => ?_)
    simp only [writeSights, List.mem_append]
    exact .inl (.inl (.inr mem))
  have faults := writeFault?_congr like refused other disk
  rcases write_eq kept bytes disk with ⟨g, fault, failed⟩ | ⟨free, folder, located, named, -, moves⟩
  · rcases write_eq kept' bytes disk with ⟨g', fault', failed'⟩ | ⟨free', -⟩
    · rw [faults, fault] at fault'
      cases fault'
      exact .inl ⟨g, failed, failed'⟩
    · rw [faults, fault] at free'
      cases free'
  · rcases write_eq kept' bytes disk with ⟨g', fault', -⟩ | ⟨-, folder', located', -, -, moves'⟩
    · rw [faults, free] at fault'
      cases fault'
    · rw [above, located] at located'
      cases located'
      exact .inr ⟨folder, located, named, moves, moves'⟩

end FileTree

end Phrasebook
