import Mathlib.Tactic.Lemma
import Phrasebook.Files.Write

/-!
# Walking and writing in file trees

Following a path goes on from where its front leads (`walk_append`). From this it follows that
nothing is made when the folders above a path are there (`makeFolders_of_located`), so a write to a
path in a folder leaves the tree as it was or puts one file in that folder (`write_eq`), whatever
goes wrong on the disk: a draft is gone when it has been moved or taken away (`remove_put`).
-/

namespace Phrasebook

open Files

lemma Path.parts_eq_concat {p : Path} (nonempty : p.parts ≠ []) :
    p.parts = p.parent.parts ++ [p.name] := by
  obtain ⟨front, last, split⟩ := (List.eq_nil_or_concat p.parts).resolve_left nonempty
  rw [List.concat_eq_append] at split
  simp [Path.parent, Path.name, split]

/-- No character has more than four bytes. -/
lemma Utf8.length_encode_le (t : Text) : (Utf8.encode t).length ≤ 4 * t.length := by
  have char : ∀ c : Char, (Utf8.encodeChar c).length ≤ 4 := by
    intro c
    unfold Utf8.encodeChar
    dsimp only
    repeat' split
    all_goals simp
  induction t with
  | nil => exact Nat.le_refl 0
  | cons c t ih =>
    rw [encode, List.flatMap_cons, List.length_append, List.length_cons, ← encode]
    have first := char c
    omega

lemma Files.isTooLong_eq_false {name : Text} (short : name.length ≤ 63) :
    isTooLong name = false := by
  have bytes := Utf8.length_encode_le name
  rw [isTooLong, decide_eq_false_iff_not, nameLimit]
  omega

lemma Files.absence_of_short {name : Text} (short : isTooLong name = false) :
    absence name = .notFound := by
  rw [absence, short, if_neg Bool.false_ne_true]

namespace FileTree

variable {t : FileTree} {loc : Location} {n : Node}

/-! ## Putting and removing -/

lemma lookup_of_node? (absent : t.node? loc = none) : t.nodes.lookup loc = none := by
  unfold node? at absent
  split at absent
  · cases absent
  · exact absent

lemma remove_put (absent : t.node? loc = none) (n : Node) : (t.put loc n).remove loc = t := by
  have free := lookup_of_node? absent
  have other : ∀ e ∈ t.nodes, (e.1 != loc) = true := by
    intro e mem
    have apart := List.lookup_eq_none_iff.1 free e mem
    rw [bne_iff_ne] at apart ⊢
    exact Ne.symm apart
  simp [put, remove, free, List.filter_eq_self.2 other]

lemma lookup_put (nodes : List (Location × Node)) (loc loc' : Location) (n : Node) :
    (nodes.map fun e => if e.1 = loc then (loc, n) else e).lookup loc' =
      if loc' = loc then (nodes.lookup loc).map fun _ => n else nodes.lookup loc' := by
  induction nodes with
  | nil => simp
  | cons e es ih =>
    obtain ⟨k, m⟩ := e
    by_cases here : k = loc
    · subst here
      by_cases same : loc' = k
      · simp [same]
      · simp [List.lookup_cons, same, beq_false_of_ne same, ih]
    · by_cases same : loc' = loc
      · subst same
        simp [List.lookup_cons, here, beq_false_of_ne (Ne.symm here), ih]
      · by_cases found : loc' = k
        · simp [here, found]
        · simp [List.lookup_cons, here, same, beq_false_of_ne found, ih]

/-- A node put at a place is there, and all other places keep theirs. -/
lemma node?_put (below : loc ≠ []) (n : Node) (loc' : Location) :
    (t.put loc n).node? loc' = if loc' = loc then some n else t.node? loc' := by
  by_cases root : loc' = []
  · subst root
    rw [if_neg (Ne.symm below)]
    rfl
  · have named : ∀ u : FileTree, u.node? loc' = u.nodes.lookup loc' := by
      intro u
      rw [node?, if_neg (by simp [root])]
    rw [named, named, put]
    cases found : t.nodes.lookup loc with
    | some m => simp [lookup_put, found]
    | none =>
      by_cases same : loc' = loc
      · simp [same, found, List.lookup_append]
      · simp [same, List.lookup_append, List.lookup_cons, beq_false_of_ne same]

lemma node?_put_self (below : loc ≠ []) (n : Node) : (t.put loc n).node? loc = some n := by
  rw [node?_put below, if_pos rfl]

lemma node?_put_of_ne {loc' : Location} (below : loc ≠ []) (n : Node) (other : loc' ≠ loc) :
    (t.put loc n).node? loc' = t.node? loc' := by
  rw [node?_put below, if_neg other]

/-- A draft that is moved to a path leaves nothing of its own behind. -/
lemma moveFile_put (absent : t.node? loc = none) (p : Path) (bytes : Bytes) :
    (t.put loc (.file bytes)).moveFile loc p = t.replaceFile p bytes := by
  have below : loc ≠ [] := by
    rintro rfl
    cases absent
  rw [moveFile, node?_put_self below]
  simp only [remove_put absent]

/-! ## Walking -/

section Walk

variable {follow : Bool} {links : Nat} {here : Location} {name : Text} {rest : List Text}

lemma walk_dots (t : FileTree) (follow : Bool) (links : Nat) (here : Location) (rest : List Text) :
    t.walk follow links here ("..".toList :: rest) = t.walk follow links here.dropLast rest := by
  rw [walk.eq_2, if_pos rfl]

lemma walk_of_absent (named : name ≠ "..".toList) (absent : t.node? (here ++ [name]) = none)
    (follow : Bool) (links : Nat) (rest : List Text) :
    t.walk follow links here (name :: rest) = .error (absence name) := by
  rw [walk.eq_2, if_neg named]
  simp only [absent]

lemma walk_of_folder (named : name ≠ "..".toList)
    (folder : t.node? (here ++ [name]) = some .folder) (follow : Bool) (links : Nat)
    (rest : List Text) :
    t.walk follow links here (name :: rest) = t.walk follow links (here ++ [name]) rest := by
  rw [walk.eq_2, if_neg named]
  simp only [folder]

lemma walk_of_file {bytes : Bytes} (named : name ≠ "..".toList)
    (file : t.node? (here ++ [name]) = some (.file bytes)) (follow : Bool) (links : Nat)
    (rest : List Text) :
    t.walk follow links here (name :: rest) =
      if rest.isEmpty then .ok (here ++ [name]) else .error .notFolder := by
  rw [walk.eq_2, if_neg named]
  simp only [file]

/-- A link that ends a path is not followed unless it is asked for. -/
lemma walk_of_last_link {target : Text} (named : name ≠ "..".toList)
    (link : t.node? (here ++ [name]) = some (.link target)) (links : Nat) :
    t.walk false links here [name] = .ok (here ++ [name]) := by
  rw [walk.eq_2, if_neg named]
  simp only [link, List.isEmpty_nil, Bool.not_false, Bool.and_self, if_true]

lemma walk_of_link_loop {target : Text} (named : name ≠ "..".toList)
    (link : t.node? (here ++ [name]) = some (.link target))
    (followed : (rest.isEmpty && !follow) = false) :
    t.walk follow 0 here (name :: rest) = .error .loop := by
  rw [walk.eq_2, if_neg named]
  simp only [link, followed, Bool.false_eq_true, if_false]

lemma walk_of_link {target : Text} (named : name ≠ "..".toList)
    (link : t.node? (here ++ [name]) = some (.link target)) (links : Nat)
    (followed : (rest.isEmpty && !follow) = false) :
    t.walk follow (links + 1) here (name :: rest) =
      t.walk follow links (startOf (Path.ofText target).isAbsolute here)
        ((Path.ofText target).parts ++ rest) := by
  rw [walk.eq_2, if_neg named]
  simp only [link, followed, Bool.false_eq_true, if_false]

/-- The walk over names goes on from where the first of them lead, unless these lead nowhere or to a
file. -/
lemma walk_append (t : FileTree) (follow : Bool) (links : Nat) (here : Location)
    (names : List Text) (more : rest ≠ []) :
    (∃ loc k, t.walk true links here names = .ok loc ∧
      t.walk follow links here (names ++ rest) = t.walk follow k loc rest) ∨
    ∃ f, t.walk follow links here (names ++ rest) = .error f ∧
      (t.walk true links here names = .error f ∨
        ∃ loc bytes, t.walk true links here names = .ok loc ∧ t.node? loc = some (.file bytes)) := by
  have longer : ∀ names : List Text, ((names ++ rest).isEmpty && !follow) = false := by
    intro names
    simp [more]
  -- along the walk itself: behind a link the names of its target come first, then the same rest
  induction links, here, names using FileTree.walk.induct t true with
  | case1 links here => exact .inl ⟨here, links, walk.eq_1 .., rfl⟩
  | case2 links here names ih =>
    rw [List.cons_append, walk_dots, walk_dots]
    exact ih
  | case3 links here name names named place absent =>
    exact .inr ⟨absence name, walk_of_absent named absent ..,
      .inl (walk_of_absent named absent ..)⟩
  | case4 links here name names named place folder ih =>
    rw [List.cons_append, walk_of_folder named folder, walk_of_folder named folder]
    exact ih
  | case5 links here name names named place bytes file last =>
    have whole := walk_of_file named file true links names
    have further := walk_of_file named file follow links (names ++ rest)
    rw [if_pos last] at whole
    rw [if_neg (by simp [more])] at further
    exact .inr ⟨.notFolder, further, .inr ⟨place, bytes, whole, file⟩⟩
  | case6 links here name names named place bytes file inner =>
    have whole := walk_of_file named file true links names
    have further := walk_of_file named file follow links (names ++ rest)
    rw [if_neg inner] at whole
    rw [if_neg (by simp [more])] at further
    exact .inr ⟨.notFolder, further, .inl whole⟩
  | case7 links here name names named place target link last => simp at last
  | case8 here name names named place target link _ =>
    refine .inr ⟨.loop, walk_of_link_loop named link (longer names), .inl ?_⟩
    exact walk_of_link_loop named link (Bool.and_false _)
  | case9 here name names named place target link _ links p ih =>
    rw [List.cons_append, walk_of_link named link links (longer names),
      walk_of_link named link links (Bool.and_false _), ← List.append_assoc]
    exact ih

/-- A file put where nothing but a link stood leaves walks as they are, unless they come by. -/
lemma walk_put {place : Location} (below : place ≠ [])
    (free : ∀ n, t.node? place = some n → ∃ target, n = .link target) (bytes : Bytes)
    {names : List Text} (walked : t.walk true links here names = .ok loc) :
    (t.put place (.file bytes)).walk true links here names = .ok loc ∨
      (t.put place (.file bytes)).walk true links here names = .ok place ∨
      (t.put place (.file bytes)).walk true links here names = .error .notFolder := by
  -- only a step over the link at `place` can go another way
  have kept : ∀ {l n}, t.node? l = some n → (∀ target, n ≠ .link target) →
      (t.put place (.file bytes)).node? l = some n := by
    intro l n stands direct
    refine (node?_put_of_ne below _ ?_).trans stands
    rintro rfl
    obtain ⟨target, link⟩ := free n stands
    exact direct target link
  induction links, here, names using FileTree.walk.induct t true with
  | case1 links here =>
    rw [walk.eq_1] at walked ⊢
    exact .inl walked
  | case2 links here names ih =>
    rw [walk_dots] at walked ⊢
    exact ih walked
  | case3 links here name names named _ absent =>
    rw [walk_of_absent named absent] at walked
    cases walked
  | case4 links here name names named _ folder ih =>
    rw [walk_of_folder named folder] at walked
    rw [walk_of_folder named (kept folder nofun)]
    exact ih walked
  | case5 links here name names named _ b file last =>
    rw [walk_of_file named file] at walked
    rw [walk_of_file named (kept file nofun)]
    exact .inl walked
  | case6 links here name names named _ b file inner =>
    rw [walk_of_file named file, if_neg inner] at walked
    cases walked
  | case7 links here name names named _ target link last => simp at last
  | case8 here name names named _ target link _ =>
    rw [walk_of_link_loop named link (Bool.and_false _)] at walked
    cases walked
  | case9 here name names named _ target link _ links p ih =>
    by_cases same : here ++ [name] = place
    · have file : (t.put place (.file bytes)).node? (here ++ [name]) = some (.file bytes) := by
        rw [same, node?_put_self below]
      rw [walk_of_file named file, same]
      split
      · exact .inr (.inl rfl)
      · exact .inr (.inr rfl)
    · have still := (node?_put_of_ne below (.file bytes) same).trans link
      rw [walk_of_link named link links (Bool.and_false _)] at walked
      rw [walk_of_link named still links (Bool.and_false _)]
      exact ih walked

end Walk

/-! ## Paths that lead to files -/

/-- Where a path leads, its parent leads to a place too, and there the path names something unless it
ends in dots. -/
lemma locate_parent {p : Path} (located : t.locate true p = .ok loc) :
    ∃ folder, t.locate true p.parent = .ok folder ∧
      (namesEntry p = true → (t.node? (folder ++ [p.name])).isSome = true) := by
  by_cases empty : p.parts = []
  · have same : p.parent = p := by
      cases p
      cases empty
      rfl
    refine ⟨loc, by rw [same]; exact located, fun named => ?_⟩
    simp [namesEntry, empty] at named
  · unfold locate at located ⊢
    rw [Path.parts_eq_concat empty] at located
    rcases t.walk_append true linkLimit (startOf p.isAbsolute t.working) p.parent.parts
      (List.cons_ne_nil p.name []) with ⟨folder, k, first, whole⟩ | ⟨f, failed, -⟩
    · refine ⟨folder, first, fun named => ?_⟩
      rw [located] at whole
      simp only [namesEntry, Bool.and_eq_true, bne_iff_ne] at named
      cases found : t.node? (folder ++ [p.name]) with
      | some _ => rfl
      | none =>
        rw [walk_of_absent named.2 found] at whole
        cases whole
    · rw [located] at failed
      cases failed

lemma locate_of_locateFolder {p : Path} (found : t.locateFolder p = .ok loc) :
    t.locate true p = .ok loc ∧ t.node? loc = some .folder := by
  unfold locateFolder at found
  split at found
  · cases found
  · rename_i here located
    split at found
    · rename_i isFolder
      cases found
      exact ⟨located, isFolder⟩
    · cases found

lemma locateFolder_of_node? {p : Path} (located : t.locate true p = .ok loc)
    (isFolder : t.node? loc = some .folder) : t.locateFolder p = .ok loc := by
  rw [locateFolder, located]
  simp only [isFolder]

lemma locateFolder_root (working : t.working = []) (slashes : Nat) :
    t.locateFolder ⟨slashes, []⟩ = .ok [] := by
  refine locateFolder_of_node? ?_ rfl
  rw [locate, walk.eq_1, working]
  cases Path.isAbsolute ⟨slashes, []⟩ <;> rfl

lemma locate_of_locateParent {p : Path} {folder : Location}
    (located : t.locateParent p = .ok folder) :
    t.locate true p.parent = .ok folder ∧ t.node? folder = some .folder :=
  locate_of_locateFolder located

/-- A path that names something leads there from the folder above. -/
lemma walk_of_parent {p : Path} {folder : Location} (located : t.locateParent p = .ok folder)
    (named : namesEntry p = true) (follow : Bool) :
    ∃ k, t.locate follow p = t.walk follow k folder [p.name] := by
  obtain ⟨found, isFolder⟩ := locate_of_locateParent located
  simp only [namesEntry, Bool.and_eq_true, Bool.not_eq_true', bne_iff_ne] at named
  have split : p.parts = p.parent.parts ++ [p.name] :=
    Path.parts_eq_concat (by simpa using named.1)
  unfold locate at found ⊢
  rw [split]
  rcases t.walk_append follow linkLimit (startOf p.isAbsolute t.working) p.parent.parts
    (List.cons_ne_nil p.name []) with ⟨loc, k, first, whole⟩ | ⟨f, -, failed | ⟨loc, b, first, file⟩⟩
  · obtain rfl := Except.ok.inj (first.symm.trans found)
    exact ⟨k, whole⟩
  · cases failed.symm.trans found
  · obtain rfl := Except.ok.inj (first.symm.trans found)
    rw [isFolder] at file
    cases file

/-- A path leads to what stands under its name in the folder above, if that is no link. -/
lemma locate_of_stands {p : Path} {folder : Location} (located : t.locateParent p = .ok folder)
    (named : namesEntry p = true) (stands : t.node? (folder ++ [p.name]) = some n)
    (direct : ∀ target, n ≠ .link target) : t.locate true p = .ok (folder ++ [p.name]) := by
  obtain ⟨k, whole⟩ := walk_of_parent located named true
  simp only [namesEntry, Bool.and_eq_true, bne_iff_ne] at named
  rw [whole]
  cases n with
  | folder => rw [walk_of_folder named.2 stands, walk.eq_1]
  | file bytes =>
    rw [walk_of_file named.2 stands]
    rfl
  | link target => exact absurd rfl (direct target)

/-- A path under whose name a file stands leads there, links followed or not. -/
lemma locate_of_file {p : Path} {folder : Location} {bytes : Bytes}
    (located : t.locateParent p = .ok folder) (named : namesEntry p = true)
    (stands : t.node? (folder ++ [p.name]) = some (.file bytes)) (follow : Bool) :
    t.locate follow p = .ok (folder ++ [p.name]) := by
  obtain ⟨k, whole⟩ := walk_of_parent located named follow
  simp only [namesEntry, Bool.and_eq_true, bne_iff_ne] at named
  rw [whole, walk_of_file named.2 stands, List.isEmpty_nil, if_pos rfl]

/-- Such a path is no link. -/
lemma isLink_of_file {p : Path} {folder : Location} {bytes : Bytes}
    (located : t.locateParent p = .ok folder) (named : namesEntry p = true)
    (stands : t.node? (folder ++ [p.name]) = some (.file bytes)) : t.isLink p = false := by
  rw [isLink, locate_of_file located named stands]
  simp only [stands]

/-- A path that leads somewhere meets no obstacle. -/
lemma obstacle?_of_locate {follow : Bool} {p : Path} (located : t.locate follow p = .ok loc) :
    t.obstacle? follow p = none := by
  rw [obstacle?, located]

lemma obstacle?_of_stat {p : Path} (leads : t.stat p = .ok n) : t.obstacle? true p = none := by
  unfold stat at leads
  cases located : t.locate true p with
  | error f =>
    rw [located] at leads
    cases leads
  | ok loc => exact obstacle?_of_locate located

lemma obstacle?_of_absence {p : Path} {f : Fault} (failed : t.stat p = .error f)
    (absent : f.isAbsence = true) : t.obstacle? true p = none := by
  unfold stat at failed
  cases located : t.locate true p with
  | error g =>
    rw [located] at failed
    cases failed
    rw [obstacle?, located]
    exact if_pos absent
  | ok loc => exact obstacle?_of_locate located

lemma exists?_of_stands {p : Path} {folder : Location} (located : t.locateParent p = .ok folder)
    (named : namesEntry p = true) (stands : t.node? (folder ++ [p.name]) = some n)
    (direct : ∀ target, n ≠ .link target) : t.exists? p = true := by
  rw [exists?, stat, locate_of_stands located named stands direct]
  simp only [stands]

/-- What stands under the name of a path that is no link and leads to a file is that file. -/
lemma node?_of_readBytes {p : Path} {folder : Location} {bytes : Bytes}
    (located : t.locateParent p = .ok folder) (named : namesEntry p = true)
    (direct : t.isLink p = false) (read : t.readBytes p = .ok bytes) :
    t.node? (folder ++ [p.name]) = some (.file bytes) := by
  cases stands : t.node? (folder ++ [p.name]) with
  | none =>
    obtain ⟨k, whole⟩ := walk_of_parent located named true
    simp only [namesEntry, Bool.and_eq_true, bne_iff_ne] at named
    rw [readBytes, stat, whole, walk_of_absent named.2 stands] at read
    cases read
  | some n =>
    cases n with
    | link target =>
      obtain ⟨k, whole⟩ := walk_of_parent located named false
      simp only [namesEntry, Bool.and_eq_true, bne_iff_ne] at named
      rw [isLink, whole, walk_of_last_link named.2 stands] at direct
      simp only [stands] at direct
      cases direct
    | folder =>
      rw [readBytes, stat, locate_of_stands located named stands nofun] at read
      simp only [stands] at read
      cases read
    | file b =>
      rw [readBytes, stat, locate_of_stands located named stands nofun] at read
      simp only [stands] at read
      cases read
      rfl

/-! ## Making folders -/

/-- A folder that is refused for another reason than a missing parent leaves the tree as it is. -/
lemma makeFolders_of_refused {p : Path} {f : Fault} (refused : t.makeFolder p = .error f)
    (other : f ≠ .notFound) : t.makeFolders p = (t, t.folderFault? p f) := by
  unfold makeFolders
  cases p.parts.length with
  | zero | succ k =>
    rw [makeFoldersUpTo, refused]
    cases f with
    | notFound => exact absurd rfl other
    | _ => rfl

/-- A folder that is there, or whose parent is none, is refused. -/
lemma makeFolder_refused {p : Path}
    (there : t.locateParent p = .error .notFolder ∨ ∃ folder, t.locateParent p = .ok folder ∧
      (namesEntry p = true → (t.node? (folder ++ [p.name])).isSome = true)) :
    ∃ f, t.makeFolder p = .error f ∧ f ≠ .notFound := by
  rcases there with failed | ⟨folder, located, stands⟩
  · exact ⟨.notFolder, by rw [makeFolder, failed], nofun⟩
  · refine ⟨.exists, ?_, nofun⟩
    have taken : (!namesEntry p || (t.node? (folder ++ [p.name])).isSome) = true := by
      cases named : namesEntry p with
      | false => rfl
      | true => rw [stands named, Bool.or_true]
    rw [makeFolder, located]
    simp only [taken, if_true]

lemma makeFolders_eq_self {p : Path}
    (there : t.locateParent p = .error .notFolder ∨ ∃ folder, t.locateParent p = .ok folder ∧
      (namesEntry p = true → (t.node? (folder ++ [p.name])).isSome = true)) :
    (t.makeFolders p).1 = t := by
  obtain ⟨f, refused, other⟩ := makeFolder_refused there
  rw [makeFolders_of_refused refused other]

lemma locateFolder_of_locate {p : Path} (located : t.locate true p = .ok loc) :
    t.locateFolder p = .ok loc ∨ t.locateFolder p = .error .notFolder := by
  unfold locateFolder
  rw [located]
  dsimp only
  split
  · exact .inl rfl
  · exact .inr rfl

/-- Where a path leads, its parent is found, or is no folder. -/
lemma locateParent_of_located {p : Path} (located : t.locate true p = .ok loc) :
    t.locateParent p = .error .notFolder ∨ ∃ folder, t.locateParent p = .ok folder ∧
      (namesEntry p = true → (t.node? (folder ++ [p.name])).isSome = true) := by
  obtain ⟨folder, found, stands⟩ := locate_parent located
  rcases locateFolder_of_locate found with here | failed
  · exact .inr ⟨folder, here, stands⟩
  · exact .inl failed

lemma makeFolders_of_located {p : Path} (located : t.locate true p = .ok loc) :
    (t.makeFolders p).1 = t :=
  makeFolders_eq_self (locateParent_of_located located)

/-- A folder that is there will do. -/
lemma makeFolders_of_folder {p : Path} (found : t.locateFolder p = .ok loc) :
    t.makeFolders p = (t, none) := by
  obtain ⟨located, isFolder⟩ := locate_of_locateFolder found
  obtain ⟨f, refused, other⟩ := makeFolder_refused (locateParent_of_located located)
  have there : t.isFolder p = true := by
    rw [FileTree.isFolder, stat, located]
    simp only [isFolder]
  rw [makeFolders_of_refused refused other, folderFault?, there, if_pos rfl]

/-- Nor is a folder missing after a file was put where nothing but a link stood. -/
lemma locateParent_put {p : Path} (located : t.locate true p = .ok loc) {place : Location}
    (below : place ≠ []) (free : ∀ n, t.node? place = some n → ∃ target, n = .link target)
    (bytes : Bytes) :
    (t.put place (.file bytes)).locateParent p = .error .notFolder ∨
      ∃ folder, (t.put place (.file bytes)).locateParent p = .ok folder ∧ (namesEntry p = true →
        ((t.put place (.file bytes)).node? (folder ++ [p.name])).isSome = true) := by
  obtain ⟨folder, found, stands⟩ := locate_parent located
  rcases walk_put below free bytes found with same | moved | failed
  · rcases locateFolder_of_locate same with here | failed
    · refine .inr ⟨folder, here, fun named => ?_⟩
      rw [node?_put below]
      split
      · rfl
      · exact stands named
    · exact .inl failed
  · -- the parent now leads to the file itself
    left
    unfold locateParent locateFolder
    rw [show (t.put place (.file bytes)).locate true p.parent = .ok place from moved]
    simp only [node?_put_self below]
  · left
    unfold locateParent locateFolder
    rw [show (t.put place (.file bytes)).locate true p.parent = .error .notFolder from failed]

/-- If the folder of a path is still found after such a file was put, it is found where it was. -/
lemma locateParent_of_put {p : Path} {folder place : Location} {bytes : Bytes}
    (above : t.locate true p.parent = .ok folder) (below : place ≠ [])
    (free : ∀ n, t.node? place = some n → ∃ target, n = .link target)
    (located : (t.put place (.file bytes)).locateParent p = .ok loc) :
    loc = folder ∧ t.locateParent p = .ok folder := by
  obtain ⟨found, isFolder⟩ := locate_of_locateParent located
  have other : loc ≠ place := by
    rintro rfl
    rw [node?_put_self below] at isFolder
    cases isFolder
  have same : loc = folder := by
    rcases walk_put below free bytes above with same | moved | failed
    · exact Except.ok.inj (found.symm.trans same)
    · exact absurd (Except.ok.inj (found.symm.trans moved)) other
    · cases found.symm.trans failed
  subst same
  rw [node?_put_of_ne below _ other] at isFolder
  exact ⟨rfl, locateFolder_of_node? above isFolder⟩

lemma makeFolders_put {p : Path} (located : t.locate true p = .ok loc) {place : Location}
    (below : place ≠ []) (free : ∀ n, t.node? place = some n → ∃ target, n = .link target)
    (bytes : Bytes) :
    ((t.put place (.file bytes)).makeFolders p).1 = t.put place (.file bytes) :=
  makeFolders_eq_self (locateParent_put located below free bytes)

/-! ## Writing -/

/-- What keeps a file from being put at a path. -/
def replaceFault? (t : FileTree) (p : Path) : Option Fault :=
  match t.locateParent p with
  | .error f => some f
  | .ok folder =>
    if !namesEntry p then some .busy
    else
      match t.node? (folder ++ [p.name]) with
      | some .folder => some .isFolder
      | some _ => none
      | none => if isTooLong p.name then some .nameTooLong else none

/-- What keeps a file from being written, where no folders have to be made. -/
def writeFault? (t : FileTree) (p : Path) (disk : Disk) : Option Incident :=
  match (t.makeFolders p.parent).2, t.locateFolder (t.draftFolder p), disk.mishap p with
  | some i, _, _ => some i
  | none, .error f, _ => some ⟨f, [t.draftFolder p]⟩
  | none, .ok _, some m => some (m.incident (t.draftFolder p) p)
  | none, .ok _, none => (t.replaceFault? p).map (Incident.mk · [t.draftFolder p, p])

lemma replaceFile_cases (t : FileTree) (p : Path) (bytes : Bytes) :
    (∃ f, t.replaceFault? p = some f ∧ t.replaceFile p bytes = .error f) ∨
      t.replaceFault? p = none ∧ ∃ folder, t.locateParent p = .ok folder ∧ namesEntry p = true ∧
        t.node? (folder ++ [p.name]) ≠ some .folder ∧
        t.replaceFile p bytes = .ok (t.put (folder ++ [p.name]) (.file bytes)) := by
  unfold replaceFault? replaceFile
  cases located : t.locateParent p with
  | error f => exact .inl ⟨f, rfl, rfl⟩
  | ok folder =>
    dsimp only
    cases named : namesEntry p with
    | false => exact .inl ⟨.busy, rfl, rfl⟩
    | true =>
      simp only [Bool.not_true, Bool.false_eq_true, if_false]
      cases stands : t.node? (folder ++ [p.name]) with
      | none =>
        dsimp only
        split
        · exact .inl ⟨.nameTooLong, rfl, rfl⟩
        · exact .inr ⟨rfl, folder, rfl, trivial, by simp [stands], rfl⟩
      | some n =>
        cases n with
        | folder => exact .inl ⟨.isFolder, rfl, rfl⟩
        | file b => exact .inr ⟨rfl, folder, rfl, trivial, by simp [stands], rfl⟩
        | link target => exact .inr ⟨rfl, folder, rfl, trivial, by simp [stands], rfl⟩

/-- Where the folders above a path are there, a write leaves the tree as it was or puts one file under
the name of the path. -/
lemma write_eq {p : Path} (kept : (t.makeFolders p.parent).1 = t) (bytes : Bytes) (disk : Disk) :
    (∃ i, t.writeFault? p disk = some i ∧ t.write p bytes disk = (t, some i)) ∨
      t.writeFault? p disk = none ∧ ∃ folder, t.locateParent p = .ok folder ∧
        namesEntry p = true ∧ t.node? (folder ++ [p.name]) ≠ some .folder ∧
        t.write p bytes disk = (t.put (folder ++ [p.name]) (.file bytes), none) := by
  unfold write writeFault?
  generalize t.makeFolders p.parent = made at kept
  obtain ⟨t', fault⟩ := made
  obtain rfl : t' = t := kept
  cases fault with
  | some i => exact .inl ⟨i, rfl, rfl⟩
  | none =>
    dsimp only
    cases t'.locateFolder (t'.draftFolder p) with
    | error f => exact .inl ⟨_, rfl, rfl⟩
    | ok folder =>
      dsimp only
      have fresh := disk.fresh t' folder
      unfold writeVia
      cases disk.mishap p with
      | some m =>
        cases m with
        | refused f => exact .inl ⟨_, rfl, rfl⟩
        | cutShort k f => exact .inl ⟨_, rfl, by simp only [remove_put fresh]⟩
        | stuck f => exact .inl ⟨_, rfl, by simp only [remove_put fresh]⟩
      | none =>
        simp only [moveFile_put fresh, remove_put fresh]
        rcases t'.replaceFile_cases p bytes with ⟨f, fault, failed⟩ | ⟨free, loc, located, named, open', moved⟩
        · rw [failed, fault]
          exact .inl ⟨_, rfl, rfl⟩
        · rw [moved, free]
          exact .inr ⟨rfl, loc, located, named, open', rfl⟩

/-- Nothing keeps a file from being written where no folder stands, unless its draft fails or its name
is new and too long. -/
lemma writeFault?_eq_none {p : Path} {folder drafts : Location} {disk : Disk}
    (located : t.locateParent p = .ok folder) (named : namesEntry p = true)
    (free : t.node? (folder ++ [p.name]) ≠ some .folder)
    (short : t.node? (folder ++ [p.name]) = none → isTooLong p.name = false)
    (drafted : t.locateFolder (t.draftFolder p) = .ok drafts) (sound : disk.mishap p = none) :
    t.writeFault? p disk = none := by
  have clear : t.replaceFault? p = none := by
    simp only [replaceFault?, located, named, Bool.not_true, Bool.false_eq_true, if_false]
    split
    · rename_i isFolder
      exact absurd isFolder free
    · rfl
    · rename_i absent
      rw [short absent, if_neg Bool.false_ne_true]
  rw [writeFault?, makeFolders_of_folder located, drafted, sound]
  simp only [clear, Option.map_none]

lemma write_of_free {p : Path} {folder drafts : Location} {disk : Disk}
    (located : t.locateParent p = .ok folder) (named : namesEntry p = true)
    (free : t.node? (folder ++ [p.name]) ≠ some .folder)
    (short : t.node? (folder ++ [p.name]) = none → isTooLong p.name = false)
    (drafted : t.locateFolder (t.draftFolder p) = .ok drafts) (sound : disk.mishap p = none)
    (bytes : Bytes) :
    t.write p bytes disk = (t.put (folder ++ [p.name]) (.file bytes), none) := by
  have clear := writeFault?_eq_none located named free short drafted sound
  have kept := congrArg Prod.fst (makeFolders_of_folder located)
  rcases write_eq kept bytes disk with ⟨i, fault, -⟩ | ⟨-, loc, found, -, -, moves⟩
  · rw [clear] at fault
    cases fault
  · cases located.symm.trans found
    exact moves

lemma write_cases {p : Path} (kept : (t.makeFolders p.parent).1 = t) (bytes : Bytes) (disk : Disk) :
    (∃ i, t.write p bytes disk = (t, some i)) ∨
      ∃ folder, t.locateParent p = .ok folder ∧ namesEntry p = true ∧
        t.write p bytes disk = (t.put (folder ++ [p.name]) (.file bytes), none) := by
  rcases write_eq kept bytes disk with ⟨i, -, idle⟩ | ⟨-, folder, located, named, -, moves⟩
  · exact .inl ⟨i, idle⟩
  · exact .inr ⟨folder, located, named, moves⟩

/-- A write first makes the folders above the path. Whether it goes on from there does not depend on
the bytes. -/
lemma write_of_made (t : FileTree) (p : Path) (disk : Disk) :
    (∃ i, ∀ bytes, (t.write p bytes disk).2 = some i) ∨
      ∃ folder, (t.makeFolders p.parent).1.locateParent p = .ok folder ∧ namesEntry p = true ∧
        (t.makeFolders p.parent).1.node? (folder ++ [p.name]) ≠ some .folder ∧
        ∀ bytes, t.write p bytes disk =
          ((t.makeFolders p.parent).1.put (folder ++ [p.name]) (.file bytes), none) := by
  unfold write
  obtain ⟨made, fault⟩ := t.makeFolders p.parent
  cases fault with
  | some i => exact .inl ⟨i, fun _ => rfl⟩
  | none =>
    dsimp only
    cases made.locateFolder (made.draftFolder p) with
    | error f => exact .inl ⟨_, fun _ => rfl⟩
    | ok drafts =>
      dsimp only
      have fresh := disk.fresh made drafts
      unfold writeVia
      cases disk.mishap p with
      | some m => exact .inl ⟨_, fun _ => rfl⟩
      | none =>
        simp only [moveFile_put fresh]
        cases fault : made.replaceFault? p with
        | some f =>
          refine .inl ⟨⟨f, [made.draftFolder p, p]⟩, fun bytes => ?_⟩
          rcases made.replaceFile_cases p bytes with ⟨g, same, failed⟩ | ⟨free, -⟩
          · cases fault.symm.trans same
            rw [failed]
          · cases fault.symm.trans free
        | none =>
          rcases made.replaceFile_cases p [] with
            ⟨g, same, -⟩ | ⟨-, folder, located, named, notFolder, -⟩
          · cases fault.symm.trans same
          · refine .inr ⟨folder, located, named, notFolder, fun bytes => ?_⟩
            rcases made.replaceFile_cases p bytes with ⟨g, same, -⟩ | ⟨-, loc, found, -, -, moved⟩
            · cases fault.symm.trans same
            · cases located.symm.trans found
              rw [moved]

end FileTree

end Phrasebook
