import Phrasebook.Proofs.FileTrees

/-!
# The places that a walk looks at

A walk only asks what stands at the places on its way, and of a file only that it is one. So two
trees in which these places hold the same, the bytes of files aside, are walked alike (`walk_congr`).
-/

namespace Phrasebook

open Files

/-- Whether paths see no difference between two places: both hold files, or the same folder or link,
or nothing. -/
inductive Node.Alike : Option Node → Option Node → Prop where
  | same (n : Option Node) : Alike n n
  | files (a b : Bytes) : Alike (some (.file a)) (some (.file b))

lemma Node.Alike.eq {n m : Option Node} (alike : Alike n m) (other : ∀ b, n ≠ some (.file b)) :
    m = n := by
  cases alike with
  | same => rfl
  | files a b => exact absurd rfl (other a)

lemma Node.Alike.isFile {m : Option Node} {a : Bytes} (alike : Alike (some (.file a)) m) :
    ∃ b, m = some (.file b) := by
  cases alike with
  | same => exact ⟨a, rfl⟩
  | files a b => exact ⟨b, rfl⟩

namespace FileTree

/-- The places that a walk looks at, and the place where it ends. -/
def visits (t : FileTree) (follow : Bool) (links : Nat) (here : Location) :
    List Text → List Location
  | [] => [here]
  | name :: rest =>
    if name = "..".toList then t.visits follow links here.dropLast rest
    else
      let place := here ++ [name]
      match t.node? place with
      | none => [place]
      | some .folder => place :: t.visits follow links place rest
      | some (.file _) => [place]
      | some (.link target) =>
        if rest.isEmpty && !follow then [place]
        else
          match links with
          | 0 => [place]
          | links + 1 =>
            let p := Path.ofText target
            place :: t.visits follow links (startOf p.isAbsolute here) (p.parts ++ rest)
termination_by names => (links, names.length)

section Visits

variable {t t' : FileTree} {follow : Bool} {links : Nat} {here : Location} {name : Text}
  {names rest : List Text}

lemma visits_dots (t : FileTree) (follow : Bool) (links : Nat) (here : Location) (rest : List Text) :
    t.visits follow links here ("..".toList :: rest) = t.visits follow links here.dropLast rest := by
  rw [visits.eq_2, if_pos rfl]

/-- A walk that goes on does so behind a folder or a link; it looks at that first. -/
lemma visits_of_folder (named : name ≠ "..".toList)
    (folder : t.node? (here ++ [name]) = some .folder) (follow : Bool) (links : Nat)
    (rest : List Text) :
    t.visits follow links here (name :: rest) =
      (here ++ [name]) :: t.visits follow links (here ++ [name]) rest := by
  rw [visits.eq_2, if_neg named]
  simp only [folder]

lemma visits_of_link {target : Text} (named : name ≠ "..".toList)
    (link : t.node? (here ++ [name]) = some (.link target)) (links : Nat)
    (followed : (rest.isEmpty && !follow) = false) :
    t.visits follow (links + 1) here (name :: rest) =
      (here ++ [name]) :: t.visits follow links (startOf (Path.ofText target).isAbsolute here)
        ((Path.ofText target).parts ++ rest) := by
  rw [visits.eq_2, if_neg named]
  simp only [link, followed, Bool.false_eq_true, if_false]

lemma visits_of_file {bytes : Bytes} (named : name ≠ "..".toList)
    (file : t.node? (here ++ [name]) = some (.file bytes)) (follow : Bool) (links : Nat)
    (rest : List Text) : t.visits follow links here (name :: rest) = [here ++ [name]] := by
  rw [visits.eq_2, if_neg named]
  simp only [file]

/-- The place of a name is looked at, and it is the only one unless the walk goes on. -/
lemma mem_visits (named : name ≠ "..".toList) :
    here ++ [name] ∈ t.visits follow links here (name :: rest) := by
  rw [visits.eq_2, if_neg named]
  dsimp only
  split
  · exact List.mem_cons_self
  · exact List.mem_cons_self
  · exact List.mem_cons_self
  · split
    · exact List.mem_cons_self
    · split
      · exact List.mem_cons_self
      · exact List.mem_cons_self

/-- The place where a walk ends is looked at. -/
lemma mem_visits_of_walk {loc : Location} (walked : t.walk follow links here names = .ok loc) :
    loc ∈ t.visits follow links here names := by
  induction links, here, names using FileTree.walk.induct t follow with
  | case1 links here =>
    rw [walk.eq_1] at walked
    cases walked
    rw [visits.eq_1]
    exact List.mem_singleton_self _
  | case2 links here names ih =>
    rw [walk_dots] at walked
    rw [visits_dots]
    exact ih walked
  | case3 links here name names named place absent =>
    rw [walk_of_absent named absent] at walked
    cases walked
  | case4 links here name names named place folder ih =>
    rw [walk_of_folder named folder] at walked
    rw [visits_of_folder named folder]
    exact List.mem_cons_of_mem _ (ih walked)
  | case5 links here name names named place bytes file last =>
    rw [walk_of_file named file, if_pos last] at walked
    cases walked
    exact mem_visits named
  | case6 links here name names named place bytes file inner =>
    rw [walk_of_file named file, if_neg inner] at walked
    cases walked
  | case7 links here name names named place target link last =>
    rw [walk.eq_2, if_neg named] at walked
    simp only [place, link, last, if_true] at walked
    cases walked
    exact mem_visits named
  | case8 here name names named place target link further =>
    rw [walk_of_link_loop named link (Bool.eq_false_iff.2 further)] at walked
    cases walked
  | case9 here name names named place target link further links p ih =>
    have followed := Bool.eq_false_iff.2 further
    rw [walk_of_link named link links followed] at walked
    rw [visits_of_link named link links followed]
    exact List.mem_cons_of_mem _ (ih walked)

/-- Behind a walk to a folder, the place of the next name is looked at. -/
lemma mem_visits_concat {loc : Location} (walked : t.walk true links here names = .ok loc)
    (isFolder : t.node? loc = some .folder) (named : name ≠ "..".toList) :
    loc ++ [name] ∈ t.visits follow links here (names ++ [name]) := by
  induction links, here, names using FileTree.walk.induct t true with
  | case1 links here =>
    rw [walk.eq_1] at walked
    cases walked
    exact mem_visits named
  | case2 links here names ih =>
    rw [walk_dots] at walked
    rw [List.cons_append, visits_dots]
    exact ih walked
  | case3 links here first names other place absent =>
    rw [walk_of_absent other absent] at walked
    cases walked
  | case4 links here first names other place folder ih =>
    rw [walk_of_folder other folder] at walked
    rw [List.cons_append, visits_of_folder other folder]
    exact List.mem_cons_of_mem _ (ih walked)
  | case5 links here first names other place bytes file last =>
    rw [walk_of_file other file, if_pos last] at walked
    cases walked
    cases file.symm.trans isFolder
  | case6 links here first names other place bytes file inner =>
    rw [walk_of_file other file, if_neg inner] at walked
    cases walked
  | case7 links here first names other place target link last => simp at last
  | case8 here first names other place target link further =>
    rw [walk_of_link_loop other link (Bool.and_false _)] at walked
    cases walked
  | case9 here first names other place target link further links p ih =>
    rw [walk_of_link other link links (Bool.and_false _)] at walked
    rw [List.cons_append, visits_of_link other link links (by simp), ← List.append_assoc]
    exact List.mem_cons_of_mem _ (ih walked)

/-- Trees that hold the same on the way are walked alike. -/
lemma walk_congr
    (alike : ∀ loc ∈ t.visits follow links here names, Node.Alike (t.node? loc) (t'.node? loc)) :
    t'.walk follow links here names = t.walk follow links here names := by
  induction links, here, names using FileTree.walk.induct t follow with
  | case1 links here => rw [walk.eq_1, walk.eq_1]
  | case2 links here names ih =>
    rw [visits_dots] at alike
    rw [walk_dots, walk_dots]
    exact ih alike
  | case3 links here name names named place absent =>
    have still := (alike place (mem_visits named)).eq (by simp [absent])
    rw [absent] at still
    rw [walk_of_absent named still, walk_of_absent named absent]
  | case4 links here name names named place folder ih =>
    have still := (alike place (mem_visits named)).eq (by simp [folder])
    rw [folder] at still
    rw [visits_of_folder named folder] at alike
    rw [walk_of_folder named still, walk_of_folder named folder]
    exact ih fun loc mem => alike loc (List.mem_cons_of_mem _ mem)
  | case5 links here name names named place bytes file _ | case6 links here name names named place bytes file _ =>
    have seen := alike place (mem_visits named)
    rw [file] at seen
    obtain ⟨bytes', still⟩ := seen.isFile
    rw [walk_of_file named still, walk_of_file named file]
  | case7 links here name names named place target link last =>
    have still := (alike place (mem_visits named)).eq (by simp [link])
    rw [link] at still
    rw [walk.eq_2, if_neg named, walk.eq_2, if_neg named]
    simp only [place, link, still, last, if_true]
  | case8 here name names named place target link further =>
    have followed := Bool.eq_false_iff.2 further
    have still := (alike place (mem_visits named)).eq (by simp [link])
    rw [link] at still
    rw [walk_of_link_loop named still followed, walk_of_link_loop named link followed]
  | case9 here name names named place target link further links p ih =>
    have followed := Bool.eq_false_iff.2 further
    have still := (alike place (mem_visits named)).eq (by simp [link])
    rw [link] at still
    rw [visits_of_link named link links followed] at alike
    rw [walk_of_link named still links followed, walk_of_link named link links followed]
    exact ih fun loc mem => alike loc (List.mem_cons_of_mem _ mem)

/-- With one more file on the way, walks end there at the latest, so they look at no other places. -/
lemma mem_visits_of_put {place loc : Location} {bytes : Bytes} (below : place ≠ [])
    (mem : loc ∈ (t.put place (.file bytes)).visits follow links here names) :
    loc ∈ t.visits follow links here names := by
  have filled : ∀ {here : Location} {name : Text} {links rest}, name ≠ "..".toList →
      here ++ [name] = place →
      loc ∈ (t.put place (.file bytes)).visits follow links here (name :: rest) →
      loc ∈ t.visits follow links here (name :: rest) := by
    intro here name links rest named same mem
    have file : (t.put place (.file bytes)).node? (here ++ [name]) = some (.file bytes) := by
      rw [same, node?_put_self below]
    rw [visits.eq_2, if_neg named] at mem
    simp only [file] at mem
    rw [List.mem_singleton.1 mem]
    exact mem_visits named
  have kept : ∀ {l : Location}, l ≠ place →
      (t.put place (.file bytes)).node? l = t.node? l := node?_put_of_ne below _
  -- at the new file the walk ends; elsewhere it goes on as before
  induction links, here, names using FileTree.walk.induct t follow with
  | case1 links here =>
    rw [visits.eq_1] at mem ⊢
    exact mem
  | case2 links here names ih =>
    rw [visits_dots] at mem ⊢
    exact ih mem
  | case3 links here name names named next absent =>
    by_cases same : next = place
    · exact filled named same mem
    · have still := (kept same).trans absent
      rw [visits.eq_2, if_neg named] at mem ⊢
      simpa only [next, absent, still] using mem
  | case4 links here name names named next folder ih =>
    by_cases same : next = place
    · exact filled named same mem
    · rw [visits_of_folder named ((kept same).trans folder)] at mem
      rw [visits_of_folder named folder]
      exact (List.mem_cons.1 mem).elim (fun here => here ▸ List.mem_cons_self)
        fun later => List.mem_cons_of_mem _ (ih later)
  | case5 links here name names named next b file _ | case6 links here name names named next b file _ =>
    by_cases same : next = place
    · exact filled named same mem
    · have still := (kept same).trans file
      rw [visits.eq_2, if_neg named] at mem ⊢
      simpa only [next, file, still] using mem
  | case7 links here name names named next target link last =>
    by_cases same : next = place
    · exact filled named same mem
    · have still := (kept same).trans link
      rw [visits.eq_2, if_neg named] at mem ⊢
      simpa only [next, link, still, last, if_true] using mem
  | case8 here name names named next target link further =>
    by_cases same : next = place
    · exact filled named same mem
    · have still := (kept same).trans link
      rw [visits.eq_2, if_neg named] at mem ⊢
      simpa only [next, link, still, Bool.eq_false_iff.2 further, Bool.false_eq_true, if_false]
        using mem
  | case9 here name names named next target link further links p ih =>
    have followed := Bool.eq_false_iff.2 further
    by_cases same : next = place
    · exact filled named same mem
    · rw [visits_of_link named ((kept same).trans link) links followed] at mem
      rw [visits_of_link named link links followed]
      exact (List.mem_cons.1 mem).elim (fun here => here ▸ List.mem_cons_self)
        fun later => List.mem_cons_of_mem _ (ih later)

/-- A walk goes on behind folders and links only. -/
lemma node?_of_mem_visits {place loc : Location} (walked : t.walk true links here names = .ok loc)
    (behind : loc ≠ place) (onWay : place ∈ t.visits true links here names) :
    t.node? place = some .folder ∨ ∃ target, t.node? place = some (.link target) := by
  induction links, here, names using FileTree.walk.induct t true with
  | case1 links here =>
    rw [walk.eq_1] at walked
    cases walked
    rw [visits.eq_1] at onWay
    exact absurd (List.mem_singleton.1 onWay).symm behind
  | case2 links here names ih =>
    rw [walk_dots] at walked
    rw [visits_dots] at onWay
    exact ih walked onWay
  | case3 links here name names named next absent =>
    rw [walk_of_absent named absent] at walked
    cases walked
  | case4 links here name names named next folder ih =>
    rw [walk_of_folder named folder] at walked
    rw [visits_of_folder named folder] at onWay
    rcases List.mem_cons.1 onWay with same | later
    · exact .inl (same ▸ folder)
    · exact ih walked later
  | case5 links here name names named next b file last =>
    rw [walk_of_file named file, if_pos last] at walked
    cases walked
    rw [visits_of_file named file] at onWay
    exact absurd (List.mem_singleton.1 onWay).symm behind
  | case6 links here name names named next b file inner =>
    rw [walk_of_file named file, if_neg inner] at walked
    cases walked
  | case7 links here name names named next target link last => simp at last
  | case8 here name names named next target link further =>
    rw [walk_of_link_loop named link (Bool.and_false _)] at walked
    cases walked
  | case9 here name names named next target link further links p ih =>
    rw [walk_of_link named link links (Bool.and_false _)] at walked
    rw [visits_of_link named link links (Bool.and_false _)] at onWay
    rcases List.mem_cons.1 onWay with same | later
    · exact .inr ⟨target, same ▸ link⟩
    · exact ih walked later

/-- A file that is put aside of the way is no difference to a walk. -/
lemma walk_put_of_notMem {place : Location} (below : place ≠ []) (bytes : Bytes)
    (aside : place ∉ t.visits follow links here names) :
    (t.put place (.file bytes)).walk follow links here names = t.walk follow links here names := by
  apply walk_congr
  intro loc mem
  rw [node?_put_of_ne below _ (ne_of_mem_of_not_mem mem aside)]
  exact .same _

/-- A walk that went on behind a place is stopped by a file there. -/
lemma walk_put_of_mem {place loc : Location} (below : place ≠ []) (bytes : Bytes)
    (walked : t.walk true links here names = .ok loc) (behind : loc ≠ place)
    (onWay : place ∈ t.visits true links here names) (more : rest ≠ []) :
    (t.put place (.file bytes)).walk follow links here (names ++ rest) = .error .notFolder := by
  have blocked : ∀ {here : Location} {name : Text} {links names}, name ≠ "..".toList →
      here ++ [name] = place →
      (t.put place (.file bytes)).walk follow links here (name :: (names ++ rest)) =
        .error .notFolder := by
    intro here name links names named same
    have file : (t.put place (.file bytes)).node? (here ++ [name]) = some (.file bytes) := by
      rw [same, node?_put_self below]
    rw [walk_of_file named file, if_neg (by simp [more])]
  have kept : ∀ {l : Location}, l ≠ place →
      (t.put place (.file bytes)).node? l = t.node? l := node?_put_of_ne below _
  -- up to the place the walk goes on as before
  induction links, here, names using FileTree.walk.induct t true with
  | case1 links here =>
    rw [walk.eq_1] at walked
    cases walked
    rw [visits.eq_1] at onWay
    exact absurd (List.mem_singleton.1 onWay).symm behind
  | case2 links here names ih =>
    rw [walk_dots] at walked
    rw [visits_dots] at onWay
    rw [List.cons_append, walk_dots]
    exact ih walked onWay
  | case3 links here name names named next absent =>
    rw [walk_of_absent named absent] at walked
    cases walked
  | case4 links here name names named next folder ih =>
    rw [walk_of_folder named folder] at walked
    rw [visits_of_folder named folder] at onWay
    by_cases same : next = place
    · exact blocked named same
    · rw [List.cons_append, walk_of_folder named ((kept same).trans folder)]
      exact ih walked ((List.mem_cons.1 onWay).resolve_left (Ne.symm same))
  | case5 links here name names named next b file last =>
    rw [walk_of_file named file, if_pos last] at walked
    cases walked
    rw [visits_of_file named file] at onWay
    exact absurd (List.mem_singleton.1 onWay).symm behind
  | case6 links here name names named next b file inner =>
    rw [walk_of_file named file, if_neg inner] at walked
    cases walked
  | case7 links here name names named next target link last => simp at last
  | case8 here name names named next target link further =>
    rw [walk_of_link_loop named link (Bool.and_false _)] at walked
    cases walked
  | case9 here name names named next target link further links p ih =>
    rw [walk_of_link named link links (Bool.and_false _)] at walked
    rw [visits_of_link named link links (Bool.and_false _)] at onWay
    by_cases same : next = place
    · exact blocked named same
    · rw [List.cons_append, walk_of_link named ((kept same).trans link) links (by simp [more]),
        ← List.append_assoc]
      exact ih walked ((List.mem_cons.1 onWay).resolve_left (Ne.symm same))

end Visits

/-- A file in place of a file is no difference to paths. -/
lemma alike_put_file {t : FileTree} {place : Location} {old : Bytes}
    (stands : t.node? place = some (.file old)) (below : place ≠ []) (new : Bytes) (loc : Location) :
    Node.Alike (t.node? loc) ((t.put place (.file new)).node? loc) := by
  rw [node?_put below]
  split
  · rename_i same
    rw [same, stands]
    exact .files old new
  · exact .same _

lemma locate_put_file {t : FileTree} {place : Location} {old : Bytes}
    (stands : t.node? place = some (.file old)) (below : place ≠ []) (new : Bytes) (follow : Bool)
    (p : Path) : (t.put place (.file new)).locate follow p = t.locate follow p :=
  walk_congr fun loc _ => alike_put_file stands below new loc

end FileTree

end Phrasebook
