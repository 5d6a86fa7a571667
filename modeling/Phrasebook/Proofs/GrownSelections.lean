import Mathlib.Data.List.Forall2
import Phrasebook.Proofs.Selections

/-!
# Selections in trees that have grown

A tree grows when a file is written: folders come, and the file. Whatever a pattern selected it still
selects (`found_grown`). It selects something else only if it goes into a new folder and up again, so that
an old file is met on a new way. `matchingFiles_grown` says this of the files of a pattern without those at
the output.
-/

namespace Phrasebook

open Files

namespace FileTree

variable {t u : FileTree} {loc place : Location} {n : Node} {name : Text}

/-! ## Names in a tree that has grown -/

/-- The name of a place in a folder. -/
def nameIn? (loc place : Location) : Option Text :=
  match place.getLast? with
  | some name => if place.dropLast = loc then some name else none
  | none => none

lemma nameIn?_eq_some_iff : nameIn? loc place = some name ↔ place = loc ++ [name] := by
  rw [nameIn?]
  constructor
  · intro found
    split at found
    · rename_i last ends
      split at found
      · rename_i front
        cases found
        obtain ⟨init, rfl⟩ := List.getLast?_eq_some_iff.1 ends
        rw [List.dropLast_concat] at front
        rw [front]
      · cases found
    · cases found
  · rintro rfl
    simp

lemma names_eq_filterMap (t : FileTree) (loc : Location) :
    t.names loc = (t.nodes.map Prod.fst).filterMap (nameIn? loc) := by
  rw [names, children, List.map_filterMap, List.filterMap_map]
  refine List.filterMap_congr fun e _ => ?_
  rw [Function.comp_apply, nameIn?]
  cases e.1.getLast? with
  | none => rfl
  | some name =>
    dsimp only
    split
    · rfl
    · rfl

lemma names_put (t : FileTree) (place : Location) (n : Node) (loc : Location) :
    (t.put place n).names loc =
      t.names loc ++ if (t.nodes.lookup place).isSome then [] else (nameIn? loc place).toList := by
  rw [names_eq_filterMap, names_eq_filterMap, put]
  dsimp only
  split
  · have same : (t.nodes.map fun e => if e.1 = place then (place, n) else e).map Prod.fst =
        t.nodes.map Prod.fst := by
      rw [List.map_map]
      refine List.map_congr_left fun e _ => ?_
      by_cases here : e.1 = place
      · simp [here]
      · simp [here]
    rw [same, List.append_nil]
  · rw [List.map_append, List.filterMap_append]
    rfl

lemma Grown.absent (grown : Grown place t u) (linkless : t.Linkless) (absent : u.node? loc = none) :
    t.node? loc = none := by
  cases stands : t.node? loc with
  | none => rfl
  | some n =>
    cases n with
    | folder => cases absent.symm.trans (grown.folder_kept stands)
    | file bytes =>
      obtain ⟨b, kept, -⟩ := grown.file_kept stands
      cases absent.symm.trans kept
    | link target => exact absurd stands (linkless.node?_ne_link _ _)

/-- A place where nothing stood gives a folder no name that was there. -/
lemma filter_nameIn? (absent : t.node? place = none) (loc : Location) :
    (nameIn? loc place).toList.filter (fun name => (t.node? (loc ++ [name])).isSome) = [] := by
  refine List.filter_eq_nil_iff.2 fun name mem => ?_
  rw [← nameIn?_eq_some_iff.1 (Option.mem_toList.1 mem), absent]
  exact Bool.false_ne_true

/-- The names that were in a folder before a tree grew are still there, in the same order. -/
lemma Grown.filter_names (grown : Grown place t u) (linkless : t.Linkless) (loc : Location) :
    (u.names loc).filter (fun name => (t.node? (loc ++ [name])).isSome) = t.names loc := by
  induction grown with
  | refl =>
    refine List.filter_eq_self.2 fun name mem => ?_
    obtain ⟨n, stands⟩ := (mem_names linkless.toSound).1 mem
    rw [stands]
    rfl
  | folder before absent _ ih =>
    rw [names_put, List.filter_append, ih]
    split
    · exact List.append_nil _
    · rw [filter_nameIn? (before.absent linkless absent), List.append_nil]
  | @file u bytes before _ below _ ih =>
    rw [names_put, List.filter_append, ih]
    split
    · exact List.append_nil _
    · rename_i free
      have absent : u.node? place = none := by
        rw [node?, if_neg (by simpa using below)]
        exact Option.not_isSome_iff_eq_none.1 free
      rw [filter_nameIn? (before.absent linkless absent), List.append_nil]

/-- A place where something stood holds a folder if it held one. -/
lemma Grown.folder_iff (grown : Grown place t u) (linkless : t.Linkless) (stands : t.node? loc = some n) :
    u.node? loc = some .folder ↔ t.node? loc = some .folder := by
  refine ⟨fun folder => ?_, grown.folder_kept⟩
  cases n with
  | folder => exact stands
  | file bytes =>
    obtain ⟨b, kept, -⟩ := grown.file_kept stands
    cases folder.symm.trans kept
  | link target => exact absurd stands (linkless.node?_ne_link _ _)

lemma Sound.absent_below (sound : t.Sound) (absent : t.node? loc = none) (names : List Text) :
    t.node? (loc ++ names) = none := by
  by_cases here : names = []
  · rwa [here, List.append_nil]
  · cases stands : t.node? (loc ++ names) with
    | none => rfl
    | some n => cases absent.symm.trans (node?_above sound here stands)

lemma flatMap_filter {α β : Type} {keep : α → Bool} {f : α → List β} {xs : List α}
    (idle : ∀ x ∈ xs, keep x = false → f x = []) : (xs.filter keep).flatMap f = xs.flatMap f := by
  induction xs with
  | nil => rfl
  | cons x xs ih =>
    have rest := ih fun y mem => idle y (List.mem_cons_of_mem _ mem)
    rw [List.filter_cons, List.flatMap_cons]
    split
    · rw [List.flatMap_cons, rest]
    · rename_i out
      rw [rest, idle x List.mem_cons_self (by simpa using out), List.nil_append]

/-- A list built from the names in a folder stays the same while a tree grows, if old names give what they
gave and new ones give nothing. -/
lemma Grown.flatMap_names {β : Type} (grown : Grown place t u) (linkless : t.Linkless)
    {f g : Text → List β}
    (old : ∀ name n, t.node? (loc ++ [name]) = some n → f name = g name)
    (new : ∀ name n, u.node? (loc ++ [name]) = some n → t.node? (loc ++ [name]) = none → f name = []) :
    (u.names loc).flatMap f = (t.names loc).flatMap g := by
  have sound := (grown.linkless linkless).toSound
  have cut : ((u.names loc).filter fun name => (t.node? (loc ++ [name])).isSome).flatMap f =
      (u.names loc).flatMap f := by
    refine flatMap_filter fun name mem out => ?_
    obtain ⟨n, stands⟩ := (mem_names sound).1 mem
    exact new name n stands (by simpa using out)
  rw [← cut, grown.filter_names linkless]
  refine List.flatMap_congr fun name mem => ?_
  obtain ⟨n, stands⟩ := (mem_names linkless.toSound).1 mem
  exact old name n stands

lemma Grown.length_le (grown : Grown place t u) : t.nodes.length ≤ u.nodes.length := by
  have longer (v : FileTree) (loc : Location) (n : Node) :
      v.nodes.length ≤ (v.put loc n).nodes.length := by
    rw [put]
    dsimp only
    split
    · exact Nat.le_of_eq (List.length_map _).symm
    · rw [List.length_append]
      exact Nat.le_add_right _ _
  induction grown with
  | refl => exact Nat.le_refl _
  | folder _ _ _ ih => exact Nat.le_trans ih (longer ..)
  | file _ _ _ _ ih => exact Nat.le_trans ih (longer ..)

end FileTree

namespace Files

variable {t u : FileTree} {loc place : Location} {n : Node} {name pattern : Text} {here p q : Path}
  {foldersOnly : Bool} {step : Selector} {steps rest : List Selector}

/-! ## What is still selected -/

lemma holds_grown (grown : t.Grown place u) (linkless : t.Linkless) (stands : t.node? loc = some n)
    (folders : Bool) : holds u folders loc = holds t folders loc := by
  cases folders with
  | true => rw [Bool.eq_iff_iff, holds_true_iff, holds_true_iff, grown.folder_iff linkless stands]
  | false =>
    have kept : ∃ n, u.node? loc = some n := by
      cases there : u.node? loc with
      | none => cases stands.symm.trans (grown.absent linkless there)
      | some n => exact ⟨n, rfl⟩
    rw [Bool.eq_iff_iff, holds_false_iff, holds_false_iff]
    exact iff_of_true kept ⟨n, stands⟩

lemma Stands.grown (stands : Stands t foldersOnly steps here loc) (linkless : t.Linkless)
    (grown : t.Grown place u) : Stands u foldersOnly steps here loc := by
  obtain ⟨n, there⟩ := exists_of_holds stands.holds
  refine ⟨grown.locate linkless stands.located, ?_⟩
  rw [holds_grown grown linkless there]
  exact stands.holds

lemma foldersBelow_grown (linkless : t.Linkless) (grown : t.Grown place u)
    (mem : q ∈ foldersBelow t t.nodes.length loc here) : q ∈ foldersBelow u u.nodes.length loc here := by
  have linkless' := grown.linkless linkless
  rw [← foldersBelow_of_le linkless.toSound grown.length_le] at mem
  generalize u.nodes.length = d at mem ⊢
  induction d generalizing loc here with
  | zero => exact mem
  | succ d ih =>
    rw [foldersBelow_succ linkless.toSound] at mem
    rw [foldersBelow_succ linkless'.toSound]
    rcases List.mem_cons.1 mem with rfl | mem
    · exact List.mem_cons_self
    · obtain ⟨name, -, mem⟩ := List.mem_flatMap.1 mem
      split at mem
      · rename_i inner
        have still := grown.folder_kept inner
        refine List.mem_cons_of_mem _ (List.mem_flatMap.2
          ⟨name, (FileTree.mem_names linkless'.toSound).2 ⟨_, still⟩, ?_⟩)
        rw [if_pos still]
        exact ih mem
      · cases mem

/-- What was selected is still selected. -/
lemma found_grown (linkless : t.Linkless) (grown : t.Grown place u)
    (stands : Stands t foldersOnly steps here loc) (mem : p ∈ found t foldersOnly steps here) :
    p ∈ found u foldersOnly steps here := by
  have linkless' := grown.linkless linkless
  induction steps generalizing here loc with
  | nil => exact mem
  | cons step rest ih =>
    obtain ⟨q, l, leads, next, mem⟩ := (mem_found_cons linkless stands).1 mem
    refine (mem_found_cons linkless' (stands.grown linkless grown)).2
      ⟨q, l, ?_, next.grown linkless grown, ih next mem⟩
    cases step with
    | named name => exact leads
    | matching pattern => exact leads
    | anyDepth => exact ⟨foldersBelow_grown linkless grown leads.1, leads.2⟩

/-! ## What is not selected anew -/

lemma kept_grown (grown : t.Grown place u) (linkless : t.Linkless)
    (located : t.locate true p = .ok loc) : kept u place p = kept t place p := by
  rw [Bool.eq_iff_iff, kept_iff linkless located,
    kept_iff (grown.linkless linkless) (grown.locate linkless located)]
  refine and_congr_left fun other => ⟨?_, ?_⟩
  · rintro ⟨bytes, there⟩
    obtain ⟨-, -, n, stands⟩ := linkless.of_locate located
    cases n with
    | file b => exact ⟨b, stands⟩
    | folder => cases there.symm.trans (grown.folder_kept stands)
    | link target => exact absurd stands (linkless.node?_ne_link _ _)
  · rintro ⟨bytes, there⟩
    obtain ⟨b, still, -⟩ := grown.file_kept there
    exact ⟨b, still⟩

/-- No step of the pattern goes up, or no folder is new. -/
def IsCalm (t u : FileTree) (steps : List Selector) : Prop :=
  .named "..".toList ∉ steps ∨ ∀ loc, u.node? loc = some .folder → t.node? loc = some .folder

/-- At a new place nothing is selected. -/
lemma filter_found_new (linkless : t.Linkless) (grown : t.Grown place u) (calm : IsCalm t u steps)
    (stands : Stands u foldersOnly steps here loc) (absent : t.node? loc = none) :
    (found u foldersOnly steps here).filter (kept u place) = [] := by
  have linkless' := grown.linkless linkless
  refine List.filter_eq_nil_iff.2 fun p mem file => ?_
  have plain : .named "..".toList ∉ steps := by
    rcases calm with plain | same
    · exact plain
    · cases steps with
      | nil => exact List.not_mem_nil
      | cons step rest => cases absent.symm.trans (same _ stands.folder)
  obtain ⟨⟨l, located, down⟩, -⟩ := of_mem_found linkless' stands mem
  obtain ⟨names, rfl⟩ := down plain
  obtain ⟨⟨bytes, there⟩, other⟩ := (kept_iff linkless' located).1 file
  rcases grown.new (linkless.toSound.absent_below absent names) there with folder | same
  · cases folder
  · exact other same

/-- From a folder that was there, a name leads to what it led to. -/
lemma filter_enter (linkless : t.Linkless) (grown : t.Grown place u) (calm : IsCalm t u rest)
    (stands : Stands t foldersOnly (step :: rest) here loc) (name : Text)
    (goesOn : ∀ q l, Stands t foldersOnly rest q l →
      (found u foldersOnly rest q).filter (kept u place) =
        (found t foldersOnly rest q).filter (kept t place)) :
    (if holds u (foldersOnly || !rest.isEmpty) (below loc name) then
        found u foldersOnly rest (here.child name) else []).filter (kept u place) =
      (if holds t (foldersOnly || !rest.isEmpty) (below loc name) then
        found t foldersOnly rest (here.child name) else []).filter (kept t place) := by
  cases there : t.node? (below loc name) with
  | some n =>
    rw [holds_grown grown linkless there]
    split
    · rename_i held
      refine goesOn _ _ ⟨?_, held⟩
      rw [locate_below linkless stands.located stands.folder, there]
      rfl
    · rfl
  | none =>
    have nothing : holds t (foldersOnly || !rest.isEmpty) (below loc name) = false := by
      rw [holds, there]
    rw [nothing, if_neg Bool.false_ne_true, List.filter_nil]
    split
    · rename_i held
      refine filter_found_new linkless grown calm ⟨?_, held⟩ there
      have stands' := stands.grown linkless grown
      obtain ⟨n, there⟩ := exists_of_holds held
      rw [locate_below (grown.linkless linkless) stands'.located stands'.folder, there]
      rfl
    · rfl

/-- What is selected in the folders below a folder stays the same while a tree grows, if old folders give
what they gave and new ones give nothing. -/
lemma flatMap_foldersBelow (linkless : t.Linkless) (grown : t.Grown place u)
    (located : t.locate true here = .ok loc) (folder : t.node? loc = some .folder)
    {f g : Path → List Path}
    (old : ∀ q l, t.locate true q = .ok l → t.node? l = some .folder → f q = g q)
    (new : ∀ q l, u.locate true q = .ok l → u.node? l = some .folder → t.node? l = none → f q = [])
    (d : Nat) :
    (foldersBelow u d loc here).flatMap f = (foldersBelow t d loc here).flatMap g := by
  have linkless' := grown.linkless linkless
  induction d generalizing loc here with
  | zero =>
    rw [foldersBelow, foldersBelow, List.flatMap_singleton, List.flatMap_singleton,
      old here loc located folder]
  | succ d ih =>
    rw [foldersBelow_succ linkless.toSound, foldersBelow_succ linkless'.toSound, List.flatMap_cons,
      List.flatMap_cons, old here loc located folder, List.flatMap_assoc, List.flatMap_assoc]
    refine congrArg _ (grown.flatMap_names linkless ?_ ?_)
    · intro name n stands
      by_cases inner : t.node? (loc ++ [name]) = some .folder
      · rw [if_pos inner, if_pos (grown.folder_kept inner)]
        exact ih (linkless.locate_of_child located folder inner) inner
      · rw [if_neg inner, if_neg (mt (grown.folder_iff linkless stands).1 inner)]
        rfl
    · intro name n stands absent
      refine List.flatMap_eq_nil_iff.2 fun q mem => ?_
      split at mem
      · rename_i inner
        have above := grown.locate linkless located
        have here' := linkless'.locate_of_child above (grown.folder_kept folder) inner
        obtain ⟨names, found, stands⟩ := locate_of_mem_foldersBelow linkless' here' inner mem
        exact new q _ found stands (linkless.toSound.absent_below absent names)
      · cases mem

lemma filter_distinct (keep : Path → Bool) (ps : List Path) :
    (distinct ps).filter keep = distinct (ps.filter keep) := by
  have run : ∀ seen : List Path,
      (ps.foldl (fun seen p => if seen.contains p then seen else seen ++ [p]) seen).filter keep =
        (ps.filter keep).foldl (fun seen p => if seen.contains p then seen else seen ++ [p])
          (seen.filter keep) := by
    induction ps with
    | nil => exact fun seen => rfl
    | cons q ps ih =>
      intro seen
      rw [List.foldl_cons, ih, List.filter_cons]
      by_cases kept : keep q = true
      · have same : (seen.filter keep).contains q = seen.contains q := by
          rw [Bool.eq_iff_iff, List.contains_iff_mem, List.contains_iff_mem, List.mem_filter]
          simp [kept]
        rw [if_pos kept, List.foldl_cons, same]
        split
        · rfl
        · rw [List.filter_append, List.filter_cons, if_pos kept]
          rfl
      · rw [if_neg kept]
        split
        · rfl
        · rw [List.filter_append, List.filter_cons, if_neg kept, List.filter_nil, List.append_nil]
  exact run []

/-- Nothing else is selected than before, if the pattern is calm. -/
lemma filter_found_calm (linkless : t.Linkless) (grown : t.Grown place u) (calm : IsCalm t u steps)
    (stands : Stands t foldersOnly steps here loc) :
    (found u foldersOnly steps here).filter (kept u place) =
      (found t foldersOnly steps here).filter (kept t place) := by
  have linkless' := grown.linkless linkless
  induction steps generalizing here loc with
  | nil =>
    rw [found, found, List.filter_singleton, List.filter_singleton,
      kept_grown grown linkless stands.located]
  | cons step rest ih =>
    have located := stands.located
    have folder := stands.folder
    have located' := grown.locate linkless located
    have folder' := grown.folder_kept folder
    have calm' : IsCalm t u rest := calm.imp_left fun plain up => plain (List.mem_cons_of_mem _ up)
    have enters (name : Text) :=
      filter_enter linkless grown calm' stands name fun q l next => ih calm' next
    cases step with
    | named name =>
      rw [found_named linkless located folder, found_named linkless' located' folder', enters]
    | matching pattern =>
      rw [found_matching linkless located folder, found_matching linkless' located' folder',
        List.filter_flatMap, List.filter_flatMap]
      refine grown.flatMap_names linkless ?_ ?_
      · intro name n there
        have place : below loc name = loc ++ [name] := if_neg (linkless.name_ne_dots there)
        cases Wildcard.isMatch pattern name with
        | false => rfl
        | true => rw [← place, Bool.true_and, Bool.true_and, enters]
      · intro name n there absent
        have place : below loc name = loc ++ [name] := if_neg (linkless'.name_ne_dots there)
        cases Wildcard.isMatch pattern name with
        | false => rfl
        | true =>
          rw [← place, Bool.true_and, enters, place, holds, absent]
          rfl
    | anyDepth =>
      rw [found, found, located, located']
      dsimp only
      rw [filter_distinct, filter_distinct, List.filter_flatMap, List.filter_flatMap,
        ← foldersBelow_of_le linkless.toSound grown.length_le]
      refine congrArg distinct (flatMap_foldersBelow linkless grown located folder ?_ ?_ _)
      · exact fun q l there inner => ih calm' ⟨there, holds_of_folder inner _⟩
      · exact fun q l there inner absent =>
          filter_found_new linkless grown calm' ⟨there, holds_of_folder inner _⟩ absent

/-! ## Patterns that go up -/

/-- Whether a pattern goes up behind a name with wildcards. -/
def climbs (pattern : Text) : Bool :=
  ((Path.ofText pattern).parts.dropWhile fun name => !Wildcard.isWild name).contains "..".toList

/-- Whether a step of a pattern is a name. -/
def Selector.isNamed : Selector → Bool
  | .named _ => true
  | _ => false

/-- The step of a name is the name, or the name has wildcards. -/
lemma Selector.of_ofName (made : Selector.ofName name = .ok step) :
    step = .named name ∧ Wildcard.isWild name = false ∨
      step.isNamed = false ∧ Wildcard.isWild name = true := by
  rw [Selector.ofName] at made
  split at made
  · rename_i stars
    cases made
    rw [stars]
    exact .inr ⟨rfl, by decide⟩
  · split at made
    · cases made
    · split at made
      · rename_i wild
        cases made
        exact .inr ⟨rfl, wild⟩
      · rename_i plain
        cases made
        exact .inl ⟨rfl, by simpa using plain⟩

lemma forall₂_of_mapM {α β ε : Type} {f : α → Except ε β} {xs : List α} {ys : List β}
    (ran : xs.mapM f = .ok ys) : List.Forall₂ (fun x y => f x = .ok y) xs ys := by
  induction xs generalizing ys with
  | nil =>
    cases ran
    exact .nil
  | cons x xs ih =>
    rw [List.mapM_cons] at ran
    cases first : f x with
    | error e =>
      rw [first] at ran
      cases ran
    | ok y =>
      rw [first] at ran
      cases more : xs.mapM f with
      | error e =>
        rw [more] at ran
        cases ran
      | ok rest =>
        rw [more] at ran
        cases ran
        exact .cons first (ih more)

lemma mem_of_forall₂_ofName {names : List Text}
    (made : List.Forall₂ (fun name step => Selector.ofName name = .ok step) names steps)
    (mem : .named name ∈ steps) : name ∈ names := by
  induction made with
  | nil => cases mem
  | cons first _ ih =>
    rcases List.mem_cons.1 mem with rfl | mem
    · rcases Selector.of_ofName first with ⟨same, -⟩ | ⟨other, -⟩
      · cases same
        exact List.mem_cons_self
      · cases other
    · exact List.mem_cons_of_mem _ (ih mem)

lemma forall₂_of_selectors {pattern : Text} (read : selectors pattern = .ok (steps, foldersOnly)) :
    List.Forall₂ (fun name step => Selector.ofName name = .ok step) (Path.ofText pattern).parts steps := by
  unfold selectors at read
  split at read
  · cases read
  · dsimp only at read
    split at read
    · cases read
    · split at read
      · cases read
      · split at read
        · cases read
        · rename_i made
          cases read
          exact forall₂_of_mapM made

lemma climbs_of_mem {pattern : Text} (read : selectors pattern = .ok (steps, foldersOnly))
    (mem : .named "..".toList ∈ steps.dropWhile Selector.isNamed) : climbs pattern = true := by
  have made := forall₂_of_selectors read
  rw [climbs, List.contains_iff_mem]
  generalize (Path.ofText pattern).parts = names at made ⊢
  clear read
  induction made with
  | nil => cases mem
  | @cons name step names steps first rest ih =>
    rcases Selector.of_ofName first with ⟨rfl, plain⟩ | ⟨other, wild⟩
    · rw [List.dropWhile_cons_of_pos (by rw [plain]; rfl)]
      exact ih mem
    · rw [List.dropWhile_cons_of_neg (by rw [other]; exact Bool.false_ne_true)] at mem
      rw [List.dropWhile_cons_of_neg (by rw [wild]; exact Bool.false_ne_true)]
      exact mem_of_forall₂_ofName (.cons first rest) mem

/-- Nothing else is selected than before, if the pattern does not go up behind a name with wildcards or
if no folder is new. -/
lemma filter_found_steady (linkless : t.Linkless) (grown : t.Grown place u)
    (calm : IsCalm t u (steps.dropWhile Selector.isNamed))
    (stands : Stands t foldersOnly steps here loc) (nonempty : found t foldersOnly steps here ≠ []) :
    (found u foldersOnly steps here).filter (kept u place) =
      (found t foldersOnly steps here).filter (kept t place) := by
  induction steps generalizing here loc with
  | nil => exact filter_found_calm linkless grown calm stands
  | cons step rest ih =>
    cases step with
    | named name =>
      have located := stands.located
      have folder := stands.folder
      have linkless' := grown.linkless linkless
      rw [found_named linkless located folder] at nonempty ⊢
      rw [found_named linkless' (grown.locate linkless located) (grown.folder_kept folder)]
      by_cases held : holds t (foldersOnly || !rest.isEmpty) (below loc name) = true
      · obtain ⟨n, there⟩ := exists_of_holds held
        rw [if_pos held] at nonempty ⊢
        rw [holds_grown grown linkless there, if_pos held]
        refine ih calm ⟨?_, held⟩ nonempty
        rw [locate_below linkless located folder, there]
        rfl
      · rw [if_neg held] at nonempty
        exact absurd rfl nonempty
    | matching pattern => exact filter_found_calm linkless grown calm stands
    | anyDepth => exact filter_found_calm linkless grown calm stands

/-- Once a file was written to the output, or folders for it were made, the pattern still selects files;
it selects the same ones if it does not go up behind a name with wildcards or if no folder is new. -/
theorem matchingFiles_grown (linkless : t.Linkless) {pattern : Text} {output file : Path}
    {files : List Path} (grown : t.Grown (t.placeOf output) u)
    (selected : matchingFiles t here pattern [output] = .ok (file :: files)) :
    (∃ file' files', matchingFiles u here pattern [output] = .ok (file' :: files')) ∧
      ((climbs pattern = false ∨ ∀ loc, u.node? loc = some .folder → t.node? loc = some .folder) →
        matchingFiles u here pattern [output] = .ok (file :: files)) := by
  obtain ⟨steps, foldersOnly, loc, read, stands, folder, mem⟩ := matchingFiles_cons linkless selected
  obtain ⟨among, isKept⟩ := List.mem_filter.1 mem
  obtain ⟨⟨l, located, -⟩, short⟩ := of_mem_found linkless stands among
  have again := matchingFiles_eq (grown.linkless linkless) read (stands.grown linkless grown)
    (grown.folder_kept folder) short output
  rw [grown.placeOf] at again
  rw [again]
  refine ⟨?_, fun calm => ?_⟩
  · have still : file ∈ ((found u foldersOnly steps here).filter (kept u (t.placeOf output))).mergeSort
        Path.le := by
      rw [List.mem_mergeSort, List.mem_filter, kept_grown grown linkless located]
      exact ⟨found_grown linkless grown stands among, isKept⟩
    obtain ⟨file', files', sorted⟩ := List.exists_cons_of_ne_nil (List.ne_nil_of_mem still)
    exact ⟨file', files', congrArg _ sorted⟩
  · have calm : IsCalm t u (steps.dropWhile Selector.isNamed) := by
      refine calm.imp_left fun level up => ?_
      cases level.symm.trans (climbs_of_mem read up)
    rw [filter_found_steady linkless grown calm stands (List.ne_nil_of_mem among), ← selected]
    exact (matchingFiles_eq linkless read stands folder short output).symm

end Files

end Phrasebook
