import Mathlib.Data.List.Perm.Subperm
import Phrasebook.Files.Glob
import Phrasebook.Proofs.LinklessTrees

/-!
# What a pattern selects

In a tree without links a selection can only fail over a name that is too long. Where it does not, it is a
list of paths: `found` gives it, step by step. `mem_found_cons` says what one step of a pattern selects, and
`of_mem_found` what holds of everything that a pattern selects. `matchingFiles_eq` gives the files of a
pattern without those at an output; `matchingFiles_cons` says when there are any.
-/

namespace Phrasebook

open Files

namespace FileTree

variable {t : FileTree} {loc : Location} {n : Node} {name : Text}

/-! ## The names in a folder -/

/-- The names in a folder. -/
def names (t : FileTree) (loc : Location) : List Text :=
  (t.children loc).map Prod.fst

lemma mem_names (sound : t.Sound) : name ∈ t.names loc ↔ ∃ n, t.node? (loc ++ [name]) = some n := by
  constructor
  · intro mem
    obtain ⟨b, among, rfl⟩ := List.mem_map.1 mem
    exact ⟨b.2, (mem_children sound).1 among⟩
  · rintro ⟨n, stands⟩
    exact List.mem_map.2 ⟨(name, n), (mem_children sound).2 stands, rfl⟩

/-- A tree has as many nodes as a place in it has names, at least. -/
lemma Sound.length_le (sound : t.Sound) (stands : t.node? loc = some n) :
    loc.length ≤ t.nodes.length := by
  have inside : ((List.range loc.length).map fun k => loc.take (k + 1)) ⊆ t.nodes.map Prod.fst := by
    intro front mem
    obtain ⟨k, short, rfl⟩ := List.mem_map.1 mem
    rw [List.mem_range] at short
    have filled : loc.take (k + 1) ≠ [] := List.ne_nil_of_length_pos (by rw [List.length_take]; omega)
    obtain ⟨m, there⟩ : ∃ m, t.node? (loc.take (k + 1)) = some m := by
      by_cases whole : loc.drop (k + 1) = []
      · rw [List.take_of_length_le (List.drop_eq_nil_iff.1 whole)]
        exact ⟨n, stands⟩
      · rw [← List.take_append_drop (k + 1) loc] at stands
        exact ⟨_, node?_above sound whole stands⟩
    exact List.mem_map.2 ⟨_, mem_nodes_of_node? sound filled there, rfl⟩
  have distinct : ((List.range loc.length).map fun k => loc.take (k + 1)).Nodup := by
    refine List.Nodup.map_on ?_ List.nodup_range
    intro i short j short' same
    have size := congrArg List.length same
    rw [List.mem_range] at short short'
    simp only [List.length_take] at size
    omega
  have fits := (List.subperm_of_subset distinct inside).length_le
  rwa [List.length_map, List.length_range, List.length_map] at fits

end FileTree

namespace Files

variable {t : FileTree} {loc place : Location} {n : Node} {name : Text} {here p q : Path} {d : Nat}
  {foldersOnly : Bool} {step : Selector} {steps rest : List Selector}

/-! ## The folders below a folder -/

lemma foldersBelow_succ (sound : t.Sound) (d : Nat) (loc : Location) (here : Path) :
    foldersBelow t (d + 1) loc here = here :: (t.names loc).flatMap fun name =>
      if t.node? (loc ++ [name]) = some .folder then foldersBelow t d (loc ++ [name]) (here.child name)
      else [] := by
  rw [foldersBelow, FileTree.names, List.flatMap_map]
  refine congrArg _ (List.flatMap_congr fun b mem => ?_)
  obtain ⟨name, node⟩ := b
  have stands := (FileTree.mem_children sound).1 mem
  dsimp only at stands ⊢
  rw [stands]
  cases node with
  | folder => rw [if_pos rfl]
  | file bytes => rw [if_neg (by simp)]
  | link target => rw [if_neg (by simp)]

/-- Beyond the depth of the tree there are no folders. -/
lemma foldersBelow_deep (sound : t.Sound) (deep : t.nodes.length ≤ loc.length + d) (here : Path) :
    foldersBelow t (d + 1) loc here = foldersBelow t d loc here := by
  induction d generalizing loc here with
  | zero =>
    rw [foldersBelow_succ sound, foldersBelow]
    refine congrArg _ (List.flatMap_eq_nil_iff.2 fun name _ => if_neg fun stands => ?_)
    have fits := sound.length_le stands
    rw [List.length_append, List.length_singleton] at fits
    omega
  | succ d ih =>
    rw [foldersBelow_succ sound, foldersBelow_succ sound]
    refine congrArg _ (List.flatMap_congr fun name _ => ?_)
    rw [ih (by rw [List.length_append, List.length_singleton]; omega)]

lemma foldersBelow_of_le (sound : t.Sound) (deep : t.nodes.length ≤ d) (loc : Location) (here : Path) :
    foldersBelow t d loc here = foldersBelow t t.nodes.length loc here := by
  induction deep with
  | refl => rfl
  | @step d deep ih =>
    have deep : t.nodes.length ≤ d := deep
    rw [foldersBelow_deep sound (by omega), ih]

/-- The folders below a folder are there. -/
lemma locate_of_mem_foldersBelow (linkless : t.Linkless) (located : t.locate true here = .ok loc)
    (folder : t.node? loc = some .folder) (mem : q ∈ foldersBelow t d loc here) :
    ∃ names, t.locate true q = .ok (loc ++ names) ∧ t.node? (loc ++ names) = some .folder := by
  induction d generalizing loc here with
  | zero =>
    obtain rfl := List.mem_singleton.1 mem
    exact ⟨[], by rwa [List.append_nil], by rwa [List.append_nil]⟩
  | succ d ih =>
    rw [foldersBelow_succ linkless.toSound] at mem
    rcases List.mem_cons.1 mem with rfl | below
    · exact ⟨[], by rwa [List.append_nil], by rwa [List.append_nil]⟩
    · obtain ⟨name, -, below⟩ := List.mem_flatMap.1 below
      split at below
      · rename_i inner
        obtain ⟨names, found, stands⟩ := ih (linkless.locate_of_child located folder inner) inner below
        rw [← List.append_cons] at found stands
        exact ⟨_, found, stands⟩
      · cases below

lemma short_of_mem_foldersBelow (linkless : t.Linkless) (short : ∀ name ∈ here.parts, isTooLong name = false)
    (mem : q ∈ foldersBelow t d loc here) : ∀ name ∈ q.parts, isTooLong name = false := by
  induction d generalizing loc here with
  | zero =>
    obtain rfl := List.mem_singleton.1 mem
    exact short
  | succ d ih =>
    rw [foldersBelow_succ linkless.toSound] at mem
    rcases List.mem_cons.1 mem with rfl | below
    · exact short
    · obtain ⟨name, -, below⟩ := List.mem_flatMap.1 below
      split at below
      · rename_i inner
        refine ih (fun name' mem => ?_) below
        rcases List.mem_append.1 mem with mem | mem
        · exact short name' mem
        · rw [List.mem_singleton.1 mem]
          exact linkless.short_of_stands inner
      · cases below

/-! ## Selections as lists -/

/-- The paths that the steps of a pattern select below a folder, where all paths can be looked up. -/
def found (t : FileTree) (foldersOnly : Bool) : List Selector → Path → List Path
  | [], here => [here]
  | .named name :: rest, here =>
    let p := here.child name
    if if foldersOnly || !rest.isEmpty then t.isFolder p else t.exists? p then found t foldersOnly rest p
    else []
  | .matching pattern :: rest, here =>
    match t.locate true here with
    | .error _ => []
    | .ok loc =>
      (t.names loc).flatMap fun name =>
        let p := here.child name
        if Wildcard.isMatch pattern name && (!(foldersOnly || !rest.isEmpty) || t.isFolder p) then
          found t foldersOnly rest p
        else []
  | .anyDepth :: rest, here =>
    match t.locate true here with
    | .error _ => []
    | .ok loc => distinct ((foldersBelow t t.nodes.length loc here).flatMap (found t foldersOnly rest))

/-- A traversal of which every step succeeds or has a certain excuse does so itself. -/
lemma mapM_cases {α β ε : Type} {f : α → Except ε β} {g : α → β} {xs : List α} {Q : Prop}
    (each : ∀ x ∈ xs, f x = .ok (g x) ∨ (∃ e, f x = .error e) ∧ Q) :
    xs.mapM f = .ok (xs.map g) ∨ (∃ e, xs.mapM f = .error e) ∧ Q := by
  induction xs with
  | nil => exact .inl rfl
  | cons x xs ih =>
    rw [List.mapM_cons]
    rcases each x List.mem_cons_self with first | ⟨⟨e, failed⟩, excuse⟩
    · rw [first]
      rcases ih fun y mem => each y (List.mem_cons_of_mem _ mem) with rest | ⟨⟨e, failed⟩, excuse⟩
      · rw [rest]
        exact .inl rfl
      · rw [failed]
        exact .inr ⟨⟨e, rfl⟩, excuse⟩
    · rw [failed]
      exact .inr ⟨⟨e, rfl⟩, excuse⟩

lemma mapM_bind_cases {α β γ ε : Type} {f : α → Except ε β} {g : α → β} {xs : List α} {Q : Prop}
    {k : List β → γ} (each : ∀ x ∈ xs, f x = .ok (g x) ∨ (∃ e, f x = .error e) ∧ Q) :
    (do return k (← xs.mapM f)) = Except.ok (k (xs.map g)) ∨
      (∃ e, (do return k (← xs.mapM f)) = Except.error e) ∧ Q := by
  rcases mapM_cases each with ran | ⟨⟨e, failed⟩, excuse⟩
  · rw [ran]
    exact .inl rfl
  · rw [failed]
    exact .inr ⟨⟨e, rfl⟩, excuse⟩

/-- No name on the way is too long, neither in a path nor among the names of a pattern. -/
def IsShort (steps : List Selector) (here : Path) : Prop :=
  (∀ name, .named name ∈ steps → isTooLong name = false) ∧ ∀ name ∈ here.parts, isTooLong name = false

lemma IsShort.child (short : IsShort (step :: rest) here) (fits : isTooLong name = false) :
    IsShort rest (here.child name) := by
  refine ⟨fun name mem => short.1 name (List.mem_cons_of_mem _ mem), fun name' mem => ?_⟩
  rcases List.mem_append.1 mem with mem | mem
  · exact short.2 name' mem
  · rwa [List.mem_singleton.1 mem]

lemma lookUp_cases (t : FileTree) (p : Path) :
    (∃ i, lookUp t p = .error i ∧ t.incident? p = some i) ∨ lookUp t p = .ok () := by
  rw [lookUp]
  cases t.incident? p with
  | none => exact .inr rfl
  | some i => exact .inl ⟨i, rfl, rfl⟩

/-- Without links, a path whose names are short can be looked up. -/
lemma incident?_eq_none (linkless : t.Linkless) (short : ∀ name ∈ p.parts, isTooLong name = false) :
    t.incident? p = none := by
  rw [FileTree.incident?, linkless.obstacle?_eq_none short, Option.map_none]

/-- Looking a path up and then going on from it, or not. -/
lemma enter_cases (linkless : t.Linkless) {enters : Bool} {Q : Prop} (fits : Q → IsShort rest p)
    (goesOn : select t foldersOnly rest p = .ok (found t foldersOnly rest p) ∨
      (∃ f, select t foldersOnly rest p = .error f) ∧ ¬IsShort rest p) :
    (do lookUp t p; if enters then select t foldersOnly rest p else return []) =
        .ok (if enters then found t foldersOnly rest p else []) ∨
      (∃ f, (do lookUp t p; if enters then select t foldersOnly rest p else return []) = .error f) ∧
        ¬Q := by
  rcases lookUp_cases t p with ⟨i, failed, obstacle⟩ | passed
  · rw [failed]
    refine .inr ⟨⟨i, rfl⟩, fun short => ?_⟩
    cases (incident?_eq_none linkless (fits short).2).symm.trans obstacle
  · rw [passed]
    cases enters with
    | false => exact .inl rfl
    | true => exact goesOn.imp_right fun failed => ⟨failed.1, fun short => failed.2 (fits short)⟩

/-- Without links, a selection gives these paths unless a name on the way is too long. -/
lemma select_cases (linkless : t.Linkless) (foldersOnly : Bool) (steps : List Selector) (here : Path) :
    select t foldersOnly steps here = .ok (found t foldersOnly steps here) ∨
      (∃ f, select t foldersOnly steps here = .error f) ∧ ¬IsShort steps here := by
  induction steps generalizing here with
  | nil => exact .inl rfl
  | cons step rest ih =>
    cases step with
    | named name =>
      rw [select, found]
      exact enter_cases linkless (fun short => short.child (short.1 name List.mem_cons_self)) (ih _)
    | matching pattern =>
      rw [select, found]
      cases t.locate true here with
      | error f => exact .inl rfl
      | ok loc =>
        dsimp only
        rw [FileTree.names, List.flatMap_map, List.flatMap_def]
        refine mapM_bind_cases fun b mem => ?_
        have fits (short : IsShort (.matching pattern :: rest) here) :
            IsShort rest (here.child b.1) :=
          short.child (linkless.short_of_stands ((FileTree.mem_children linkless.toSound).1 mem))
        by_cases looks : (foldersOnly || !rest.isEmpty) = true
        · rw [if_pos looks]
          exact enter_cases linkless fits (ih _)
        · -- The last step of a pattern for files does not look its names up.
          rw [if_neg looks]
          dsimp only [bind, Except.bind, pure, Except.pure]
          split
          · exact (ih _).imp_right fun failed => ⟨failed.1, fun short => failed.2 (fits short)⟩
          · exact .inl rfl
    | anyDepth =>
      rw [select, found]
      cases t.locate true here with
      | error f => exact .inl rfl
      | ok loc =>
        dsimp only
        rw [List.flatMap_def]
        refine mapM_bind_cases fun q mem => (ih q).imp_right fun failed => ⟨failed.1, fun short => ?_⟩
        refine failed.2 ⟨fun name mem => short.1 name (List.mem_cons_of_mem _ mem), ?_⟩
        exact short_of_mem_foldersBelow linkless short.2 mem

/-! ## What the paths of a selection lead to -/

/-- The place that a name leads to from a folder. -/
def below (loc : Location) (name : Text) : Location :=
  if name = "..".toList then loc.dropLast else loc ++ [name]

/-- Whether something stands at a place: a folder, if only folders are meant. -/
def holds (t : FileTree) (folders : Bool) (loc : Location) : Bool :=
  match t.node? loc with
  | none => false
  | some .folder => true
  | some _ => !folders

/-- A path leads to a place from which the steps of a pattern can go on. -/
structure Stands (t : FileTree) (foldersOnly : Bool) (steps : List Selector) (here : Path)
    (loc : Location) : Prop where
  located : t.locate true here = .ok loc
  holds : holds t (foldersOnly || !steps.isEmpty) loc = true

lemma holds_of_folder (folder : t.node? loc = some .folder) (folders : Bool) :
    holds t folders loc = true := by
  rw [holds, folder]

lemma holds_true_iff : holds t true loc = true ↔ t.node? loc = some .folder := by
  rw [holds]
  split
  · simp [*]
  · simp [*]
  · simp_all

lemma holds_false_iff : holds t false loc = true ↔ ∃ n, t.node? loc = some n := by
  rw [holds]
  split
  · simp [*]
  · simp [*]
  · simp [*]

lemma exists_of_holds {folders : Bool} (held : holds t folders loc = true) :
    ∃ n, t.node? loc = some n := by
  cases folders with
  | false => exact holds_false_iff.1 held
  | true => exact ⟨_, holds_true_iff.1 held⟩

lemma Stands.folder (stands : Stands t foldersOnly (step :: rest) here loc) :
    t.node? loc = some .folder := by
  have held := stands.holds
  rw [List.isEmpty_cons, Bool.not_false, Bool.or_true] at held
  exact holds_true_iff.1 held

lemma locate_below (linkless : t.Linkless) (located : t.locate true here = .ok loc)
    (folder : t.node? loc = some .folder) (name : Text) :
    t.locate true (here.child name) =
      if (t.node? (below loc name)).isSome then .ok (below loc name) else .error (absence name) := by
  rw [linkless.locate_child located folder, below]
  by_cases dots : name = "..".toList
  · rw [if_pos dots, if_pos dots, linkless.toSound.node?_dropLast folder]
    rfl
  · rw [if_neg dots, if_neg dots]

lemma stat_below (linkless : t.Linkless) (located : t.locate true here = .ok loc)
    (folder : t.node? loc = some .folder) (name : Text) :
    t.stat (here.child name) = match t.node? (below loc name) with
      | some n => .ok n
      | none => .error (absence name) := by
  rw [FileTree.stat, locate_below linkless located folder]
  cases stands : t.node? (below loc name) with
  | none => rfl
  | some n =>
    rw [Option.isSome_some, if_pos rfl]
    dsimp only
    rw [stands]

lemma holds_below (linkless : t.Linkless) (located : t.locate true here = .ok loc)
    (folder : t.node? loc = some .folder) (name : Text) (folders : Bool) :
    (if folders then t.isFolder (here.child name) else t.exists? (here.child name)) =
      holds t folders (below loc name) := by
  rw [FileTree.isFolder, FileTree.exists?, stat_below linkless located folder, holds]
  cases t.node? (below loc name) with
  | none => cases folders <;> rfl
  | some n => cases folders <;> cases n <;> rfl

lemma found_named (linkless : t.Linkless) (located : t.locate true here = .ok loc)
    (folder : t.node? loc = some .folder) (foldersOnly : Bool) (name : Text) (rest : List Selector) :
    found t foldersOnly (.named name :: rest) here =
      if holds t (foldersOnly || !rest.isEmpty) (below loc name) then
        found t foldersOnly rest (here.child name)
      else [] := by
  rw [found, holds_below linkless located folder]

lemma found_matching (linkless : t.Linkless) (located : t.locate true here = .ok loc)
    (folder : t.node? loc = some .folder) (foldersOnly : Bool) (pattern : Text) (rest : List Selector) :
    found t foldersOnly (.matching pattern :: rest) here =
      (t.names loc).flatMap fun name =>
        if Wildcard.isMatch pattern name && holds t (foldersOnly || !rest.isEmpty) (loc ++ [name]) then
          found t foldersOnly rest (here.child name)
        else [] := by
  rw [found, located]
  refine List.flatMap_congr fun name mem => ?_
  obtain ⟨n, stands⟩ := (FileTree.mem_names linkless.toSound).1 mem
  have place : below loc name = loc ++ [name] := if_neg (linkless.name_ne_dots stands)
  have held := holds_below linkless located folder name (foldersOnly || !rest.isEmpty)
  dsimp only
  rw [← place, ← held]
  cases (foldersOnly || !rest.isEmpty) with
  | false => 
    have there : t.exists? (here.child name) = true := by
      rw [FileTree.exists?, stat_below linkless located folder, place, stands]
    simp [there]
  | true => rfl

lemma mem_distinct {ps : List Path} : p ∈ distinct ps ↔ p ∈ ps := by
  have run : ∀ seen : List Path,
      p ∈ ps.foldl (fun seen p => if seen.contains p then seen else seen ++ [p]) seen ↔
      p ∈ seen ∨ p ∈ ps := by
    induction ps with
    | nil => simp
    | cons q ps ih =>
      intro seen
      rw [List.foldl_cons, ih]
      split
      · rename_i known
        have known := List.contains_iff_mem.1 known
        rw [List.mem_cons]
        constructor
        · exact fun mem => mem.imp_right .inr
        · rintro (mem | rfl | mem)
          · exact .inl mem
          · exact .inl known
          · exact .inr mem
      · rw [List.mem_append, List.mem_singleton, List.mem_cons, or_assoc]
  rw [distinct, run]
  simp

/-- A step of a pattern leads from a path at a place to a path at a place. -/
def Leads (t : FileTree) (here : Path) (loc : Location) (q : Path) (l : Location) : Selector → Prop
  | .named name => q = here.child name ∧ l = below loc name
  | .matching pattern =>
    ∃ name, Wildcard.isMatch pattern name = true ∧ q = here.child name ∧ l = loc ++ [name]
  | .anyDepth => q ∈ foldersBelow t t.nodes.length loc here ∧ ∃ names, l = loc ++ names

lemma mem_found_cons (linkless : t.Linkless) (stands : Stands t foldersOnly (step :: rest) here loc) :
    p ∈ found t foldersOnly (step :: rest) here ↔
      ∃ q l, Leads t here loc q l step ∧ Stands t foldersOnly rest q l ∧
        p ∈ found t foldersOnly rest q := by
  have located := stands.located
  have folder := stands.folder
  cases step with
  | named name =>
    rw [found_named linkless located folder]
    constructor
    · intro mem
      split at mem
      · rename_i held
        obtain ⟨n, there⟩ := exists_of_holds held
        refine ⟨_, _, ⟨rfl, rfl⟩, ⟨?_, held⟩, mem⟩
        rw [locate_below linkless located folder, there]
        rfl
      · cases mem
    · rintro ⟨q, l, ⟨rfl, rfl⟩, next, mem⟩
      rwa [if_pos next.holds]
  | matching pattern =>
    rw [found_matching linkless located folder, List.mem_flatMap]
    constructor
    · rintro ⟨name, -, mem⟩
      split at mem
      · rename_i fits
        obtain ⟨fits, held⟩ := Bool.and_eq_true_iff.1 fits
        obtain ⟨n, there⟩ := exists_of_holds held
        exact ⟨_, _, ⟨name, fits, rfl, rfl⟩, ⟨linkless.locate_of_child located folder there, held⟩, mem⟩
      · cases mem
    · rintro ⟨q, l, ⟨name, fits, rfl, rfl⟩, next, mem⟩
      refine ⟨name, (FileTree.mem_names linkless.toSound).2 (exists_of_holds next.holds), ?_⟩
      rwa [if_pos (Bool.and_eq_true_iff.2 ⟨fits, next.holds⟩)]
  | anyDepth =>
    rw [found, located]
    dsimp only
    rw [mem_distinct, List.mem_flatMap]
    constructor
    · rintro ⟨q, among, mem⟩
      obtain ⟨names, there, inner⟩ := locate_of_mem_foldersBelow linkless located folder among
      exact ⟨q, _, ⟨among, names, rfl⟩, ⟨there, holds_of_folder inner _⟩, mem⟩
    · rintro ⟨q, l, ⟨among, -⟩, -, mem⟩
      exact ⟨q, among, mem⟩

/-- What is selected is there, below the folder if no step goes up, and no name of the pattern is too
long then. -/
lemma of_mem_found (linkless : t.Linkless) (stands : Stands t foldersOnly steps here loc)
    (mem : p ∈ found t foldersOnly steps here) :
    (∃ l, t.locate true p = .ok l ∧ (.named "..".toList ∉ steps → ∃ names, l = loc ++ names)) ∧
      ∀ name, .named name ∈ steps → isTooLong name = false := by
  induction steps generalizing here loc with
  | nil =>
    obtain rfl := List.mem_singleton.1 mem
    exact ⟨⟨loc, stands.located, fun _ => ⟨[], (List.append_nil _).symm⟩⟩, fun name mem => by cases mem⟩
  | cons step rest ih =>
    obtain ⟨q, l, leads, next, mem⟩ := (mem_found_cons linkless stands).1 mem
    obtain ⟨⟨l', located, down⟩, short⟩ := ih next mem
    refine ⟨⟨l', located, fun plain => ?_⟩, fun name named => ?_⟩
    · obtain ⟨names, rfl⟩ := down fun up => plain (List.mem_cons_of_mem _ up)
      have lower : ∃ names, l = loc ++ names := by
        cases step with
        | named name =>
          obtain ⟨-, rfl⟩ := leads
          have other : name ≠ "..".toList := fun same => plain (by rw [same]; exact List.mem_cons_self)
          exact ⟨[name], if_neg other⟩
        | matching pattern =>
          obtain ⟨name, -, -, rfl⟩ := leads
          exact ⟨[name], rfl⟩
        | anyDepth => exact leads.2
      obtain ⟨above, rfl⟩ := lower
      exact ⟨above ++ names, List.append_assoc ..⟩
    · rcases List.mem_cons.1 named with rfl | named
      · obtain ⟨rfl, -⟩ := leads
        exact (linkless.of_locate next.located).2.1 name (List.mem_append_right _ List.mem_cons_self)
      · exact short name named

/-! ## The files of a pattern -/

/-- The files of a selection that are not at a certain place. -/
def kept (t : FileTree) (place : Location) (p : Path) : Bool :=
  t.isFile p && !isSkipped t [⟨1, place⟩] p

lemma kept_iff (linkless : t.Linkless) (located : t.locate true p = .ok loc) :
    kept t place p = true ↔ (∃ bytes, t.node? loc = some (.file bytes)) ∧ loc ≠ place := by
  obtain ⟨rfl, -⟩ := linkless.of_locate located
  rw [kept, Bool.and_eq_true_iff, FileTree.isFile_iff_of_locate located, isSkipped, linkless.resolve_eq]
  simp

lemma resolve_output (linkless : t.Linkless) (output : Path) :
    [output].mapM t.resolve = .ok [⟨1, t.placeOf output⟩] := by
  rw [List.mapM_cons, linkless.resolve_eq]
  rfl

/-- The files that a pattern selects, where nothing hinders it. -/
lemma matchingFiles_eq (linkless : t.Linkless) {pattern : Text}
    (read : selectors pattern = .ok (steps, foldersOnly)) (stands : Stands t foldersOnly steps here loc)
    (folder : t.node? loc = some .folder) (short : ∀ name, .named name ∈ steps → isTooLong name = false)
    (output : Path) :
    matchingFiles t here pattern [output] =
      .ok (((found t foldersOnly steps here).filter (kept t (t.placeOf output))).mergeSort Path.le) := by
  have parts := (linkless.of_locate stands.located).2.1
  have looked : lookUp t here = .ok () := by
    rw [lookUp, incident?_eq_none linkless parts]
  have selected := (select_cases linkless foldersOnly steps here).resolve_right
    fun failed => failed.2 ⟨short, parts⟩
  have free : (found t foldersOnly steps here).findSome? t.incident? = none := by
    refine List.findSome?_eq_none_iff.2 fun p mem => ?_
    obtain ⟨⟨l, located, -⟩, -⟩ := of_mem_found linkless stands mem
    exact incident?_eq_none linkless (linkless.of_locate located).2.1
  have globbed : glob t here pattern = .ok (found t foldersOnly steps here) := by
    rw [glob, read]
    dsimp only
    rw [looked, (FileTree.isFolder_iff_of_locate stands.located).2 folder, selected]
    rfl
  rw [matchingFiles, resolve_output linkless, globbed]
  dsimp only
  rw [free]
  rfl

lemma glob_cons (linkless : t.Linkless) {pattern : Text} {ps : List Path}
    (globbed : glob t here pattern = .ok ps) (mem : p ∈ ps) :
    ∃ steps foldersOnly loc, selectors pattern = .ok (steps, foldersOnly) ∧
      Stands t foldersOnly steps here loc ∧ t.node? loc = some .folder ∧
      p ∈ found t foldersOnly steps here := by
  rw [glob] at globbed
  cases read : selectors pattern with
  | error f =>
    rw [read] at globbed
    cases globbed
  | ok made =>
    obtain ⟨steps, foldersOnly⟩ := made
    rw [read] at globbed
    dsimp only at globbed
    rcases lookUp_cases t here with ⟨f, failed, -⟩ | looked
    · rw [failed] at globbed
      cases globbed
    · rw [looked] at globbed
      cases isFolder : t.isFolder here with
      | false =>
        rw [isFolder] at globbed
        cases globbed
        cases mem
      | true =>
        obtain ⟨loc, located, folder⟩ := FileTree.exists_of_isFolder isFolder
        refine ⟨steps, foldersOnly, loc, rfl, ⟨located, holds_of_folder folder _⟩, folder, ?_⟩
        rw [isFolder] at globbed
        rcases select_cases linkless foldersOnly steps here with selected | ⟨⟨f, failed⟩, -⟩
        · rw [selected] at globbed
          cases globbed
          exact mem
        · rw [failed] at globbed
          cases globbed

lemma matchingFiles_eq_ok (linkless : t.Linkless) {pattern : Text} {output : Path} {files : List Path}
    (selected : matchingFiles t here pattern [output] = .ok files) :
    ∃ ps, glob t here pattern = .ok ps ∧
      files = (ps.filter (kept t (t.placeOf output))).mergeSort Path.le := by
  rw [matchingFiles, resolve_output linkless] at selected
  dsimp only at selected
  split at selected
  · cases selected
  · rename_i ps globbed
    split at selected
    · cases selected
    · exact ⟨ps, globbed, (Except.ok.inj selected).symm⟩

/-- The files of a pattern are files, and none is the output. -/
lemma of_mem_matchingFiles (linkless : t.Linkless) {pattern : Text} {output : Path} {files : List Path}
    (selected : matchingFiles t here pattern [output] = .ok files) (mem : p ∈ files) :
    ∃ loc bytes, t.locate true p = .ok loc ∧ t.node? loc = some (.file bytes) ∧
      loc ≠ t.placeOf output := by
  obtain ⟨ps, -, rfl⟩ := matchingFiles_eq_ok linkless selected
  rw [List.mem_mergeSort, List.mem_filter] at mem
  obtain ⟨loc, bytes, located, there⟩ := FileTree.exists_of_isFile (Bool.and_eq_true_iff.1 mem.2).1
  exact ⟨loc, bytes, located, there, ((kept_iff linkless located).1 mem.2).2⟩

/-- Where a pattern selects files, it has steps to take from a folder, and nothing hinders them. -/
lemma matchingFiles_cons (linkless : t.Linkless) {pattern : Text} {output file : Path} {files : List Path}
    (selected : matchingFiles t here pattern [output] = .ok (file :: files)) :
    ∃ steps foldersOnly loc, selectors pattern = .ok (steps, foldersOnly) ∧
      Stands t foldersOnly steps here loc ∧ t.node? loc = some .folder ∧
      file ∈ (found t foldersOnly steps here).filter (kept t (t.placeOf output)) := by
  obtain ⟨ps, globbed, sorted⟩ := matchingFiles_eq_ok linkless selected
  have mem : file ∈ file :: files := List.mem_cons_self
  rw [sorted, List.mem_mergeSort, List.mem_filter] at mem
  obtain ⟨steps, foldersOnly, loc, read, stands, folder, among⟩ := glob_cons linkless globbed mem.1
  exact ⟨steps, foldersOnly, loc, read, stands, folder, List.mem_filter.2 ⟨among, mem.2⟩⟩

end Files

end Phrasebook
