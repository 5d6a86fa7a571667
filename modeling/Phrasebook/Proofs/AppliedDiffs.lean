import Phrasebook.Proofs.DiffReading

/-!
# Applying the diff of two texts

The lines of a diff are the lines of its groups as long as only the last of them lacks a line feed
(`closed_hunkLines`), and then the diff leads from the first text to the second. If the last line of the
first text has no line feed and is changed into others, it is shown in one line with the first of these; if
the name of the file holds a line feed, the lines that name the file are read as groups. In both cases the
diff cannot be read (`diff_applies_iff`).
-/

namespace Phrasebook.LineDiff

open Progress
open Text (linesWithEnds)

variable {a b : List Text} {i j m n : Nat} {s : Stretch} {ss : List Stretch}
variable {gs : List (List Stretch)} {t u line : Text} {ls : List Text}

/-! ## The lines of a diff -/

lemma mem_markedLines {mark : Char} :
    line ∈ markedLines mark ls i j ↔ ∃ l ∈ (ls.take j).drop i, mark :: l = line := by
  rw [markedLines, List.mem_map, List.drop_take]

lemma lt_of_mem_markedLines {mark : Char} (mem : line ∈ markedLines mark ls i j) : i < j := by
  obtain ⟨l, inside, -⟩ := mem_markedLines.1 mem
  by_contra order
  rw [List.drop_eq_nil_of_le (by rw [List.length_take]; omega)] at inside
  cases inside

lemma isLine_markedLines {mark : Char} (other : mark ≠ '\n') (whole : ∀ l ∈ ls, IsLine l) :
    ∀ line ∈ markedLines mark ls i j, IsLine line := by
  intro line mem
  obtain ⟨l, inside, rfl⟩ := mem_markedLines.1 mem
  exact (whole l (List.mem_of_mem_take (List.mem_of_mem_drop inside))).cons other

lemma fed_markedLines {mark : Char} (fed : FedUpTo ls j) :
    ∀ line ∈ markedLines mark ls i j, Fed line := by
  intro line mem
  obtain ⟨l, inside, rfl⟩ := mem_markedLines.1 mem
  exact (fed l (List.mem_of_mem_drop inside)).cons

lemma closed_markedLines (mark : Char) (closed : Closed ls) (i j : Nat) :
    Closed (markedLines mark ls i j) := by
  have part : ((ls.drop i).take (j - i)).Pairwise fun line _ => Fed line :=
    List.Pairwise.sublist ((List.take_sublist _ _).trans (List.drop_sublist _ _)) closed
  exact part.map _ fun _ _ fed => fed.cons

lemma isLine_lines (first : ∀ l ∈ a, IsLine l) (second : ∀ l ∈ b, IsLine l) :
    ∀ line ∈ s.lines a b, IsLine line := by
  rw [Stretch.lines]
  split
  · exact isLine_markedLines (by decide) first
  · intro line mem
    rcases List.mem_append.1 mem with mem | mem
    · exact isLine_markedLines (by decide) first line mem
    · exact isLine_markedLines (by decide) second line mem

lemma Settled.fed_lines (settled : Settled a b s) : ∀ line ∈ s.lines a b, Fed line := by
  rw [Stretch.lines]
  split
  · exact fed_markedLines settled.1
  · intro line mem
    rcases List.mem_append.1 mem with mem | mem
    · exact fed_markedLines settled.1 line mem
    · exact fed_markedLines settled.2 line mem

/-- Nothing is added behind lines of the first list of which one lacks a line feed. -/
def Apart (a : List Text) (s : Stretch) : Prop :=
  s.equal = false → s.i₁ < s.i₂ → s.j₁ < s.j₂ → FedUpTo a s.i₂

lemma closed_lines (first : Closed a) (second : Closed b) (apart : Apart a s) :
    Closed (s.lines a b) := by
  rw [Stretch.lines]
  split
  · exact closed_markedLines _ first _ _
  · rename_i changes
    rw [Bool.not_eq_true] at changes
    refine List.pairwise_append.2 ⟨closed_markedLines _ first _ _, closed_markedLines _ second _ _, ?_⟩
    intro removal mem addition mem'
    exact fed_markedLines (apart changes (lt_of_mem_markedLines mem) (lt_of_mem_markedLines mem')) _ mem

lemma closed_stretches (first : Closed a) (second : Closed b) (apart : ∀ s ∈ ss, Apart a s)
    (settled : ss.Pairwise fun s _ => Settled a b s) : Closed (ss.flatMap (Stretch.lines a b)) := by
  refine List.pairwise_flatMap.2 ⟨fun s mem => closed_lines first second (apart s mem), ?_⟩
  exact settled.imp fun here line mem _ _ => here.fed_lines line mem

lemma Hunks.chain_of_mem {g : List Stretch} (hunks : Hunks a b i j gs) (mem : g ∈ gs) :
    g ≠ [] ∧ ∃ i j m n, Chain a b i j g m n := by
  induction hunks with
  | nil => cases mem
  | cons _ nonempty chain _ ih =>
    rcases List.mem_cons.1 mem with rfl | later
    · exact ⟨nonempty, _, _, _, _, chain⟩
    · exact ih later

/-- The lines of the groups of two lists. -/
def hunkLines (a b : List Text) : List Text :=
  (groups a b).flatMap (groupLines a b)

lemma isLine_hunkLines (first : ∀ l ∈ a, IsLine l) (second : ∀ l ∈ b, IsLine l) :
    ∀ line ∈ hunkLines a b, IsLine line := by
  intro line mem
  obtain ⟨g, inside, mem⟩ := List.mem_flatMap.1 mem
  obtain ⟨nonempty, i, j, m, n, chain⟩ := (hunks_groups a b).chain_of_mem inside
  rw [groupLines_eq chain nonempty] at mem
  rcases List.mem_cons.1 mem with rfl | mem
  · exact (isLine_headLine i m j n).1
  · obtain ⟨s, -, mem⟩ := List.mem_flatMap.1 mem
    exact isLine_lines first second line mem

lemma fed_groupLines {g : List Stretch} (settled : ∀ s ∈ g, Settled a b s) (chain : Chain a b i j g m n)
    (nonempty : g ≠ []) : ∀ line ∈ groupLines a b g, Fed line := by
  intro line mem
  rw [groupLines_eq chain nonempty] at mem
  rcases List.mem_cons.1 mem with rfl | mem
  · exact (isLine_headLine i m j n).2
  · obtain ⟨s, inside, mem⟩ := List.mem_flatMap.1 mem
    exact (settled s inside).fed_lines line mem

lemma closed_hunkLines (first : Closed a) (second : Closed b)
    (apart : ∀ g ∈ groups a b, ∀ s ∈ g, Apart a s) : Closed (hunkLines a b) := by
  have settled := List.pairwise_flatten.1 (pairwise_settled_groups first second)
  have filled := fun g mem => (hunks_groups a b).chain_of_mem (g := g) mem
  refine List.pairwise_flatMap.2 ⟨fun g mem => ?_, ?_⟩
  · obtain ⟨nonempty, i, j, m, n, chain⟩ := filled g mem
    rw [groupLines_eq chain nonempty]
    refine .cons (fun _ _ => (isLine_headLine i m j n).2) ?_
    exact closed_stretches first second (apart g mem) (settled.1 g mem)
  · refine settled.2.imp_of_mem fun {g h} mem mem' before line inside _ _ => ?_
    obtain ⟨nonempty, i, j, m, n, chain⟩ := filled g mem
    obtain ⟨t, there⟩ := List.exists_mem_of_ne_nil h (filled h mem').1
    exact fed_groupLines (fun s here => before s here t there) chain nonempty line inside

/-! ## Diffs of texts -/

lemma getLast?_of_fedLines {front : List Text} (lines : fedLines t = front ++ [line]) :
    line.getLast? = t.getLast? := by
  have nonempty : line ≠ [] := (isLine_of_mem (lines ▸ List.mem_concat_self)).1
  rw [← flatten_fedLines t, lines, List.flatten_append, List.flatten_singleton,
    List.getLast?_append_of_ne_nil _ nonempty]

lemma fed_of_ends (ends : t.getLast? = some '\n') : ∀ line ∈ fedLines t, Fed line := by
  intro line mem
  rcases List.eq_nil_or_concat (fedLines t) with empty | ⟨front, last, lines⟩
  · rw [empty] at mem
    cases mem
  · rw [List.concat_eq_append] at lines
    have closed := closed_fedLines t
    rw [lines] at mem closed
    rcases List.mem_append.1 mem with early | late
    · exact (List.pairwise_append.1 closed).2.2 line early last (List.mem_singleton_self last)
    · obtain rfl := List.mem_singleton.1 late
      exact (getLast?_of_fedLines lines).trans ends

lemma fedLines_append_of_ends (ends : u.getLast? = some '\n') (t : Text) :
    fedLines (u ++ t) = fedLines u ++ fedLines t := by
  have whole : ∀ line ∈ fedLines u, IsLine line ∧ Fed line :=
    fun line mem => ⟨isLine_of_mem mem, fed_of_ends ends line mem⟩
  have parts := fedLines_flatten_append whole t
  rwa [flatten_fedLines] at parts

/-- A line that names a file. -/
def fileLine (mark name : Text) : Text :=
  mark ++ name ++ ['\n']

lemma getLast?_fileLine (mark name : Text) : (fileLine mark name).getLast? = some '\n' :=
  List.getLast?_concat

lemma fedLines_fileLine {mark name : Text} (start : '\n' ∉ mark) (inside : '\n' ∉ name) :
    fedLines (fileLine mark name) = [fileLine mark name] := by
  refine fedLines_line ⟨by simp [fileLine], ?_⟩
  rw [fileLine, List.dropLast_concat, List.mem_append, not_or]
  exact ⟨start, inside⟩

/-- A name with a line feed takes more than one line. -/
lemma fedLines_fileLine_of_feed {mark : Text} (start : '\n' ∉ mark) (inside : '\n' ∉ u) (v : Text) :
    fedLines (fileLine mark (u ++ '\n' :: v)) = fileLine mark u :: fedLines (v ++ ['\n']) := by
  have split : fileLine mark (u ++ '\n' :: v) = fileLine mark u ++ (v ++ ['\n']) := by
    simp [fileLine]
  have alone := fedLines_fileLine start inside
  rw [split, fedLines_append_of_ends (getLast?_fileLine mark u), alone]
  rfl

variable {before after name : Text}

lemma unified_eq_nil (alike : groups (linesWithEnds before) (linesWithEnds after) = []) :
    unified before after name = [] := by
  unfold unified
  dsimp only
  rw [alike]

lemma unified_eq (differ : groups (linesWithEnds before) (linesWithEnds after) ≠ []) :
    unified before after name = fileLine "--- a/".toList name ++ (fileLine "+++ b/".toList name ++
      (hunkLines (linesWithEnds before) (linesWithEnds after)).flatten) := by
  unfold unified hunkLines
  dsimp only
  rw [← flatMap_flatten (renderGroup_eq_flatten _ _)]
  generalize groups (linesWithEnds before) (linesWithEnds after) = gs at differ
  cases gs with
  | nil => exact absurd rfl differ
  | cons g gs => simp [fileLine]

/-- Texts with the same lines are the same. -/
lemma eq_of_groups_eq_nil (alike : groups (fedLines before) (fedLines after) = []) : before = after := by
  have hunks := hunks_groups (fedLines before) (fedLines after)
  rw [alike] at hunks
  cases hunks with
  | nil same =>
    have joined := same.take_append
    rw [List.take_zero, List.nil_append, List.drop_zero, Nat.sub_zero, List.take_length,
      List.take_length] at joined
    rw [← flatten_fedLines before, joined, flatten_fedLines]

/-- The first text does not end in a line feed, and a change takes its last line and adds others. -/
def Rejoins (before after : Text) : Prop :=
  before.getLast? ≠ some '\n' ∧
    ∃ s ∈ stretches (linesWithEnds before) (linesWithEnds after),
      s.equal = false ∧ s.i₁ < s.i₂ ∧ s.i₂ = (linesWithEnds before).length ∧ s.j₁ < s.j₂

instance (before after : Text) : Decidable (Rejoins before after) :=
  inferInstanceAs (Decidable (_ ∧ _))

lemma Chain.inside_of_mem (chain : Chain a b i j ss m n) (mem : s ∈ ss) :
    s.i₂ ≤ a.length ∧ s.j₂ ≤ b.length := by
  induction chain with
  | nil => cases mem
  | keep _ same _ ih =>
    rcases List.mem_cons.1 mem with rfl | later
    · exact ⟨same.first.2, same.second.2⟩
    · exact ih later
  | change first second _ _ ih =>
    rcases List.mem_cons.1 mem with rfl | later
    · exact ⟨first.2, second.2⟩
    · exact ih later

lemma apart_of_not_rejoins (only : OnlyFeeds before) (only' : OnlyFeeds after)
    (apart : ¬Rejoins before after) :
    ∀ g ∈ groups (fedLines before) (fedLines after), ∀ s ∈ g, Apart (fedLines before) s := by
  intro g inside s mem changes taken added
  have change := (mem_groups_iff changes).1 ⟨g, inside, mem⟩
  rcases Nat.lt_or_ge s.i₂ (fedLines before).length with early | late
  · exact (closed_fedLines before).fedUpTo early
  · have last : s.i₂ = (fedLines before).length :=
      le_antisymm ((chain_stretches _ _).inside_of_mem change).1 late
    have ends : before.getLast? = some '\n' := by
      by_contra open'
      refine apart ⟨open', s, ?_⟩
      rw [linesWithEnds_eq_fedLines only, linesWithEnds_eq_fedLines only']
      exact ⟨change, changes, taken, last, added⟩
    exact fun line mem => fed_of_ends ends line (List.mem_of_mem_take mem)

lemma applyDiff?_eq {diff text first second : Text} (lines : fedLines diff = first :: second :: ls)
    (names : ("--- ".toList.isPrefixOf first && "+++ ".toList.isPrefixOf second) = true) :
    applyDiff? diff text =
      (Progress.start.run (fedLines text) ls).bind (Progress.result (fedLines text)) := by
  rw [applyDiff?, lines]
  exact if_pos names

lemma applyDiff?_eq_none {diff text first second : Text} (lines : fedLines diff = first :: second :: ls)
    (fails : Progress.start.run (fedLines text) ls = none) : applyDiff? diff text = none := by
  rw [applyDiff?, lines]
  dsimp only
  rw [fails]
  split
  · rfl
  · rfl

lemma fedLines_unified (only : OnlyFeeds before) (only' : OnlyFeeds after)
    (differ : groups (fedLines before) (fedLines after) ≠ []) (name : Text) :
    fedLines (unified before after name) =
      fedLines (fileLine "--- a/".toList name) ++ (fedLines (fileLine "+++ b/".toList name) ++
        fedLines (hunkLines (fedLines before) (fedLines after)).flatten) := by
  rw [← linesWithEnds_eq_fedLines only, ← linesWithEnds_eq_fedLines only'] at differ ⊢
  rw [unified_eq differ, fedLines_append_of_ends (getLast?_fileLine _ _),
    fedLines_append_of_ends (getLast?_fileLine _ _)]

lemma fedLines_unified_of_name (only : OnlyFeeds before) (only' : OnlyFeeds after)
    (differ : groups (fedLines before) (fedLines after) ≠ []) (plain : '\n' ∉ name) :
    fedLines (unified before after name) =
      fileLine "--- a/".toList name :: fileLine "+++ b/".toList name ::
        fedLines (hunkLines (fedLines before) (fedLines after)).flatten := by
  rw [fedLines_unified only only' differ name, fedLines_fileLine (by decide) plain,
    fedLines_fileLine (by decide) plain]
  rfl

/-- A diff that keeps its lines apart leads from the first text to the second. -/
lemma applyDiff?_of_apart (only : OnlyFeeds before) (only' : OnlyFeeds after) (plain : '\n' ∉ name)
    (apart : ¬Rejoins before after) : applyDiff? (unified before after name) before = some after := by
  by_cases alike : groups (fedLines before) (fedLines after) = []
  · obtain rfl := eq_of_groups_eq_nil alike
    rw [← linesWithEnds_eq_fedLines only] at alike
    rw [unified_eq_nil alike]
    rfl
  · have lines := fedLines_unified_of_name only only' alike plain
    rw [fedLines_flatten] at lines
    · have hunks := hunks_groups (fedLines before) (fedLines after)
      rw [← List.append_nil (groups _ _)] at hunks
      obtain ⟨m, n, ran, rest⟩ := run_hunks hunks
      rw [applyDiff?_eq lines (by simp [fileLine])]
      cases rest with
      | nil same =>
        refine (congrArg (Option.bind · _) ran).trans ?_
        rw [Option.bind_some, result_of_same same, flatten_fedLines]
    · exact isLine_hunkLines (fun _ => isLine_of_mem) (fun _ => isLine_of_mem)
    · exact closed_hunkLines (closed_fedLines _) (closed_fedLines _)
        (apart_of_not_rejoins only only' apart)

/-! ## Diffs that break off -/

/-- A group whose last stretch takes the last line of the first list and adds others. -/
lemma groups_eq_of_rejoins (first : Closed a) (second : Closed b) (open' : ¬FedUpTo a a.length)
    (mem : s ∈ stretches a b) (changes : s.equal = false) (last : s.i₂ = a.length) :
    ∃ gs us, groups a b = gs ++ [us ++ [s]] ∧ (∀ g ∈ gs, ∀ t ∈ g, Settled a b t) ∧
      ∀ t ∈ us, Settled a b t := by
  obtain ⟨g, inside, here⟩ := (mem_groups_iff changes).2 mem
  obtain ⟨gs, hs, around⟩ := List.append_of_mem inside
  obtain ⟨us, vs, rfl⟩ := List.append_of_mem here
  have settled := pairwise_settled_groups first second
  have filled := fun h (mem : h ∈ hs) => (hunks_groups a b).chain_of_mem (g := h) (by simp [around, mem])
  have whole : (groups a b).flatten = (gs.flatten ++ us) ++ s :: (vs ++ hs.flatten) := by
    simp [around]
  rw [whole, List.pairwise_append, List.pairwise_cons] at settled
  obtain ⟨-, ⟨behind, -⟩, before⟩ := settled
  -- the stretch is not settled, so nothing is behind it
  have alone : vs ++ hs.flatten = [] := by
    refine List.eq_nil_iff_forall_not_mem.2 fun t mem => open' ?_
    rw [← last]
    exact (behind t mem).1
  obtain ⟨rfl, empty⟩ := List.append_eq_nil_iff.1 alone
  have nothing : hs = [] := by
    refine List.eq_nil_iff_forall_not_mem.2 fun h mem => (filled h mem).1 ?_
    exact List.flatten_eq_nil_iff.1 empty h mem
  refine ⟨gs, us, by rw [around, nothing], fun g mem t mem' => ?_, fun t mem => ?_⟩
  · exact before t (List.mem_append_left _ (List.mem_flatten_of_mem mem mem')) s List.mem_cons_self
  · exact before t (List.mem_append_right _ mem) s List.mem_cons_self

lemma markedLines_concat (mark : Char) (filled : i ≤ m) (inside : m < ls.length) :
    markedLines mark ls i (m + 1) = markedLines mark ls i m ++ [mark :: ls[m]] := by
  obtain ⟨k, rfl⟩ : ∃ k, m = i + k := ⟨m - i, by omega⟩
  rw [markedLines, markedLines, Nat.add_assoc, Nat.add_sub_cancel_left, Nat.add_sub_cancel_left,
    List.take_add_one, List.getElem?_drop, List.getElem?_eq_getElem inside, List.map_append]
  rfl

/-- Up to the last line of the first list, a diff that takes this line can be read. -/
lemma run_of_rejoins (first : Closed a) (second : Closed b) (size : a.length = m + 1)
    (open' : ¬FedUpTo a a.length) (mem : s ∈ stretches a b) (changes : s.equal = false)
    (taken : s.i₁ < s.i₂) (last : s.i₂ = a.length) :
    ∃ front, hunkLines a b = front ++ ('-' :: a[m]) :: markedLines '+' b s.j₁ s.j₂ ∧
      (∀ line ∈ front, Fed line) ∧ ∃ made d, Progress.start.run a front = some ⟨m, made, 1, d⟩ := by
  obtain ⟨gs, us, shown, settled, settled'⟩ :=
    groups_eq_of_rejoins first second open' mem changes last
  have hunks := hunks_groups a b
  have filled := fun g (mem : g ∈ gs) => hunks.chain_of_mem (g := g) (by simp [shown, mem])
  rw [shown] at hunks
  obtain ⟨i, j, ran, rest⟩ := run_hunks hunks
  cases rest with
  | @cons _ i₁ i₂ _ j₁ j₂ _ _ same nonempty chain _ =>
    have lines := groupLines_eq chain nonempty
    obtain ⟨k, l, front, back⟩ := chain.split
    cases back with
    | keep => cases changes
    | change left right filled' rest =>
      cases rest
      dsimp only at taken last
      obtain rfl : i₂ = m + 1 := last.trans size
      have start := same.first
      have ends := front.le ⟨same.first.2, same.second.2⟩
      refine ⟨gs.flatMap (groupLines a b) ++ headLine i₁ (m + 1) j₁ j₂ ::
        (us.flatMap (Stretch.lines a b) ++ markedLines '-' a k m), ?_, ?_, ?_⟩
      · have shape : (Stretch.mk false k (m + 1) l j₂).lines a b =
            markedLines '-' a k m ++ ('-' :: a[m]) :: markedLines '+' b l j₂ := by
          rw [List.append_cons, ← markedLines_concat _ (by omega)]
          rfl
        rw [hunkLines, shown, List.flatMap_append, List.flatMap_singleton, lines, List.flatMap_append,
          List.flatMap_singleton, shape]
        simp
      · intro line mem
        rcases List.mem_append.1 mem with mem | mem
        · obtain ⟨g, inside, mem⟩ := List.mem_flatMap.1 mem
          obtain ⟨nonempty, _, _, _, _, chain⟩ := filled g inside
          exact fed_groupLines (settled g inside) chain nonempty line mem
        · rcases List.mem_cons.1 mem with rfl | mem
          · exact (isLine_headLine ..).2
          · rcases List.mem_append.1 mem with mem | mem
            · obtain ⟨t, inside, mem⟩ := List.mem_flatMap.1 mem
              exact (settled' t inside).fed_lines line mem
            · exact fed_markedLines (first.fedUpTo (by omega)) line mem
      · obtain ⟨n, rfl⟩ : ∃ n, m = k + n := ⟨m - k, by omega⟩
        have stretches := run_chain front ⟨same.first.2, same.second.2⟩ (n + 1) (j₂ - l)
        have removals : run a ⟨k, b.take l, n + 1, j₂ - l⟩ (markedLines '-' a k (k + n)) =
            Option.some ⟨k + n, b.take l, 1, j₂ - l⟩ :=
          run_removals (by omega)
        rw [show k - i₁ + (n + 1) = k + n + 1 - i₁ by omega, show l - j₁ + (j₂ - l) = j₂ - j₁ by omega]
          at stretches
        refine ⟨b.take l, j₂ - l, ?_⟩
        rw [run_append]
        refine (congrArg (Option.bind · _) ran).trans ?_
        rw [Option.bind_some, run_cons, step_headLine same, Option.bind_some, run_append, stretches,
          Option.bind_some, removals]

lemma exists_fedLines (nonempty : t ≠ []) : ∃ line ls, fedLines t = line :: ls := by
  cases lines : fedLines t with
  | nil =>
    have empty := flatten_fedLines t
    rw [lines] at empty
    exact absurd empty.symm nonempty
  | cons line ls => exact ⟨line, ls, rfl⟩

lemma flatten_markedLines_ne_nil (mark : Char) (filled : i < j) (inside : j ≤ ls.length) :
    (markedLines mark ls i j).flatten ≠ [] := by
  obtain ⟨k, rfl⟩ : ∃ k, j = i + (k + 1) := ⟨j - i - 1, by omega⟩
  rw [markedLines_succ mark (by omega)]
  exact List.cons_ne_nil _ _

/-- Where a change takes the last line of the first text, which has no line feed, and adds others, the
diff shows it and the first of them as one line. -/
lemma applyDiff?_of_rejoins (only : OnlyFeeds before) (only' : OnlyFeeds after) (plain : '\n' ∉ name)
    (rejoins : Rejoins before after) : applyDiff? (unified before after name) before = none := by
  obtain ⟨ends, s, mem, changes, taken, last, added⟩ := rejoins
  rw [linesWithEnds_eq_fedLines only] at mem last
  rw [linesWithEnds_eq_fedLines only'] at mem
  obtain ⟨m, size⟩ : ∃ m, (fedLines before).length = m + 1 := ⟨(fedLines before).length - 1, by omega⟩
  have split : fedLines before = (fedLines before).take m ++ [(fedLines before)[m]] := by
    rw [List.take_append_getElem, ← size, List.take_length]
  have open' : ¬Fed (fedLines before)[m] := fun fed => ends ((getLast?_of_fedLines split).symm.trans fed)
  have open'' : ¬FedUpTo (fedLines before) (fedLines before).length := by
    intro fed
    rw [FedUpTo, List.take_length] at fed
    exact open' (fed _ (List.getElem_mem _))
  obtain ⟨front, shown, fed, made, d, ran⟩ := run_of_rejoins (closed_fedLines before)
    (closed_fedLines after) size open'' mem changes taken last
  have whole := isLine_hunkLines (a := fedLines before) (b := fedLines after)
    (fun _ => isLine_of_mem) (fun _ => isLine_of_mem)
  rw [shown] at whole
  have inside : '\n' ∉ '-' :: (fedLines before)[m] := by
    rw [List.mem_cons, not_or]
    exact ⟨by decide, (isLine_of_mem (List.getElem_mem _)).not_mem open'⟩
  -- the line that is taken and the first that is added are one line
  obtain ⟨z, zs, lines⟩ := exists_fedLines (flatten_markedLines_ne_nil '+' added
    ((chain_stretches _ _).inside_of_mem mem).2)
  have nonempty : z ≠ [] := (isLine_of_mem (lines ▸ List.mem_cons_self)).1
  have joined : fedLines (hunkLines (fedLines before) (fedLines after)).flatten =
      front ++ ('-' :: ((fedLines before)[m] ++ z)) :: zs := by
    rw [shown, List.flatten_append, List.flatten_cons,
      fedLines_flatten_append fun l mem => ⟨whole l (List.mem_append_left _ mem), fed l mem⟩,
      fedLines_append inside, lines, foldr_consLine]
    rfl
  have other : (fedLines before)[m]? ≠ .some ((fedLines before)[m] ++ z) := by
    rw [List.getElem?_eq_getElem (by omega)]
    simpa using nonempty
  have groups : groups (fedLines before) (fedLines after) ≠ [] :=
    List.ne_nil_of_mem ((mem_groups_iff changes).2 mem).choose_spec.1
  have all := fedLines_unified_of_name only only' groups plain
  rw [joined] at all
  rw [applyDiff?_eq all (by simp [fileLine]), run_append, ran, Option.bind_some, run_cons,
    step_removal_eq_none other Nat.one_pos]
  rfl

namespace Progress

variable {p p' q q' : Progress}

/-- How many lines of both texts are to come in a group. -/
def needs (p : Progress) : Nat × Nat :=
  (p.removals, p.additions)

lemma needs_enter {spans : (Nat × Nat) × Nat × Nat} (ran : p.enter a spans = some q) :
    q.needs = (spans.1.2, spans.2.2) := by
  simp only [enter] at ran
  split at ran
  · cases ran
    rfl
  · cases ran

lemma needs_remove (ran : p.remove a line = some q) : q.needs = (p.removals - 1, p.additions) := by
  rw [remove] at ran
  split at ran
  · cases ran
    rfl
  · cases ran

lemma needs_add (ran : p.add line = some q) : q.needs = (p.removals, p.additions - 1) := by
  rw [add] at ran
  split at ran
  · cases ran
    rfl
  · cases ran

/-- What is to come after a line depends on the line and on what was to come. -/
lemma needs_step (ran : p.step a line = some q) (ran' : p'.step a line = some q')
    (same : p.needs = p'.needs) : q.needs = q'.needs := by
  obtain ⟨removals, additions⟩ := Prod.mk.inj same
  unfold step at ran ran'
  rw [removals, additions] at ran
  split at ran
  · rename_i done
    rw [if_pos done] at ran'
    obtain ⟨spans, head, entered⟩ := Option.bind_eq_some_iff.1 ran
    obtain ⟨spans', head', entered'⟩ := Option.bind_eq_some_iff.1 ran'
    obtain rfl := Option.some.inj (head.symm.trans head')
    rw [needs_enter entered, needs_enter entered']
  · rename_i more
    rw [if_neg more] at ran'
    split at ran
    · obtain ⟨o, removed, added⟩ := Option.bind_eq_some_iff.1 ran
      obtain ⟨o', removed', added'⟩ := Option.bind_eq_some_iff.1 ran'
      have left := Prod.mk.inj (needs_remove removed)
      have right := Prod.mk.inj (needs_remove removed')
      rw [needs_add added, needs_add added', left.1, left.2, right.1, right.2, removals, additions]
    · rw [needs_remove ran, needs_remove ran', removals, additions]
    · rw [needs_add ran, needs_add ran', removals, additions]
    · cases ran

lemma needs_run (ran : p.run a ls = some q) (ran' : p'.run a ls = some q')
    (same : p.needs = p'.needs) : q.needs = q'.needs := by
  induction ls generalizing p p' with
  | nil =>
    cases ran
    cases ran'
    exact same
  | cons line ls ih =>
    obtain ⟨o, step, rest⟩ := Option.bind_eq_some_iff.1 ran
    obtain ⟨o', step', rest'⟩ := Option.bind_eq_some_iff.1 ran'
    exact ih rest rest' (needs_step step step' same)

/-- A head is read where nothing is to come, and only there. -/
lemma head?_of_step (ran : p.step a line = some q) : line.head? = some '@' ↔ p.needs = (0, 0) := by
  unfold step at ran
  split at ran
  · rename_i done
    obtain ⟨spans, head, -⟩ := Option.bind_eq_some_iff.1 ran
    exact iff_of_true (head?_of_spans? head) (Prod.ext done.1 done.2)
  · rename_i more
    have open' : p.needs ≠ (0, 0) := fun zero => more (Prod.mk.inj zero)
    refine iff_of_false ?_ open'
    split at ran
    · simp
    · simp
    · simp
    · cases ran

/-- Lines that stand both before a line that is no head, and again before a head, cannot be read. -/
lemma run_repeated {x y h : Text} {rest : List Text} (other : x.head? ≠ some '@')
    (head : h.head? = some '@') :
    Progress.start.run a (ls ++ x :: y :: (ls ++ h :: rest)) = none := by
  refine Option.eq_none_iff_forall_not_mem.2 fun q ran => ?_
  rw [run_append] at ran
  obtain ⟨p₁, before, ran⟩ := Option.bind_eq_some_iff.1 ran
  obtain ⟨p₂, middle, ran⟩ := Option.bind_eq_some_iff.1 ran
  obtain ⟨p₃, named, ran⟩ := Option.bind_eq_some_iff.1 ran
  change p₃.run a (ls ++ h :: rest) = some q at ran
  rw [run_append] at ran
  obtain ⟨p₄, again, ran⟩ := Option.bind_eq_some_iff.1 ran
  obtain ⟨p₅, entered, -⟩ := Option.bind_eq_some_iff.1 ran
  have more : p₁.needs ≠ (0, 0) := fun done => other ((head?_of_step middle).2 done)
  have done : p₄.needs = (0, 0) := (head?_of_step entered).1 head
  cases ls with
  | nil =>
    cases before
    exact more rfl
  | cons l ls =>
    -- the first of the lines is a head, so nothing is to come where the lines are read again
    obtain ⟨_, first, -⟩ := Option.bind_eq_some_iff.1 before
    obtain ⟨_, second, -⟩ := Option.bind_eq_some_iff.1 again
    have start : p₃.needs = (0, 0) := (head?_of_step second).1 ((head?_of_step first).2 rfl)
    exact more ((needs_run before again start.symm).trans done)

end Progress

/-- With a line feed in the name of the file, nothing but an empty diff can be read. -/
lemma applyDiff?_of_name (only : OnlyFeeds before) (only' : OnlyFeeds after) (broken : '\n' ∈ name)
    (differ : groups (fedLines before) (fedLines after) ≠ []) :
    applyDiff? (unified before after name) before = none := by
  obtain ⟨u, v, rfl, inside⟩ := List.eq_append_cons_of_mem broken
  have lines := fedLines_unified only only' differ (u ++ '\n' :: v)
  rw [fedLines_fileLine_of_feed (by decide) inside, fedLines_fileLine_of_feed (by decide) inside] at lines
  obtain ⟨y, ls, more⟩ := exists_fedLines (t := v ++ ['\n']) (by simp)
  obtain ⟨g, gs, found⟩ := List.exists_cons_of_ne_nil differ
  obtain ⟨filled, i, j, m, n, chain⟩ := (hunks_groups (fedLines before) (fedLines after)).chain_of_mem
    (g := g) (by rw [found]; exact List.mem_cons_self)
  obtain ⟨whole, fed⟩ := isLine_headLine i m j n
  have hunks : ∃ rest, fedLines (hunkLines (fedLines before) (fedLines after)).flatten =
      headLine i m j n :: rest := by
    rw [hunkLines, found, List.flatMap_cons, groupLines_eq chain filled, List.cons_append,
      List.flatten_cons, fedLines_cons whole fed]
    exact ⟨_, rfl⟩
  obtain ⟨rest, body⟩ := hunks
  have head : (headLine i m j n).head? = .some '@' := by
    simp [headLine]
  rw [more, body, List.cons_append, List.cons_append] at lines
  refine applyDiff?_eq_none lines (run_repeated ?_ head)
  simp [fileLine]

/-- Applying the diff of two texts, in which nothing but line feeds ends lines, gives the second text
exactly if the texts are the same, or if the name of the file has no line feed and no last line without
line feed is changed into others. -/
theorem diff_applies_iff (only : OnlyFeeds before) (only' : OnlyFeeds after) (name : Text) :
    applyDiff? (unified before after name) before = some after ↔
      before = after ∨ ('\n' ∉ name ∧ ¬Rejoins before after) := by
  by_cases same : before = after
  · obtain rfl := same
    refine iff_of_true ?_ (.inl rfl)
    rw [unified_eq_nil (groups_self _)]
    rfl
  · have changes : groups (fedLines before) (fedLines after) ≠ [] :=
      fun alike => same (eq_of_groups_eq_nil alike)
    rw [or_iff_right same]
    constructor
    · intro applied
      have plain : '\n' ∉ name := by
        intro broken
        rw [applyDiff?_of_name only only' broken changes] at applied
        cases applied
      refine ⟨plain, fun rejoins => ?_⟩
      rw [applyDiff?_of_rejoins only only' plain rejoins] at applied
      cases applied
    · rintro ⟨plain, apart⟩
      exact applyDiff?_of_apart only only' plain apart

/-- The last lines have no line feeds. In the first case the one that is changed is not the last of its
text, in the second it is. -/
theorem diff_applies_unless_last_line_changes :
    applyDiff? (unified "a\nb".toList "c\nb".toList "f".toList) "a\nb".toList = some "c\nb".toList ∧
      applyDiff? (unified "a\nb".toList "a\nc".toList "f".toList) "a\nb".toList ≠ some "a\nc".toList := by
  rw [diff_applies_iff (by decide) (by decide), Ne, diff_applies_iff (by decide) (by decide)]
  decide

end Phrasebook.LineDiff
