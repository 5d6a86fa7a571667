import Mathlib.Data.List.Chain
import Phrasebook.LineDiff.Unified
import Phrasebook.Proofs.MatchedRuns

/-!
# Stretches and groups as scripts of changes

The stretches of two lists follow each other from the start of both to their ends, and along an equal
stretch the lists are the same (`Chain`, `chain_stretches`). Cutting equal stretches down to context and
splitting at the long ones leaves groups with nothing but equal lines between them (`Hunks`,
`hunks_groups`), and no change is lost (`mem_groups_iff`). If in each list only the last line may lack a
line feed, then so may, of all that is shown of the two lists, only lines of the last stretch
(`pairwise_settled_groups`).
-/

namespace Phrasebook.LineDiff

variable {a b : List Text} {i i₁ i₂ j j₁ j₂ k l m n : Nat} {s : Stretch} {ss ts : List Stretch}

/-- Lines `i` to `i'` of the first list and lines `j` to `j'` of the second are the same. -/
structure Same (a b : List Text) (i i' j j' : Nat) : Prop where
  lines : ∀ k < i' - i, a[i + k]? = b[j + k]?
  size : i' - i = j' - j
  first : i ≤ i' ∧ i' ≤ a.length
  second : j ≤ j' ∧ j' ≤ b.length

lemma Same.refl (first : i ≤ a.length) (second : j ≤ b.length) : Same a b i i j j :=
  ⟨fun k inside => by omega, by omega, by omega, by omega⟩

lemma Same.trans (front : Same a b i i₁ j j₁) (back : Same a b i₁ i₂ j₁ j₂) : Same a b i i₂ j j₂ := by
  obtain ⟨lines, size, first, second⟩ := front
  obtain ⟨lines', size', first', second'⟩ := back
  refine ⟨fun k inside => ?_, by omega, by omega, by omega⟩
  rcases Nat.lt_or_ge k (i₁ - i) with early | late
  · exact lines k early
  · have moved := lines' (k - (i₁ - i)) (by omega)
    rwa [show i₁ + (k - (i₁ - i)) = i + k by omega, show j₁ + (k - (i₁ - i)) = j + k by omega] at moved

lemma Same.take (same : Same a b i i₁ j j₁) (inside : k ≤ i₁ - i) : Same a b i (i + k) j (j + k) := by
  obtain ⟨lines, size, first, second⟩ := same
  exact ⟨fun m short => lines m (by omega), by omega, by omega, by omega⟩

lemma Same.drop (same : Same a b i i₁ j j₁) (inside : k ≤ i₁ - i) : Same a b (i + k) i₁ (j + k) j₁ := by
  obtain ⟨lines, size, first, second⟩ := same
  refine ⟨fun m short => ?_, by omega, by omega, by omega⟩
  rw [Nat.add_assoc, Nat.add_assoc]
  exact lines (k + m) (by omega)

lemma Run.Fits.same_lines {r : Run} (fits : r.Fits a b i a.length j b.length) :
    Same a b r.i (r.i + r.size) r.j (r.j + r.size) := by
  have first := fits.inFirst
  have second := fits.inSecond
  refine ⟨fun k inside => ?_, by omega, by omega, by omega⟩
  obtain ⟨line, here, there⟩ := sameLine_iff.1 (fits.same k (by omega))
  rw [here, there]

/-- Stretches that follow each other from line `i` of the first list and line `j` of the second to lines
`m` and `n`. None of them is empty. -/
inductive Chain (a b : List Text) : Nat → Nat → List Stretch → Nat → Nat → Prop where
  | nil {i j : Nat} :
    Chain a b i j [] i j
  | keep {i i₂ j j₂ m n : Nat} {ss : List Stretch} :
    i < i₂ → Same a b i i₂ j j₂ →
    Chain a b i₂ j₂ ss m n →
    Chain a b i j (⟨true, i, i₂, j, j₂⟩ :: ss) m n
  | change {i i₂ j j₂ m n : Nat} {ss : List Stretch} :
    i ≤ i₂ ∧ i₂ ≤ a.length → j ≤ j₂ ∧ j₂ ≤ b.length → i < i₂ ∨ j < j₂ →
    Chain a b i₂ j₂ ss m n →
    Chain a b i j (⟨false, i, i₂, j, j₂⟩ :: ss) m n

lemma Chain.append (front : Chain a b i j ss k l) (back : Chain a b k l ts m n) :
    Chain a b i j (ss ++ ts) m n := by
  induction front with
  | nil => exact back
  | keep filled same _ ih => exact .keep filled same (ih back)
  | change first second filled _ ih => exact .change first second filled (ih back)

lemma Chain.split (chain : Chain a b i j (ss ++ ts) m n) :
    ∃ k l, Chain a b i j ss k l ∧ Chain a b k l ts m n := by
  induction ss generalizing i j with
  | nil => exact ⟨i, j, .nil, chain⟩
  | cons s ss ih =>
    cases chain with
    | keep filled same rest =>
      obtain ⟨k, l, front, back⟩ := ih rest
      exact ⟨k, l, .keep filled same front, back⟩
    | change first second filled rest =>
      obtain ⟨k, l, front, back⟩ := ih rest
      exact ⟨k, l, .change first second filled front, back⟩

lemma Chain.le (chain : Chain a b i j ss m n) (inside : i ≤ a.length ∧ j ≤ b.length) :
    (i ≤ m ∧ m ≤ a.length) ∧ j ≤ n ∧ n ≤ b.length := by
  induction chain with
  | nil => omega
  | keep filled same _ ih =>
    have first := same.first
    have second := same.second
    omega
  | change first second filled _ ih => omega

/-! ## The stretches of two lists -/

/-- Of two neighbours, one is equal. -/
def Alternate : List Stretch → Prop :=
  List.IsChain fun s t => s.equal = true ∨ t.equal = true

lemma stretchesFrom_cons (i j : Nat) (r : Run) (rs : List Run) :
    stretchesFrom i j (r :: rs) =
      (if i < r.i ∨ j < r.j then [⟨false, i, r.i, j, r.j⟩] else []) ++
        ((if r.size = 0 then [] else [⟨true, r.i, r.i + r.size, r.j, r.j + r.size⟩]) ++
          stretchesFrom (r.i + r.size) (r.j + r.size) rs) := by
  rw [stretchesFrom, List.append_assoc]
  simp only [Bool.or_eq_true, decide_eq_true_eq]

/-- What lies before a run is a change, unless there is nothing. -/
lemma chain_before {r : Run} (first : i ≤ r.i ∧ r.i ≤ a.length) (second : j ≤ r.j ∧ r.j ≤ b.length) :
    Chain a b i j (if i < r.i ∨ j < r.j then [⟨false, i, r.i, j, r.j⟩] else []) r.i r.j := by
  split
  · rename_i gap
    exact .change first second gap .nil
  · obtain rfl : i = r.i := by omega
    obtain rfl : j = r.j := by omega
    exact .nil

lemma chain_stretchesFrom {rs : List Run} (order : InOrder a b i a.length j b.length rs)
    (inside : i ≤ a.length ∧ j ≤ b.length) :
    Chain a b i j (stretchesFrom i j (rs ++ [⟨a.length, b.length, 0⟩])) a.length b.length := by
  induction rs generalizing i j with
  | nil =>
    rw [List.nil_append, stretchesFrom_cons, if_pos rfl, stretchesFrom, List.nil_append, List.append_nil]
    exact chain_before (r := ⟨a.length, b.length, 0⟩) ⟨inside.1, Nat.le_refl _⟩
      ⟨inside.2, Nat.le_refl _⟩
  | cons r rs ih =>
    obtain ⟨filled, fits, rest⟩ := order
    have first := fits.inFirst
    have second := fits.inSecond
    rw [List.cons_append, stretchesFrom_cons, if_neg (Nat.pos_iff_ne_zero.1 filled)]
    refine (chain_before (by omega) (by omega)).append (.keep (by omega) fits.same_lines ?_)
    exact ih rest (by omega)

lemma alternate_stretchesFrom {rs : List Run} (order : InOrder a b i a.length j b.length rs) :
    Alternate (stretchesFrom i j (rs ++ [⟨a.length, b.length, 0⟩])) := by
  induction rs generalizing i j with
  | nil =>
    rw [List.nil_append, stretchesFrom_cons, if_pos rfl, stretchesFrom, List.nil_append, List.append_nil]
    split
    · exact .singleton _
    · exact .nil
  | cons r rs ih =>
    obtain ⟨filled, fits, rest⟩ := order
    rw [List.cons_append, stretchesFrom_cons, if_neg (Nat.pos_iff_ne_zero.1 filled)]
    have behind : Alternate ([⟨true, r.i, r.i + r.size, r.j, r.j + r.size⟩] ++
        stretchesFrom (r.i + r.size) (r.j + r.size) (rs ++ [⟨a.length, b.length, 0⟩])) :=
      List.isChain_cons.2 ⟨fun _ _ => .inl rfl, ih rest⟩
    split
    · exact List.isChain_cons.2 ⟨fun t first => .inr (by cases first; rfl), behind⟩
    · exact behind

/-- The stretches of two lists lead from their start to their ends. -/
theorem chain_stretches (a b : List Text) : Chain a b 0 0 (stretches a b) a.length b.length := by
  obtain ⟨rs, whole, order⟩ := inOrder_runs a b
  rw [stretches, whole]
  exact chain_stretchesFrom order ⟨Nat.zero_le _, Nat.zero_le _⟩

lemma alternate_stretches (a b : List Text) : Alternate (stretches a b) := by
  obtain ⟨rs, whole, order⟩ := inOrder_runs a b
  rw [stretches, whole]
  exact alternate_stretchesFrom order

/-! ## Context -/

lemma tail_eq (same : Same a b i i₂ j j₂) :
    (Stretch.mk true i i₂ j j₂).tail =
      ⟨true, i + (i₂ - i - context), i₂, j + (i₂ - i - context), j₂⟩ := by
  obtain ⟨-, size, first, second⟩ := same
  rw [Stretch.tail, Stretch.mk.injEq]
  refine ⟨rfl, ?_, rfl, ?_, rfl⟩
  · dsimp only
    omega
  · dsimp only
    omega

lemma head_eq (same : Same a b i i₂ j j₂) :
    (Stretch.mk true i i₂ j j₂).head =
      ⟨true, i, i + min (i₂ - i) context, j, j + min (i₂ - i) context⟩ := by
  obtain ⟨-, size, first, second⟩ := same
  rw [Stretch.head, Stretch.mk.injEq]
  refine ⟨rfl, rfl, ?_, rfl, ?_⟩
  · dsimp only
    omega
  · dsimp only
    omega

/-- The last lines of an equal stretch lead to where it leads, and before them all is equal. -/
lemma chain_tail (filled : i < i₂) (same : Same a b i i₂ j j₂) :
    Same a b i (i + (i₂ - i - context)) j (j + (i₂ - i - context)) ∧
      Chain a b (i + (i₂ - i - context)) (j + (i₂ - i - context))
        [(Stretch.mk true i i₂ j j₂).tail] i₂ j₂ := by
  have short : i₂ - i - context ≤ i₂ - i := Nat.sub_le _ _
  rw [tail_eq same]
  exact ⟨same.take short, .keep (by rw [context]; omega) (same.drop short) .nil⟩

/-- The first lines of an equal stretch come from where it comes, and behind them all is equal. -/
lemma chain_head (filled : i < i₂) (same : Same a b i i₂ j j₂) :
    Chain a b i j [(Stretch.mk true i i₂ j j₂).head] (i + min (i₂ - i) context)
        (j + min (i₂ - i) context) ∧
      Same a b (i + min (i₂ - i) context) i₂ (j + min (i₂ - i) context) j₂ := by
  have short : min (i₂ - i) context ≤ i₂ - i := Nat.min_le_left _ _
  rw [head_eq same]
  exact ⟨.keep (by rw [context]; omega) (same.take short) .nil, same.drop short⟩

lemma chain_trimFirst (chain : Chain a b i j ss m n) (inside : i ≤ a.length ∧ j ≤ b.length) :
    ∃ i₁ j₁, Same a b i i₁ j j₁ ∧ Chain a b i₁ j₁ (trimFirst ss) m n := by
  cases chain with
  | nil => exact ⟨i, j, .refl inside.1 inside.2, .nil⟩
  | keep filled same rest =>
    obtain ⟨before, tail⟩ := chain_tail filled same
    exact ⟨_, _, before, tail.append rest⟩
  | change first second filled rest =>
    exact ⟨i, j, .refl inside.1 inside.2, .change first second filled rest⟩

lemma trimLast_concat (ss : List Stretch) (s : Stretch) :
    trimLast (ss ++ [s]) = ss ++ [if s.equal then s.head else s] := by
  rw [trimLast, List.getLast?_concat]
  dsimp only
  rw [List.dropLast_concat]

lemma chain_trimLast (chain : Chain a b i j ss m n) (inside : i ≤ a.length ∧ j ≤ b.length) :
    ∃ k l, Chain a b i j (trimLast ss) k l ∧ Same a b k m l n := by
  have bounds := chain.le inside
  rcases List.eq_nil_or_concat ss with rfl | ⟨front, s, rfl⟩
  · cases chain
    exact ⟨_, _, .nil, .refl inside.1 inside.2⟩
  · rw [List.concat_eq_append] at chain ⊢
    rw [trimLast_concat]
    obtain ⟨k, l, before, last⟩ := chain.split
    cases last with
    | keep filled same rest =>
      cases rest
      obtain ⟨head, behind⟩ := chain_head filled same
      exact ⟨_, _, before.append head, behind⟩
    | change first second filled rest =>
      cases rest
      exact ⟨m, n, before.append (.change first second filled .nil),
        .refl bounds.1.2 bounds.2.2⟩

/-! ## Groups -/

/-- Groups of stretches from line `i` of the first list and line `j` of the second on: before each group
and behind the last one the lists are the same. -/
inductive Hunks (a b : List Text) : Nat → Nat → List (List Stretch) → Prop where
  | nil {i j : Nat} :
    Same a b i a.length j b.length →
    Hunks a b i j []
  | cons {i i₁ i₂ j j₁ j₂ : Nat} {g : List Stretch} {gs : List (List Stretch)} :
    Same a b i i₁ j j₁ → g ≠ [] → Chain a b i₁ j₁ g i₂ j₂ →
    Hunks a b i₂ j₂ gs →
    Hunks a b i j (g :: gs)

lemma hunks_groupsFrom {group : List Stretch} (gap : Same a b i i₁ j j₁)
    (chain : Chain a b i₁ j₁ (group ++ ss) m n) (last : Same a b m a.length n b.length) :
    Hunks a b i j (groupsFrom group ss) := by
  induction ss generalizing group i j i₁ j₁ with
  | nil =>
    rw [List.append_nil] at chain
    rw [groupsFrom]
    split
    · rename_i shows
      refine .cons gap ?_ chain (.nil last)
      rintro rfl
      cases shows
    · rename_i hidden
      refine .nil (gap.trans ?_)
      cases chain with
      | nil => exact last
      | keep filled same rest =>
        cases rest with
        | nil => exact same.trans last
        | keep => exact absurd rfl hidden
        | change => exact absurd rfl hidden
      | change first second filled rest =>
        cases rest with
        | nil => exact absurd rfl hidden
        | keep => exact absurd rfl hidden
        | change => exact absurd rfl hidden
  | cons s ss ih =>
    rw [groupsFrom]
    split
    · rename_i long
      rw [Bool.and_eq_true, decide_eq_true_eq] at long
      obtain ⟨k, l, front, back⟩ := chain.split
      cases back with
      | keep filled same rest =>
        rename_i p q
        obtain ⟨head, -⟩ := chain_head filled same
        obtain ⟨before, tail⟩ := chain_tail filled same
        refine .cons gap (by simp) (front.append head) (ih ?_ (tail.append rest))
        -- between the two ends of a long stretch
        dsimp only at long
        have between := before.drop (k := context) (by rw [context] at long ⊢; omega)
        rwa [Nat.min_eq_right (by rw [context] at long ⊢; omega)]
      | change => cases long.1
    · rw [List.append_cons] at chain
      exact ih gap chain

/-- The groups show all changes: before, between and behind them the lists are the same. -/
theorem hunks_groups (a b : List Text) : Hunks a b 0 0 (groups a b) := by
  have start : 0 ≤ a.length ∧ 0 ≤ b.length := ⟨Nat.zero_le _, Nat.zero_le _⟩
  obtain ⟨i, j, before, chain⟩ := chain_trimFirst (chain_stretches a b) start
  obtain ⟨k, l, chain, behind⟩ := chain_trimLast chain ⟨before.first.2, before.second.2⟩
  exact hunks_groupsFrom before chain behind

lemma ne_of_changes {t : Stretch} (changes : s.equal = false) (equal : t.equal = true) : s ≠ t := by
  rintro rfl
  rw [changes] at equal
  cases equal

lemma mem_trimFirst (changes : s.equal = false) : s ∈ trimFirst ss ↔ s ∈ ss := by
  cases ss with
  | nil => exact Iff.rfl
  | cons t ss =>
    rw [trimFirst, List.mem_cons, List.mem_cons]
    split
    · rename_i equal
      simp [ne_of_changes changes equal, ne_of_changes (t := t.tail) changes equal]
    · exact Iff.rfl

lemma mem_trimLast (changes : s.equal = false) : s ∈ trimLast ss ↔ s ∈ ss := by
  rcases List.eq_nil_or_concat ss with rfl | ⟨front, t, rfl⟩
  · exact Iff.rfl
  · rw [List.concat_eq_append, trimLast_concat, List.mem_append, List.mem_append]
    split
    · rename_i equal
      simp [ne_of_changes changes equal, ne_of_changes (t := t.head) changes equal]
    · exact Iff.rfl

lemma mem_groupsFrom {group : List Stretch} (changes : s.equal = false) :
    (∃ g ∈ groupsFrom group ss, s ∈ g) ↔ s ∈ group ++ ss := by
  induction ss generalizing group with
  | nil =>
    rw [groupsFrom, List.append_nil]
    split
    · simp
    · rename_i hidden
      constructor
      · rintro ⟨g, mem, -⟩
        cases mem
      · intro mem
        -- a group without changes is empty or one equal stretch
        rcases group with _ | ⟨t, _ | ⟨u, rest⟩⟩
        · cases mem
        · obtain rfl := List.mem_singleton.1 mem
          simp [showsChange, changes] at hidden
        · exact absurd rfl hidden
  | cons t ss ih =>
    rw [groupsFrom]
    split
    · rename_i long
      rw [Bool.and_eq_true] at long
      have apart := ne_of_changes changes long.1
      have apartHead := ne_of_changes (t := t.head) changes long.1
      have apartTail := ne_of_changes (t := t.tail) changes long.1
      rw [List.exists_mem_cons_iff, ih]
      simp [apart, apartHead, apartTail]
    · rw [ih, List.append_assoc]
      rfl

/-- The groups hold the changes of the two lists, and no others. -/
lemma mem_groups_iff (changes : s.equal = false) :
    (∃ g ∈ groups a b, s ∈ g) ↔ s ∈ stretches a b := by
  rw [groups, mem_groupsFrom changes, List.nil_append, mem_trimLast changes, mem_trimFirst changes]

/-- Two equal lists have no groups. -/
lemma groups_self (a : List Text) : groups a a = [] := by
  rw [groups, stretches, runs_self]
  by_cases empty : a.length = 0
  · rw [if_pos empty, empty]
    rfl
  · have single : stretchesFrom 0 0 ([⟨0, 0, a.length⟩] ++ [⟨a.length, a.length, 0⟩]) =
        [⟨true, 0, a.length, 0, a.length⟩] := by
      simp [stretchesFrom, empty]
    have shown : trimLast (trimFirst [⟨true, 0, a.length, 0, a.length⟩]) =
        [(Stretch.mk true 0 a.length 0 a.length).tail.head] :=
      trimLast_concat [] _
    rw [if_neg empty, single, shown, groupsFrom, if_neg]
    · rfl
    · -- what is left of the whole is context
      rw [Bool.and_eq_true, decide_eq_true_eq, not_and]
      intro _
      dsimp only [Stretch.head, Stretch.tail, context]
      omega

/-! ## Lines without a line feed -/

/-- A line that ends in a line feed. -/
def Fed (line : Text) : Prop :=
  line.getLast? = some '\n'

/-- Lines of which only the last may lack a line feed. -/
def Closed (ls : List Text) : Prop :=
  ls.Pairwise fun line _ => Fed line

/-- Up to line `i` all lines end in line feeds. -/
def FedUpTo (ls : List Text) (i : Nat) : Prop :=
  ∀ line ∈ ls.take i, Fed line

/-- All that a stretch shows, and what is before it, ends in line feeds. -/
def Settled (a b : List Text) (s : Stretch) : Prop :=
  FedUpTo a s.i₂ ∧ FedUpTo b s.j₂

lemma Closed.fedUpTo {ls : List Text} (closed : Closed ls) (inside : i < ls.length) :
    FedUpTo ls i := by
  unfold Closed at closed
  rw [← List.take_append_drop i ls, List.pairwise_append] at closed
  have behind : ls[i] ∈ ls.drop i := List.mem_drop_iff_getElem.2 ⟨0, by omega, rfl⟩
  exact fun line mem => closed.2.2 line mem _ behind

/-- If the last line before `i` ends in a line feed, then all do. -/
lemma Closed.fedUpTo_succ {ls : List Text} (closed : Closed ls) {line : Text}
    (stands : ls[i]? = some line) (fed : Fed line) : FedUpTo ls (i + 1) := by
  have inside := (List.getElem?_eq_some_iff.1 stands).1
  intro l mem
  rw [List.take_add_one, stands, List.mem_append] at mem
  rcases mem with before | last
  · exact closed.fedUpTo inside l before
  · obtain rfl : l = line := by simpa using last
    exact fed

/-- Where something of either list follows an equal stretch, the lines of the stretch end in line
feeds: its last lines are the same, and one of them is not the last of its list. -/
lemma settled_of_same (first : Closed a) (second : Closed b) (filled : i < i₂)
    (same : Same a b i i₂ j j₂) (more : i₂ < a.length ∨ j₂ < b.length) :
    FedUpTo a i₂ ∧ FedUpTo b j₂ := by
  obtain ⟨lines, size, left, right⟩ := same
  have last := lines (i₂ - i - 1) (by omega)
  obtain ⟨p, rfl⟩ : ∃ p, i₂ = p + 1 := ⟨i₂ - 1, by omega⟩
  obtain ⟨q, rfl⟩ : ∃ q, j₂ = q + 1 := ⟨j₂ - 1, by omega⟩
  rw [show i + (p + 1 - i - 1) = p by omega, show j + (p + 1 - i - 1) = q by omega] at last
  obtain ⟨line, here⟩ : ∃ line, a[p]? = some line := ⟨_, List.getElem?_eq_getElem (by omega)⟩
  have there : b[q]? = some line := last ▸ here
  have fed : Fed line := by
    rcases more with more | more
    · refine first.fedUpTo more line ?_
      rw [List.take_add_one, here]
      simp
    · refine second.fedUpTo more line ?_
      rw [List.take_add_one, there]
      simp
  exact ⟨first.fedUpTo_succ here fed, second.fedUpTo_succ there fed⟩

lemma Chain.lt_of_ne_nil (chain : Chain a b i j ss a.length b.length) (nonempty : ss ≠ []) :
    i < a.length ∨ j < b.length := by
  cases chain with
  | nil => exact absurd rfl nonempty
  | keep filled same rest =>
    have first := same.first
    omega
  | change first second filled rest => omega

/-- Every stretch but the last is settled. -/
lemma pairwise_settled (first : Closed a) (second : Closed b)
    (chain : Chain a b i j ss a.length b.length) (alternate : Alternate ss) :
    ss.Pairwise fun s _ => Settled a b s := by
  induction ss generalizing i j with
  | nil => exact .nil
  | cons s ss ih =>
    obtain ⟨links, rest⟩ := List.isChain_cons.1 alternate
    cases chain with
    | keep filled same behind =>
      refine .cons (fun t mem => ?_) (ih behind rest)
      exact settled_of_same first second filled same (behind.lt_of_ne_nil (List.ne_nil_of_mem mem))
    | change left right filled behind =>
      refine .cons (fun t mem => ?_) (ih behind rest)
      cases behind with
      | nil => cases mem
      | keep more same _ =>
        have left := same.first
        have right := same.second
        have size := same.size
        exact ⟨first.fedUpTo (by dsimp only; omega), second.fedUpTo (by dsimp only; omega)⟩
      | change =>
        -- no change follows a change
        rcases links _ rfl with equal | equal
        · cases equal
        · cases equal

lemma pairwise_trimFirst (settled : ss.Pairwise fun s _ => Settled a b s) :
    (trimFirst ss).Pairwise fun s _ => Settled a b s := by
  cases ss with
  | nil => exact .nil
  | cons s ss =>
    obtain ⟨here, later⟩ := List.pairwise_cons.1 settled
    refine .cons (fun t mem => ?_) later
    split
    · exact here t mem
    · exact here t mem

lemma pairwise_trimLast (settled : ss.Pairwise fun s _ => Settled a b s) :
    (trimLast ss).Pairwise fun s _ => Settled a b s := by
  rcases List.eq_nil_or_concat ss with rfl | ⟨front, s, rfl⟩
  · exact .nil
  · rw [List.concat_eq_append, List.pairwise_append] at settled
    rw [List.concat_eq_append, trimLast_concat, List.pairwise_append]
    refine ⟨settled.1, List.pairwise_singleton _ _, fun t mem _ _ => ?_⟩
    exact settled.2.2 t mem s (List.mem_singleton_self s)

lemma pairwise_groupsFrom {group : List Stretch} (first : Closed a) (second : Closed b)
    (chain : Chain a b i j (group ++ ss) m n)
    (settled : (group ++ ss).Pairwise fun s _ => Settled a b s) :
    (groupsFrom group ss).flatten.Pairwise fun s _ => Settled a b s := by
  induction ss generalizing group i j with
  | nil =>
    rw [List.append_nil] at settled
    rw [groupsFrom]
    split
    · rwa [List.flatten_singleton]
    · exact .nil
  | cons s ss ih =>
    rw [groupsFrom]
    split
    · rename_i long
      rw [Bool.and_eq_true, decide_eq_true_eq] at long
      obtain ⟨k, l, front, back⟩ := chain.split
      rw [List.pairwise_append] at settled
      cases back with
      | @keep _ i₂ _ j₂ _ _ _ filled same rest =>
        obtain ⟨-, tail⟩ := chain_tail filled same
        have later : (groupsFrom [(Stretch.mk true k i₂ l j₂).tail] ss).flatten.Pairwise
            fun s _ => Settled a b s :=
          ih (tail.append rest) (pairwise_trimFirst settled.2.1)
        -- the stretch is longer than its first lines, so these are settled
        have head : Settled a b (Stretch.mk true k i₂ l j₂).head := by
          have left := same.first
          have right := same.second
          have size := same.size
          dsimp only [context] at long
          rw [head_eq same]
          refine ⟨first.fedUpTo ?_, second.fedUpTo ?_⟩
          · dsimp only [context]
            omega
          · dsimp only [context]
            omega
        rw [List.flatten_cons, List.append_assoc, List.pairwise_append]
        refine ⟨settled.1, .cons (fun _ _ => head) later, fun t mem _ _ => ?_⟩
        exact settled.2.2 t mem _ List.mem_cons_self
      | change => cases long.1
    · rw [List.append_cons] at chain settled
      exact ih chain settled

/-- Of all stretches in groups, every one but the last is settled. -/
theorem pairwise_settled_groups (first : Closed a) (second : Closed b) :
    (groups a b).flatten.Pairwise fun s _ => Settled a b s := by
  have start : 0 ≤ a.length ∧ 0 ≤ b.length := ⟨Nat.zero_le _, Nat.zero_le _⟩
  have whole := pairwise_settled first second (chain_stretches a b) (alternate_stretches a b)
  obtain ⟨i, j, before, chain⟩ := chain_trimFirst (chain_stretches a b) start
  obtain ⟨k, l, chain, -⟩ := chain_trimLast chain ⟨before.first.2, before.second.2⟩
  rw [← List.nil_append (trimLast _)] at chain
  exact pairwise_groupsFrom first second chain
    (pairwise_trimLast (pairwise_trimFirst whole))

end Phrasebook.LineDiff
