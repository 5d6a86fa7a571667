import Phrasebook.Proofs.FedLines

/-!
# Reading a diff

A diff is applied by a machine that reads it line by line. The head of a group says how many lines of both
texts the group names, and the lines of the group are checked against the first text and counted
(`Progress`, `applyDiff?`). The lines of a stretch, of a chain of stretches and of the groups of two lists
lead the machine along both lists (`run_chain`, `run_hunks`).
-/

namespace Phrasebook.LineDiff

variable {a b : List Text} {i i₁ i₂ j j₁ j₂ k m n r d : Nat} {made : List Text}
variable {ss : List Stretch} {gs : List (List Stretch)} {line : Text} {ls : List Text}

/-! ## Reading a diff -/

/-- Reads a number in decimal digits. -/
def number? (t : Text) : Option Nat :=
  if t ≠ [] ∧ t.all Char.isDigit then some (Nat.ofDigitChars 10 t 0) else none

/-- The lines of one text that the head of a group names: how many lines are before them, and how many
they are. -/
def span? (t : Text) : Option (Nat × Nat) :=
  match t.splitOn ',' with
  | [first] => (number? first).map fun n => (n - 1, 1)
  | [first, length] =>
    (number? first).bind fun n => (number? length).map fun l => (if l = 0 then n else n - 1, l)
  | _ => none

/-- The lines of both texts that the head of a group names. -/
def spans? (line : Text) : Option ((Nat × Nat) × Nat × Nat) :=
  match line.splitOn ' ' with
  | [opening, first, second, closing] =>
    if opening = ['@', '@'] ∧ first.head? = some '-' ∧ second.head? = some '+' ∧
        closing = ['@', '@', '\n'] then
      (span? first.tail).bind fun f => (span? second.tail).map fun s => (f, s)
    else none
  | _ => none

/-- The state of applying a diff to the lines of a text. -/
structure Progress where
  /-- How many lines of the text are used up. -/
  used : Nat
  /-- The lines made. -/
  made : List Text
  /-- How many lines of the text the group still names. -/
  removals : Nat
  /-- How many lines of the result the group still names. -/
  additions : Nat

namespace Progress

/-- Nothing is read yet. -/
def start : Progress := ⟨0, [], 0, 0⟩

/-- The head of a group is read: the lines before the group are kept. -/
def enter (a : List Text) (p : Progress) (spans : (Nat × Nat) × Nat × Nat) : Option Progress :=
  let ((first, removals), (second, additions)) := spans
  if p.used ≤ first ∧ first ≤ a.length ∧ p.made.length + (first - p.used) = second then
    some ⟨first, p.made ++ (a.drop p.used).take (first - p.used), removals, additions⟩
  else none

/-- The next line of the text is used up; it must be the line that the diff shows. -/
def remove (a : List Text) (p : Progress) (line : Text) : Option Progress :=
  if 0 < p.removals ∧ a[p.used]? = some line then
    some { p with used := p.used + 1, removals := p.removals - 1 }
  else none

/-- A line is added to the result. -/
def add (p : Progress) (line : Text) : Option Progress :=
  if 0 < p.additions then
    some { p with made := p.made ++ [line], additions := p.additions - 1 }
  else none

/-- One line of a diff is read. -/
def step (a : List Text) (p : Progress) (line : Text) : Option Progress :=
  if p.removals = 0 ∧ p.additions = 0 then (spans? line).bind (p.enter a)
  else
    match line with
    | ' ' :: shown => (p.remove a shown).bind (·.add shown)
    | '-' :: shown => p.remove a shown
    | '+' :: shown => p.add shown
    | _ => none

/-- Lines of a diff are read one after another. -/
def run (a : List Text) (p : Progress) (ls : List Text) : Option Progress :=
  ls.foldlM (step a) p

/-- The diff is read: the lines behind the last group are kept. -/
def result (a : List Text) (p : Progress) : Option Text :=
  if p.removals = 0 ∧ p.additions = 0 then some (p.made ++ a.drop p.used).flatten else none

end Progress

/-- Applies a diff to a text. An empty diff changes nothing; otherwise two lines name the files, and
groups of changes follow. -/
def applyDiff? (diff text : Text) : Option Text :=
  match fedLines diff with
  | [] => some text
  | before :: after :: ls =>
    if "--- ".toList.isPrefixOf before && "+++ ".toList.isPrefixOf after then
      (Progress.start.run (fedLines text) ls).bind (Progress.result (fedLines text))
    else none
  | _ => none

/-- A number is read back from its digits. -/
lemma number?_ofNat (n : Nat) : number? (Text.ofNat n) = some n := by
  have digits : (Text.ofNat n).all Char.isDigit = true :=
    List.all_eq_true.2 fun c mem => Nat.isDigit_of_mem_toDigits (by decide) (by decide) mem
  rw [number?, if_pos ⟨Nat.toDigits_ne_nil, digits⟩, Text.ofNat,
    Nat.ofDigitChars_toDigits (by decide) (by decide)]

/-- A number is written in digits only. -/
lemma not_mem_ofNat {c : Char} (other : c.isDigit = false) (n : Nat) : c ∉ Text.ofNat n := by
  intro mem
  rw [Nat.isDigit_of_mem_toDigits (by decide) (by decide) mem] at other
  cases other

/-- A range is written in digits and commas. -/
lemma not_mem_rangeText {c : Char} (other : c.isDigit = false) (comma : c ≠ ',') (i j : Nat) :
    c ∉ rangeText i j := by
  rw [rangeText]
  split
  · exact not_mem_ofNat other _
  · rw [List.mem_append, List.mem_cons]
    rintro (mem | rfl | mem)
    · exact not_mem_ofNat other _ mem
    · exact comma rfl
    · exact not_mem_ofNat other _ mem

/-- A range is read back as its start and its length. -/
lemma span?_rangeText (i j : Nat) : span? (rangeText i j) = some (i, j - i) := by
  have comma (n : Nat) : ',' ∉ Text.ofNat n := not_mem_ofNat rfl n
  rw [rangeText]
  split
  · rename_i one
    rw [span?, List.splitOn_eq_singleton (comma _)]
    simp [number?_ofNat, one]
  · rw [span?, List.splitOn_append_cons_self_of_not_mem (comma _), List.splitOn_eq_singleton (comma _)]
    simp only [number?_ofNat, Option.bind_some, Option.map_some]
    split
    · rfl
    · rw [Nat.add_sub_cancel]

/-- The head of a group. -/
def headLine (i₁ i₂ j₁ j₂ : Nat) : Text :=
  "@@ -".toList ++ rangeText i₁ i₂ ++ " +".toList ++ rangeText j₁ j₂ ++ " @@\n".toList

/-- A head is four words. -/
lemma headLine_eq (i₁ i₂ j₁ j₂ : Nat) :
    headLine i₁ i₂ j₁ j₂ =
      [' '].intercalate [['@', '@'], '-' :: rangeText i₁ i₂, '+' :: rangeText j₁ j₂, ['@', '@', '\n']] := by
  unfold headLine
  rw [List.append_assoc, List.append_assoc, List.append_assoc]
  rfl

/-- The ranges of a head are read back. -/
lemma spans?_headLine (i₁ i₂ j₁ j₂ : Nat) :
    spans? (headLine i₁ i₂ j₁ j₂) = some ((i₁, i₂ - i₁), j₁, j₂ - j₁) := by
  have blank (i j : Nat) : ' ' ∉ rangeText i j := not_mem_rangeText rfl (by decide) i j
  have pieces : (headLine i₁ i₂ j₁ j₂).splitOn ' ' =
      [['@', '@'], '-' :: rangeText i₁ i₂, '+' :: rangeText j₁ j₂, ['@', '@', '\n']] := by
    rw [headLine_eq, List.splitOn_intercalate]
    · simp [blank]
    · exact List.cons_ne_nil _ _
  rw [spans?, pieces]
  dsimp only [List.tail_cons]
  rw [if_pos ⟨rfl, rfl, rfl, rfl⟩, span?_rangeText, span?_rangeText]
  rfl

/-- A head is a line with a line feed. -/
lemma isLine_headLine (i₁ i₂ j₁ j₂ : Nat) :
    IsLine (headLine i₁ i₂ j₁ j₂) ∧ Fed (headLine i₁ i₂ j₁ j₂) := by
  have feed (i j : Nat) : '\n' ∉ rangeText i j := not_mem_rangeText rfl (by decide) i j
  have split : headLine i₁ i₂ j₁ j₂ =
      ("@@ -".toList ++ rangeText i₁ i₂ ++ " +".toList ++ rangeText j₁ j₂ ++ " @@".toList) ++ ['\n'] :=
    (List.append_assoc _ " @@".toList ['\n']).symm
  rw [split]
  refine ⟨⟨by simp, ?_⟩, by rw [Fed, List.getLast?_concat]⟩
  rw [List.dropLast_concat]
  simp [feed]

/-- What is read as a head begins as one. -/
lemma head?_of_spans? {spans : (Nat × Nat) × Nat × Nat} (head : spans? line = some spans) :
    line.head? = some '@' := by
  rw [spans?] at head
  split at head
  · rename_i opening first second closing pieces
    split at head
    · rename_i shape
      have joined : [' '].intercalate (line.splitOn ' ') = line := List.intercalate_splitOn ' '
      rw [← joined, pieces, shape.1]
      rfl
    · cases head
  · cases head

/-! ## Groups that are applied -/

namespace Progress

variable {p q : Progress}

/-- A run reads its first line and goes on. -/
lemma run_cons : p.run a (line :: ls) = (p.step a line).bind fun q => q.run a ls := rfl

/-- A run over two parts goes on from where the first leads. -/
lemma run_append (xs ys : List Text) :
    p.run a (xs ++ ys) = (p.run a xs).bind fun q => q.run a ys :=
  List.foldlM_append

/-- Where no lines are left to a group, the head of the next is read. -/
lemma step_of_done (done : p.removals = 0 ∧ p.additions = 0) :
    p.step a line = (spans? line).bind (p.enter a) :=
  if_pos done

/-- The next line of the text is used up. -/
lemma remove_next (stands : a[i]? = some line) :
    remove a ⟨i, made, r + 1, d⟩ line = some ⟨i + 1, made, r, d⟩ :=
  if_pos ⟨Nat.succ_pos r, stands⟩

/-- A line is added while the group names more. -/
lemma add_next : add ⟨i, made, r, d + 1⟩ line = some ⟨i, made ++ [line], r, d⟩ :=
  if_pos (Nat.succ_pos d)

/-- A removed line uses up a line of the text. -/
lemma step_removal (stands : a[i]? = some line) :
    step a ⟨i, made, r + 1, d⟩ ('-' :: line) = some ⟨i + 1, made, r, d⟩ := by
  rw [step, if_neg fun done => Nat.succ_ne_zero r done.1]
  exact remove_next stands

/-- An added line goes to the result. -/
lemma step_addition : step a ⟨i, made, r, d + 1⟩ ('+' :: line) = some ⟨i, made ++ [line], r, d⟩ := by
  rw [step, if_neg fun done => Nat.succ_ne_zero d done.2]
  exact add_next

/-- A line that both texts have is used up and added. -/
lemma step_context (stands : a[i]? = some line) :
    step a ⟨i, made, r + 1, d + 1⟩ (' ' :: line) = some ⟨i + 1, made ++ [line], r, d⟩ := by
  rw [step, if_neg fun done => Nat.succ_ne_zero d done.2]
  simp only [remove_next stands, Option.bind_some]
  exact add_next

/-- A line that is not the next one of the text cannot be removed. -/
lemma step_removal_eq_none (other : a[p.used]? ≠ some line) (more : 0 < p.removals) :
    p.step a ('-' :: line) = none := by
  rw [step, if_neg (by omega)]
  exact if_neg fun ⟨_, stands⟩ => other stands

end Progress

/-- Lines `i` to `j` of a list, each with a mark in front of it. -/
def markedLines (mark : Char) (ls : List Text) (i j : Nat) : List Text :=
  ((ls.drop i).take (j - i)).map (mark :: ·)

/-- The lines that show a stretch. -/
def Stretch.lines (a b : List Text) (s : Stretch) : List Text :=
  if s.equal then markedLines ' ' a s.i₁ s.i₂
  else markedLines '-' a s.i₁ s.i₂ ++ markedLines '+' b s.j₁ s.j₂

/-- The lines that show a group. -/
def groupLines (a b : List Text) (group : List Stretch) : List Text :=
  match group.head?, group.getLast? with
  | some first, some last =>
    headLine first.i₁ last.i₂ first.j₁ last.j₂ :: group.flatMap (Stretch.lines a b)
  | _, _ => []

/-- What is written with marks is made of the marked lines. -/
lemma marked_eq_flatten (mark : Char) (ls : List Text) (i j : Nat) :
    marked mark ls i j = (markedLines mark ls i j).flatten :=
  List.flatMap_def

/-- What is written for a stretch is made of its lines. -/
lemma render_eq_flatten (a b : List Text) (s : Stretch) : s.render a b = (s.lines a b).flatten := by
  rw [Stretch.render, Stretch.lines]
  split
  · exact marked_eq_flatten ..
  · rw [List.flatten_append, marked_eq_flatten, marked_eq_flatten]

/-- Texts written one after another are made of all their lines. -/
lemma flatMap_flatten {α : Type} {f : α → Text} {g : α → List Text} (same : ∀ x, f x = (g x).flatten)
    (xs : List α) : xs.flatMap f = (xs.flatMap g).flatten := by
  induction xs with
  | nil => rfl
  | cons x xs ih => rw [List.flatMap_cons, List.flatMap_cons, List.flatten_append, same, ih]

/-- What is written for a group is made of its lines. -/
lemma renderGroup_eq_flatten (a b : List Text) (g : List Stretch) :
    renderGroup a b g = (groupLines a b g).flatten := by
  rw [renderGroup, groupLines]
  rcases g.head? with _ | first
  · rfl
  · rcases g.getLast? with _ | last
    · rfl
    · dsimp only
      rw [List.flatten_cons, ← flatMap_flatten (render_eq_flatten a b)]
      rfl

/-- The first of some marked lines. -/
lemma markedLines_succ (mark : Char) (inside : i < ls.length) (k : Nat) :
    markedLines mark ls i (i + (k + 1)) =
      (mark :: ls[i]) :: markedLines mark ls (i + 1) (i + 1 + k) := by
  rw [markedLines, Nat.add_sub_cancel_left, List.drop_eq_getElem_cons inside, List.take_succ_cons,
    List.map_cons, markedLines, Nat.add_sub_cancel_left]

/-- An empty range has no lines. -/
lemma markedLines_self (mark : Char) (ls : List Text) (i : Nat) : markedLines mark ls i i = [] := by
  rw [markedLines, Nat.sub_self]
  rfl

open Progress

/-- Removed lines lead the machine along the first list. -/
lemma run_removals (inside : i + k ≤ a.length) :
    run a ⟨i, made, k + r, d⟩ (markedLines '-' a i (i + k)) = some ⟨i + k, made, r, d⟩ := by
  induction k generalizing i with
  | zero =>
    rw [Nat.zero_add, Nat.add_zero, markedLines_self]
    rfl
  | succ k ih =>
    have here : i < a.length := by omega
    rw [markedLines_succ _ here, run_cons, Nat.add_right_comm,
      step_removal (List.getElem?_eq_getElem here), Option.bind_some, ih (by omega), Nat.add_right_comm]
    rfl

/-- Added lines lead the machine along the second list. -/
lemma run_additions (inside : j + k ≤ b.length) :
    run a ⟨i, b.take j, r, k + d⟩ (markedLines '+' b j (j + k)) = some ⟨i, b.take (j + k), r, d⟩ := by
  induction k generalizing j with
  | zero =>
    rw [Nat.zero_add, Nat.add_zero, markedLines_self]
    rfl
  | succ k ih =>
    have here : j < b.length := by omega
    rw [markedLines_succ _ here, run_cons, Nat.add_right_comm, step_addition, Option.bind_some,
      List.take_append_getElem here, ih (by omega), Nat.add_right_comm]
    rfl

/-- Lines that stay lead the machine along both lists. -/
lemma run_kept (same : Same a b i (i + k) j (j + k)) :
    run a ⟨i, b.take j, k + r, k + d⟩ (markedLines ' ' a i (i + k)) =
      some ⟨i + k, b.take (j + k), r, d⟩ := by
  induction k generalizing i j with
  | zero =>
    rw [Nat.zero_add, Nat.zero_add, Nat.add_zero, markedLines_self]
    rfl
  | succ k ih =>
    have here : i < a.length := by
      have first := same.first
      omega
    have there : j < b.length := by
      have second := same.second
      omega
    have line : a[i] = b[j] := by
      have lines := same.lines 0 (by omega)
      rwa [Nat.add_zero, Nat.add_zero, List.getElem?_eq_getElem here, List.getElem?_eq_getElem there,
        Option.some_inj] at lines
    have later : Same a b (i + 1) (i + 1 + k) (j + 1) (j + 1 + k) := by
      rw [Nat.add_right_comm, Nat.add_right_comm j]
      exact same.drop (by omega)
    rw [markedLines_succ _ here, run_cons, Nat.add_right_comm k 1 r, Nat.add_right_comm k 1 d,
      step_context (List.getElem?_eq_getElem here), Option.bind_some, line, List.take_append_getElem there,
      ih later,
      Nat.add_right_comm i, Nat.add_right_comm j]
    rfl

/-- The lines of a chain lead the machine along both lists. -/
lemma run_chain (chain : Chain a b i j ss m n) (inside : i ≤ a.length ∧ j ≤ b.length) (r d : Nat) :
    run a ⟨i, b.take j, (m - i) + r, (n - j) + d⟩ (ss.flatMap (Stretch.lines a b)) =
      some ⟨m, b.take n, r, d⟩ := by
  induction chain with
  | nil => simp [run]
  | @keep i i₂ j j₂ m n ss filled same rest ih =>
    have first := same.first
    have second := same.second
    have size := same.size
    obtain ⟨k, rfl⟩ : ∃ k, i₂ = i + k := ⟨i₂ - i, by omega⟩
    obtain rfl : j₂ = j + k := by omega
    have ends := rest.le ⟨first.2, second.2⟩
    rw [List.flatMap_cons, run_append, show (m - i) + r = k + ((m - (i + k)) + r) by omega,
      show (n - j) + d = k + ((n - (j + k)) + d) by omega]
    change (run a _ (markedLines ' ' a i (i + k))).bind _ = _
    rw [run_kept same, Option.bind_some, ih ⟨first.2, second.2⟩]
  | @change i i₂ j j₂ m n ss first second filled rest ih =>
    obtain ⟨k, rfl⟩ : ∃ k, i₂ = i + k := ⟨i₂ - i, by omega⟩
    obtain ⟨l, rfl⟩ : ∃ l, j₂ = j + l := ⟨j₂ - j, by omega⟩
    have ends := rest.le ⟨first.2, second.2⟩
    rw [List.flatMap_cons, run_append, show (m - i) + r = k + ((m - (i + k)) + r) by omega,
      show (n - j) + d = l + ((n - (j + l)) + d) by omega]
    change (run a _ (markedLines '-' a i (i + k) ++ markedLines '+' b j (j + l))).bind _ = _
    rw [run_append, run_removals first.2, Option.bind_some, run_additions second.2, Option.bind_some,
      ih ⟨first.2, second.2⟩]

/-- Equal lines that follow a common start may be taken from either list. -/
lemma Same.take_append (same : Same a b i i₁ j j₁) :
    b.take j ++ (a.drop i).take (i₁ - i) = b.take j₁ := by
  obtain ⟨lines, size, first, second⟩ := same
  have slices : (a.drop i).take (i₁ - i) = (b.drop j).take (j₁ - j) := by
    rw [← size]
    refine List.ext_getElem? fun k => ?_
    rw [List.getElem?_take, List.getElem?_take]
    split
    · rw [List.getElem?_drop, List.getElem?_drop]
      exact lines k ‹_›
    · rfl
  rw [slices, ← List.take_add, Nat.add_sub_cancel' second.1]

/-- The head of a group takes the machine over the equal lines before it. -/
lemma step_headLine (same : Same a b i i₁ j j₁) :
    step a ⟨i, b.take j, 0, 0⟩ (headLine i₁ i₂ j₁ j₂) = some ⟨i₁, b.take j₁, i₂ - i₁, j₂ - j₁⟩ := by
  have size := same.size
  have second := same.second
  rw [step_of_done ⟨rfl, rfl⟩, spans?_headLine, Option.bind_some]
  simp only [enter]
  rw [if_pos, same.take_append]
  refine ⟨same.first.1, same.first.2, ?_⟩
  rw [List.length_take]
  omega

/-- A chain starts with a stretch where the chain starts. -/
lemma Chain.head?_eq (chain : Chain a b i j ss m n) (nonempty : ss ≠ []) :
    ∃ first, ss.head? = .some first ∧ first.i₁ = i ∧ first.j₁ = j := by
  cases chain with
  | nil => exact absurd rfl nonempty
  | keep => exact ⟨_, rfl, rfl, rfl⟩
  | change => exact ⟨_, rfl, rfl, rfl⟩

/-- A chain ends with a stretch where the chain ends. -/
lemma Chain.getLast?_eq (chain : Chain a b i j ss m n) (nonempty : ss ≠ []) :
    ∃ last, ss.getLast? = .some last ∧ last.i₂ = m ∧ last.j₂ = n := by
  rcases List.eq_nil_or_concat ss with rfl | ⟨front, last, rfl⟩
  · exact absurd rfl nonempty
  · rw [List.concat_eq_append] at *
    obtain ⟨k, l, -, back⟩ := chain.split
    refine ⟨last, List.getLast?_concat, ?_⟩
    cases back with
    | keep _ _ rest =>
      cases rest
      exact ⟨rfl, rfl⟩
    | change _ _ _ rest =>
      cases rest
      exact ⟨rfl, rfl⟩

/-- The lines of a chain are a head with its ends and the lines of its stretches. -/
lemma groupLines_eq (chain : Chain a b i j ss m n) (nonempty : ss ≠ []) :
    groupLines a b ss = headLine i m j n :: ss.flatMap (Stretch.lines a b) := by
  obtain ⟨first, head, rfl, rfl⟩ := chain.head?_eq nonempty
  obtain ⟨last, back, rfl, rfl⟩ := chain.getLast?_eq nonempty
  rw [groupLines, head, back]

/-- The groups of two lists lead from the one to the other. -/
lemma run_hunks {hs : List (List Stretch)} (hunks : Hunks a b i j (gs ++ hs)) :
    ∃ m n, run a ⟨i, b.take j, 0, 0⟩ (gs.flatMap (groupLines a b)) = some ⟨m, b.take n, 0, 0⟩ ∧
      Hunks a b m n hs := by
  induction gs generalizing i j with
  | nil => exact ⟨i, j, rfl, hunks⟩
  | cons g gs ih =>
    cases hunks with
    | cons same nonempty chain rest =>
      obtain ⟨m, n, ran, later⟩ := ih rest
      refine ⟨m, n, ?_, later⟩
      have group := run_chain chain ⟨same.first.2, same.second.2⟩ 0 0
      rw [Nat.add_zero, Nat.add_zero] at group
      rw [List.flatMap_cons, groupLines_eq chain nonempty, run_append, run_cons, step_headLine same,
        Option.bind_some, group, Option.bind_some, ran]

/-- Equal lines behind the last group complete the second list. -/
lemma result_of_same (same : Same a b m a.length n b.length) :
    result a ⟨m, b.take n, 0, 0⟩ = some b.flatten := by
  have joined := same.take_append
  rw [List.take_length, ← List.length_drop, List.take_length] at joined
  rw [result, if_pos ⟨rfl, rfl⟩, joined]

end Phrasebook.LineDiff
