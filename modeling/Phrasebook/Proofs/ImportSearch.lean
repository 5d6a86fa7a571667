import Phrasebook.Proofs.CodeLines

/-!
# Looking for imports

Code imports a module if somewhere in it the word `import` is followed, before any semicolon, by a
`from` clause that names the module (`importsFrom_iff`). So a semicolon divides code into two parts
that are looked at on their own (`importsFrom_semicolon`), text without quotes behind code makes no
difference (`importsFrom_append_unquoted`), and neither does one more line feed before the end of a
line (`importsFrom_feed`).
-/

namespace Phrasebook

namespace Text

lemma after?_append (p t : Text) : after? p (p ++ t) = some t := by
  rw [after?, if_pos (List.isPrefixOf_iff_prefix.2 (List.prefix_append p t)), List.drop_left]

/-- What follows a word in a text that goes on with a new line. -/
lemma after?_append_anew {w y : Text} (unbroken : '\n' ∉ w) (anew : StartsAnew y) (x : Text) :
    after? w (x ++ y) = (after? w x).map (· ++ y) := by
  rw [after?, after?, isPrefixOf_append unbroken anew]
  split
  · rename_i front
    rw [List.drop_append_of_le_length (List.isPrefixOf_iff_prefix.1 front).length_le]
    rfl
  · rfl

end Text

namespace Script

open Text (StartsAnew)

/-- Whether an import of a module starts at a place. -/
def importAt (module rest : Text) : Bool :=
  (afterWord? "import".toList rest).any (namesModule module)

/-- Whether code imports a module. -/
def importsFrom (module code : Text) : Bool :=
  Text.fitsSomewhere (fun _ rest => importAt module rest) code

lemma hasImport_eq {statement module : Text} (named : Text.firstFit fromModule? statement = some module)
    (script : Text) : hasImport script statement = importsFrom module (Comment.strip script) := by
  simp only [hasImport, named, importsFrom, importAt]

variable {module : Text}

/-- Whether the text behind the white space of a `from` clause names a module. -/
def quotesModule (module : Text) : Text → Bool
  | q :: r => Prose.isQuote q && module.isPrefixOf r && (r.drop module.length).head?.any Prose.isQuote
  | [] => false

/-- Whether a `from` clause at a place names a module. -/
def clauseAt (module t : Text) : Bool :=
  (Text.after? "from".toList t).any fun rest => quotesModule module (rest.dropWhile isBlank)

lemma namesModule_cons (module : Text) (c : Char) (t : Text) :
    namesModule module (c :: t) = (clauseAt module (c :: t) || (c != ';' && namesModule module t)) := by
  rw [namesModule, clauseAt]
  cases Text.after? "from".toList (c :: t) with
  | none => rfl
  | some rest =>
    dsimp only [Option.any_some]
    cases rest.dropWhile isBlank with
    | nil => rfl
    | cons q r => rfl

/-! ## What is found -/

lemma not_blank_of_isQuote {q : Char} (quote : Prose.isQuote q = true) : isBlank q = false := by
  rw [Prose.isQuote, Bool.or_eq_true, beq_iff_eq, beq_iff_eq] at quote
  rcases quote with rfl | rfl <;> decide

lemma quotesModule_iff {t : Text} :
    quotesModule module t = true ↔ ∃ q q' rest, t = q :: (module ++ q' :: rest) ∧
      Prose.isQuote q = true ∧ Prose.isQuote q' = true := by
  constructor
  · intro names
    cases t with
    | nil => cases names
    | cons q r =>
      rw [quotesModule, Bool.and_eq_true, Bool.and_eq_true] at names
      obtain ⟨⟨opens, front⟩, closes⟩ := names
      obtain ⟨rest, rfl⟩ := List.isPrefixOf_iff_prefix.1 front
      rw [List.drop_left] at closes
      cases rest with
      | nil => cases closes
      | cons q' rest => exact ⟨q, q', rest, rfl, opens, closes⟩
  · rintro ⟨q, q', rest, rfl, opens, closes⟩
    rw [quotesModule, opens, List.isPrefixOf_iff_prefix.2 (List.prefix_append _ _), List.drop_left]
    exact closes

lemma clauseAt_iff {t : Text} :
    clauseAt module t = true ↔ ∃ b q q' rest, t = "from".toList ++ (b ++ q :: (module ++ q' :: rest)) ∧
      (∀ c ∈ b, isBlank c = true) ∧ Prose.isQuote q = true ∧ Prose.isQuote q' = true := by
  constructor
  · intro names
    rw [clauseAt, Option.any_eq_true] at names
    obtain ⟨rest, found, names⟩ := names
    obtain ⟨q, q', behind, split, opens, closes⟩ := quotesModule_iff.1 names
    refine ⟨rest.takeWhile isBlank, q, q', behind, ?_, fun c mem => List.mem_takeWhile_imp mem, opens,
      closes⟩
    rw [← split, List.takeWhile_append_dropWhile]
    exact Text.eq_append_of_after? found
  · rintro ⟨b, q, q', rest, rfl, blank, opens, closes⟩
    have skipped : (b ++ q :: (module ++ q' :: rest)).dropWhile isBlank = q :: (module ++ q' :: rest) :=
      (List.dropWhile_append_of_pos blank).trans
        (List.dropWhile_cons_of_neg (Bool.eq_false_iff.1 (not_blank_of_isQuote opens)))
    rw [clauseAt, Text.after?_append, Option.any_some, skipped]
    exact quotesModule_iff.2 ⟨q, q', rest, rfl, opens, closes⟩

lemma namesModule_iff {t : Text} :
    namesModule module t = true ↔ ∃ u v, t = u ++ v ∧ ';' ∉ u ∧ clauseAt module v = true := by
  induction t with
  | nil =>
    refine Iff.intro (fun names => by cases names) ?_
    rintro ⟨u, v, split, plain, names⟩
    obtain ⟨rfl, rfl⟩ := List.append_eq_nil_iff.1 split.symm
    cases names
  | cons c t ih =>
    rw [namesModule_cons, Bool.or_eq_true, Bool.and_eq_true, ih, bne_iff_ne]
    constructor
    · rintro (here | ⟨other, u, v, rfl, plain, names⟩)
      · exact ⟨[], c :: t, rfl, List.not_mem_nil, here⟩
      · refine ⟨c :: u, v, rfl, ?_, names⟩
        rw [List.mem_cons, not_or]
        exact ⟨Ne.symm other, plain⟩
    · rintro ⟨u, v, split, plain, names⟩
      cases u with
      | nil =>
        obtain rfl : c :: t = v := split
        exact .inl names
      | cons d u =>
        obtain ⟨rfl, rfl⟩ := List.cons.inj split
        rw [List.mem_cons, not_or] at plain
        exact .inr ⟨Ne.symm plain.1, u, v, rfl, plain.2, names⟩

/-- An import of a module, from its first word to its closing quote. -/
def IsImport (module p : Text) : Prop :=
  ∃ u b q q', p = "import".toList ++ (u ++ ("from".toList ++ (b ++ q :: (module ++ [q'])))) ∧
    Prose.endsWord isWord u.head? = true ∧ u ≠ [] ∧ ';' ∉ u ∧ (∀ c ∈ b, isBlank c = true) ∧
    Prose.isQuote q = true ∧ Prose.isQuote q' = true

/-- Code imports a module exactly if an import of it stands somewhere. -/
lemma importsFrom_iff {code : Text} :
    importsFrom module code = true ↔ ∃ p, IsImport module p ∧ p <:+: code := by
  rw [importsFrom, Text.fitsSomewhere, Text.fitsFrom_iff]
  constructor
  · rintro ⟨before, rest, rfl, fits⟩
    obtain ⟨behind, found, names⟩ := (Option.any_eq_true _ _).1 fits
    rw [afterWord?, Option.filter_eq_some_iff] at found
    obtain ⟨found, ends⟩ := found
    obtain rfl := Text.eq_append_of_after? found
    obtain ⟨u, v, rfl, plain, clause⟩ := namesModule_iff.1 names
    obtain ⟨b, q, q', last, rfl, blank, opens, closes⟩ := clauseAt_iff.1 clause
    -- the word ends before the clause, so something stands between the two
    have filled : u ≠ [] := by
      rintro rfl
      have letter : Prose.endsWord isWord (some 'f') = true := ends
      exact absurd letter (by decide)
    rw [List.head?_append_of_ne_nil _ filled] at ends
    refine ⟨_, ⟨u, b, q, q', rfl, ends, filled, plain, blank, opens, closes⟩, before, last, ?_⟩
    simp only [List.append_assoc, List.cons_append, List.nil_append]
  · rintro ⟨p, ⟨u, b, q, q', rfl, ends, filled, plain, blank, opens, closes⟩, before, rest, rfl⟩
    refine ⟨before, "import".toList ++ (u ++ ("from".toList ++ (b ++ q :: (module ++ q' :: rest)))),
      ?_, ?_⟩
    · simp only [List.append_assoc, List.cons_append, List.nil_append]
    · rw [← List.head?_append_of_ne_nil _ filled] at ends
      rw [importAt, afterWord?, Text.after?_append, Option.filter_some, if_pos ends, Option.any_some]
      exact namesModule_iff.2
        ⟨u, _, rfl, plain, clauseAt_iff.2 ⟨b, q, q', rest, rfl, blank, opens, closes⟩⟩

/-! ## Code in parts -/

lemma IsImport.semicolon_notMem {p : Text} (reads : IsImport module p) (plain : ';' ∉ module) :
    ';' ∉ p := by
  obtain ⟨u, b, q, q', rfl, -, -, between, blank, opens, closes⟩ := reads
  have spaces : ';' ∉ b := fun mem => absurd (blank ';' mem) (by decide)
  have first : ';' ≠ q := by
    rintro rfl
    exact absurd opens (by decide)
  have last : ';' ≠ q' := by
    rintro rfl
    exact absurd closes (by decide)
  simp [between, spaces, first, last, plain]

/-- A semicolon divides code into parts that import on their own. -/
lemma importsFrom_semicolon (plain : ';' ∉ module) (x y : Text) :
    importsFrom module (x ++ ';' :: y) = (importsFrom module x || importsFrom module y) := by
  rw [Bool.eq_iff_iff, Bool.or_eq_true, importsFrom_iff, importsFrom_iff, importsFrom_iff]
  constructor
  · rintro ⟨p, reads, found⟩
    have absent := reads.semicolon_notMem plain
    rcases List.infix_append_iff.1 found with early | late | ⟨l, m, rfl, ends, starts⟩
    · exact .inl ⟨p, reads, early⟩
    · rcases List.infix_cons_iff.1 late with front | later
      · cases p with
        | nil => exact .inl ⟨[], reads, List.nil_infix⟩
        | cons c p =>
          obtain ⟨rfl, -⟩ := List.cons_prefix_cons.1 front
          exact absurd List.mem_cons_self absent
      · exact .inr ⟨p, reads, later⟩
    · cases m with
      | nil =>
        rw [List.append_nil] at reads
        exact .inl ⟨l, reads, ends.isInfix⟩
      | cons c m =>
        obtain ⟨rfl, -⟩ := List.cons_prefix_cons.1 starts
        exact absurd (List.mem_append_right l List.mem_cons_self) absent
  · rintro (⟨p, reads, found⟩ | ⟨p, reads, found⟩)
    · exact ⟨p, reads, found.trans (List.prefix_append _ _).isInfix⟩
    · exact ⟨p, reads, found.trans ((List.suffix_cons ';' y).trans (List.suffix_append _ _)).isInfix⟩

/-- Text without quotes adds no import to the code before it. -/
lemma importsFrom_append_unquoted {y : Text} (unquoted : y.any Prose.isQuote = false) (x : Text) :
    importsFrom module (x ++ y) = importsFrom module x := by
  rw [Bool.eq_iff_iff, importsFrom_iff, importsFrom_iff]
  constructor
  · rintro ⟨p, reads, found⟩
    -- the last character of an import is a quote
    obtain ⟨front, q, rfl, quote⟩ : ∃ front q, p = front ++ [q] ∧ Prose.isQuote q = true := by
      obtain ⟨u, b, q, q', rfl, -, -, -, -, -, closes⟩ := reads
      exact ⟨"import".toList ++ (u ++ ("from".toList ++ (b ++ q :: module))), q', by simp, closes⟩
    have absent : q ∉ y := fun mem => List.any_eq_false.1 unquoted q mem quote
    rcases List.infix_append_iff.1 found with early | late | ⟨l, m, split, ends, starts⟩
    · exact ⟨_, reads, early⟩
    · exact absurd (late.subset (List.mem_append_right front List.mem_cons_self)) absent
    · rcases List.eq_nil_or_concat m with rfl | ⟨m, d, rfl⟩
      · rw [List.append_nil] at split
        exact ⟨_, reads, split ▸ ends.isInfix⟩
      · rw [List.concat_eq_append, ← List.append_assoc] at split
        obtain rfl : q = d := (List.append_singleton_inj.1 split).2
        exact absurd (starts.subset (by simp)) absent
  · rintro ⟨p, reads, found⟩
    exact ⟨p, reads, found.trans (List.prefix_append _ _).isInfix⟩

/-! ## One more line feed -/

variable {y : Text}

lemma quotesModule_append (unbroken : '\n' ∉ module) (anew : StartsAnew y) (t : Text) :
    quotesModule module (t ++ y) = quotesModule module t := by
  cases t with
  | nil =>
    obtain rfl | ⟨rest, rfl⟩ := anew.eq_nil_or_cons
    · rfl
    · rfl
  | cons q r =>
    rw [List.cons_append, quotesModule, quotesModule, Text.isPrefixOf_append unbroken anew]
    cases front : module.isPrefixOf r with
    | false => rw [Bool.and_false, Bool.false_and, Bool.false_and]
    | true =>
      obtain ⟨rest, rfl⟩ := List.isPrefixOf_iff_prefix.1 front
      rw [List.append_assoc, List.drop_left, List.drop_left]
      congr 1
      cases rest with
      | nil =>
        obtain rfl | ⟨rest, rfl⟩ := anew.eq_nil_or_cons
        · rfl
        · rfl
      | cons c rest => rfl

lemma clauseAt_feed (unbroken : '\n' ∉ module) (anew : StartsAnew y) (x : Text) :
    clauseAt module (x ++ '\n' :: y) = clauseAt module (x ++ y) := by
  have feed : StartsAnew ('\n' :: y) := by
    rintro c ⟨⟩
    rfl
  rw [clauseAt, clauseAt, Text.after?_append_anew (by decide) feed, Text.after?_append_anew (by decide) anew,
    Option.any_map, Option.any_map]
  congr 1
  funext rest
  show quotesModule _ _ = quotesModule _ _
  rw [List.dropWhile_append, List.dropWhile_append]
  split
  · rfl
  · rw [quotesModule_append unbroken feed, quotesModule_append unbroken anew]

lemma namesModule_feed (unbroken : '\n' ∉ module) (anew : StartsAnew y) (x : Text) :
    namesModule module (x ++ '\n' :: y) = namesModule module (x ++ y) := by
  induction x with
  | nil => exact namesModule_cons module '\n' y
  | cons c x ih =>
    rw [List.cons_append, List.cons_append, namesModule_cons, namesModule_cons, ih,
      ← List.cons_append, ← List.cons_append, clauseAt_feed unbroken anew]

lemma endsWord_append_anew (anew : StartsAnew y) (x : Text) :
    Prose.endsWord isWord (x ++ y).head? = Prose.endsWord isWord x.head? := by
  cases x with
  | nil =>
    obtain rfl | ⟨rest, rfl⟩ := anew.eq_nil_or_cons
    · rfl
    · rfl
  | cons c x => rfl

lemma importAt_feed (unbroken : '\n' ∉ module) (anew : StartsAnew y) (x : Text) :
    importAt module (x ++ '\n' :: y) = importAt module (x ++ y) := by
  have feed : StartsAnew ('\n' :: y) := by
    rintro c ⟨⟩
    rfl
  rw [importAt, importAt, afterWord?, afterWord?, Text.after?_append_anew (by decide) feed,
    Text.after?_append_anew (by decide) anew]
  cases Text.after? "import".toList x with
  | none => rfl
  | some rest =>
    rw [Option.map_some, Option.map_some, Option.filter_some, Option.filter_some,
      endsWord_append_anew feed, endsWord_append_anew anew]
    split
    · exact namesModule_feed unbroken anew rest
    · rfl

lemma importsFrom_cons (module : Text) (c : Char) (t : Text) :
    importsFrom module (c :: t) = (importAt module (c :: t) || importsFrom module t) := by
  cases t with
  | nil => rfl
  | cons d t => rfl

/-- A line feed in front of code is no part of an import. -/
lemma importsFrom_cons_feed (module code : Text) :
    importsFrom module ('\n' :: code) = importsFrom module code := by
  rw [importsFrom_cons]
  rfl

/-- A line feed before the end of a line, or of the code, is no part of an import either. -/
lemma importsFrom_feed (unbroken : '\n' ∉ module) (anew : StartsAnew y) (x : Text) :
    importsFrom module (x ++ '\n' :: y) = importsFrom module (x ++ y) := by
  induction x with
  | nil => exact importsFrom_cons_feed module y
  | cons c x ih =>
    rw [List.cons_append, List.cons_append, importsFrom_cons, importsFrom_cons, ih,
      ← List.cons_append, ← List.cons_append, importAt_feed unbroken anew]

/-! ## Imports over lines -/

lemma importsFrom_unlines (module : Text) (ls : List Text) :
    importsFrom module (Text.unlines ls) = importsFrom module (Comment.block ls) := by
  cases ls with
  | nil => rfl
  | cons l ls =>
    have joined : Comment.block (l :: ls) = '\n' :: Text.unlines (l :: ls) := by
      rw [← Comment.unlines_nil_cons]
      exact Text.unlines_append [[]] (List.cons_ne_nil l ls)
    rw [joined, importsFrom_cons_feed]

lemma importsFrom_strip (module script : Text) :
    importsFrom module (Comment.strip script) =
      importsFrom module (Comment.block (Comment.codeLines script)) := by
  rw [Comment.codeLines, Comment.block_lines, importsFrom_cons_feed]

/-- Empty lines among the lines of code make no difference. -/
lemma importsFrom_empty_lines (unbroken : '\n' ∉ module) (xs new ys : List Text) :
    importsFrom module (Comment.block (xs ++ (new.map fun _ => []) ++ ys)) =
      importsFrom module (Comment.block (xs ++ ys)) := by
  induction new with
  | nil => rw [List.map_nil, List.append_nil]
  | cons l new ih =>
    rw [← ih, List.map_cons, List.append_assoc, List.append_assoc, Comment.block_append,
      Comment.block_append xs]
    exact importsFrom_feed unbroken (Comment.startsAnew_block _) _

end Script

end Phrasebook
