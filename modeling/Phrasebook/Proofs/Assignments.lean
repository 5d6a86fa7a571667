import Mathlib.Data.List.TakeWhile
import Phrasebook.Markup
import Phrasebook.Proofs.Scan

/-!
# Assignments before a literal

A literal of markup counts as the value of a plain attribute by the characters right before it: white
space, a name, and an equals sign (`Assigns`). A text ends in at most one assignment
(`Assigns.unique`), so the scan for one finds it (`attributeTail?_eq_some_iff`), and
`site?_plainAttribute_iff` says of every text and place when a plain attribute is seen there.
-/

namespace Phrasebook

/-! ## Splitting off a run at the end -/

namespace Text

/-- A run of characters in a class at the end of a text is told from what stands before it, if that
does not end in the class. -/
lemma append_run_inj {p : Char → Bool} {x x' r r' : Text} (same : x ++ r = x' ++ r')
    (run : ∀ c ∈ r, p c = true) (run' : ∀ c ∈ r', p c = true)
    (stops : ∀ c, x.getLast? = some c → p c = false)
    (stops' : ∀ c, x'.getLast? = some c → p c = false) : x = x' ∧ r = r' := by
  -- what one text has more than the other would both belong to the run and end what stands before
  have exact : ∀ {y z s : Text}, (∀ c ∈ z ++ s, p c = true) →
      (∀ c, (y ++ z).getLast? = some c → p c = false) → z = [] := by
    intro y z s run stops
    rcases List.eq_nil_or_concat z with empty | ⟨front, c, rfl⟩
    · exact empty
    · have ends := stops c (by simp)
      rw [run c (by simp)] at ends
      cases ends
  rcases List.append_eq_append_iff.1 same with ⟨z, rfl, rfl⟩ | ⟨z, rfl, rfl⟩
  · obtain rfl := exact run stops'
    simp
  · obtain rfl := exact run' stops
    simp

/-- A scan that finds nothing has found the shape nowhere. -/
lemma read_eq_none_of_hitsFrom_eq_nil {α : Type} {shape : Shape α} {pos : Nat} {prev : Option Char}
    {before rest : Text} (nothing : hitsFrom shape 0 pos prev (before ++ rest) = [])
    (more : rest ≠ []) : shape (before.getLast?.or prev) rest = none := by
  induction before generalizing pos prev with
  | nil =>
    obtain ⟨c, cs, rfl⟩ := List.exists_cons_of_ne_nil more
    simp only [List.nil_append, hitsFrom] at nothing
    split at nothing
    · cases nothing
    · rename_i unread
      simpa using unread
  | cons c cs ih =>
    simp only [List.cons_append, hitsFrom] at nothing
    split at nothing
    · cases nothing
    · rw [getLast?_cons_or]
      exact ih nothing

/-- The code points of the wide class of white space. -/
def blankPoints : List Nat :=
  [0x09, 0x0A, 0x0B, 0x0C, 0x0D, 0x1C, 0x1D, 0x1E, 0x1F, 0x20, 0x85, 0xA0, 0x1680, 0x2000, 0x2001,
    0x2002, 0x2003, 0x2004, 0x2005, 0x2006, 0x2007, 0x2008, 0x2009, 0x200A, 0x2028, 0x2029, 0x202F,
    0x205F, 0x3000]

lemma mem_blankPoints {c : Char} (blank : isBlank c = true) : c.toNat ∈ blankPoints := by
  simp only [isBlank, Bool.or_eq_true, Bool.and_eq_true, decide_eq_true_eq, beq_iff_eq] at blank
  simp only [blankPoints, List.mem_cons, List.not_mem_nil, or_false]
  omega

lemma not_isBlank_of_isWord {c : Char} (word : isWord c = true) : isBlank c = false := by
  refine Bool.eq_false_iff.2 fun blank => ?_
  have points : ∀ n ∈ blankPoints, isWord (Char.ofNat n) = false := by decide +kernel
  have solid := points _ (mem_blankPoints blank)
  rw [Char.ofNat_toNat, word] at solid
  cases solid

end Text

namespace Markup

/-! ## Assignments -/

lemma not_isBlank_of_isAttributeChar {c : Char} (named : isAttributeChar c = true) :
    isBlank c = false := by
  simp only [isAttributeChar, Bool.or_eq_true, beq_iff_eq] at named
  rcases named with (word | rfl) | rfl
  · exact Text.not_isBlank_of_isWord word
  · decide
  · decide

/-- The name of a plain attribute. -/
def IsName (name : Text) : Prop :=
  ∃ c cs, name = c :: cs ∧ (c.isAlpha || c == '_') = true ∧ ∀ d ∈ cs, isAttributeChar d = true

lemma IsName.isAttributeChar {name : Text} (named : IsName name) :
    ∀ c ∈ name, isAttributeChar c = true := by
  obtain ⟨c, cs, rfl, starts, more⟩ := named
  have word : isAsciiWord c = true := by
    rw [isAsciiWord, Char.isAlphanum, Bool.or_right_comm, starts, Bool.true_or]
  refine List.forall_mem_cons.2 ⟨?_, more⟩
  simp [Markup.isAttributeChar, isWord_of_isAsciiWord word]

/-- A text that ends in an assignment: behind `outer`, which ends in white space, stand a name and an
equals sign with white space around it. Where `outer` is empty, the character before the text counts. -/
structure Assigns (prev : Option Char) (t outer name : Text) : Prop where
  named : IsName name
  split : ∃ gap value, t = outer ++ (name ++ gap ++ '=' :: value) ∧ ∀ c ∈ gap ++ value, isBlank c = true
  apart : ∀ c, outer.getLast?.or prev = some c → isBlank c = true

variable {prev : Option Char} {t u outer name : Text}

lemma Assigns.unique {outer' name' : Text} (first : Assigns prev t outer name)
    (second : Assigns prev t outer' name') : outer = outer' ∧ name = name' := by
  obtain ⟨gap, value, rfl, blank⟩ := first.split
  obtain ⟨gap', value', same, blank'⟩ := second.split
  have solid : ∀ {x n : Text}, IsName n → ∀ c, (x ++ n).getLast? = some c → isBlank c = false := by
    intro x n named c last
    rcases List.eq_nil_or_concat n with rfl | ⟨front, d, rfl⟩
    · obtain ⟨_, _, empty, -⟩ := named
      cases empty
    · rw [List.concat_eq_append, ← List.append_assoc, List.getLast?_concat] at last
      obtain rfl := Option.some.inj last
      exact not_isBlank_of_isAttributeChar (named.isAttributeChar d (by simp))
  have equals : ∀ (x : Text) (c : Char), (x ++ ['=']).getLast? = some c → isBlank c = false := by
    intro x c last
    rw [List.getLast?_concat] at last
    obtain rfl := Option.some.inj last
    decide
  have behind : ∀ (o n g v : Text), o ++ (n ++ g ++ '=' :: v) = o ++ n ++ g ++ ['='] ++ v := by simp
  rw [behind, behind] at same
  -- from the end: the value, the gap, and then the name
  obtain ⟨heads, rfl⟩ := Text.append_run_inj same
    (fun c mem => blank c (List.mem_append_right _ mem))
    (fun c mem => blank' c (List.mem_append_right _ mem)) (equals _) (equals _)
  obtain ⟨names, rfl⟩ := Text.append_run_inj (List.append_inj' heads rfl).1
    (fun c mem => blank c (List.mem_append_left _ mem))
    (fun c mem => blank' c (List.mem_append_left _ mem)) (solid first.named) (solid second.named)
  have visible : ∀ {n : Text}, IsName n → ∀ c ∈ n, (!isBlank c) = true := by
    intro n named c mem
    rw [not_isBlank_of_isAttributeChar (named.isAttributeChar c mem)]
    rfl
  have hidden : ∀ {o : Text}, (∀ c, o.getLast?.or prev = some c → isBlank c = true) →
      ∀ c, o.getLast? = some c → (!isBlank c) = false := by
    intro o apart c last
    rw [apart c (by rw [last]; rfl)]
    rfl
  exact Text.append_run_inj names (visible first.named) (visible second.named)
    (hidden first.apart) (hidden second.apart)

lemma afterEquals?_eq_some_nil_iff :
    afterEquals? u = some [] ↔
      ∃ gap value, u = gap ++ '=' :: value ∧ ∀ c ∈ gap ++ value, isBlank c = true := by
  unfold afterEquals?
  constructor
  · intro read
    split at read
    · rename_i value equals
      refine ⟨u.takeWhile isBlank, value, ?_, ?_⟩
      · rw [← equals, List.takeWhile_append_dropWhile]
      · intro c mem
        rcases List.mem_append.1 mem with inGap | inValue
        · exact List.mem_takeWhile_imp inGap
        · exact List.dropWhile_eq_nil_iff.1 (Option.some.inj read) c inValue
    · cases read
  · rintro ⟨gap, value, rfl, blank⟩
    have equals : (gap ++ '=' :: value).dropWhile isBlank = '=' :: value := by
      rw [List.dropWhile_append_of_pos fun c mem => blank c (List.mem_append_left _ mem)]
      rfl
    have ends : value.dropWhile isBlank = [] :=
      List.dropWhile_eq_nil_iff.2 fun c mem => blank c (List.mem_append_right _ mem)
    rw [equals]
    exact congrArg some ends

/-- A name goes on up to the white space or the equals sign behind it. -/
lemma span_isAttributeChar {cs gap : Text} (value : Text) (more : ∀ c ∈ cs, isAttributeChar c = true)
    (blank : ∀ c ∈ gap, isBlank c = true) :
    (cs ++ (gap ++ '=' :: value)).takeWhile isAttributeChar = cs ∧
      (cs ++ (gap ++ '=' :: value)).dropWhile isAttributeChar = gap ++ '=' :: value := by
  rw [List.takeWhile_append_of_pos more, List.dropWhile_append_of_pos more]
  cases gap with
  | nil => exact ⟨List.append_nil cs, rfl⟩
  | cons d ds =>
    have stops : isAttributeChar d = false := by
      refine Bool.eq_false_iff.2 fun named => ?_
      have visible := not_isBlank_of_isAttributeChar named
      rw [blank d List.mem_cons_self] at visible
      cases visible
    simp [stops]

/-- An attribute that a text is up to its value, in the words of the scan. -/
lemma attributeHead?_eq_some_iff :
    attributeHead? prev u = some (name, []) ↔ Assigns prev u [] name := by
  constructor
  · intro head
    unfold attributeHead? at head
    split at head
    · rename_i apart
      split at head
      · cases head
      · rename_i c cs
        split at head
        · rename_i starts
          obtain ⟨rest, behind, same⟩ := Option.map_eq_some_iff.1 head
          obtain ⟨rfl, rfl⟩ := Prod.mk.inj same
          obtain ⟨gap, value, split, blank⟩ := afterEquals?_eq_some_nil_iff.1 behind
          refine ⟨⟨c, _, rfl, starts, fun d mem => List.mem_takeWhile_imp mem⟩,
            ⟨gap, value, ?_, blank⟩, (Option.all_eq_true ..).1 apart⟩
          rw [List.nil_append, List.append_assoc, ← split, List.cons_append,
            List.takeWhile_append_dropWhile]
        · cases head
    · cases head
  · rintro ⟨⟨c, cs, rfl, starts, more⟩, ⟨gap, value, rfl, blank⟩, apart⟩
    have front : prev.all isBlank = true := (Option.all_eq_true ..).2 apart
    have rest := afterEquals?_eq_some_nil_iff.2 ⟨gap, value, rfl, blank⟩
    obtain ⟨run, behind⟩ := span_isAttributeChar value more
      fun d mem => blank d (List.mem_append_left _ mem)
    unfold attributeHead?
    rw [if_pos front]
    simp only [List.nil_append, List.cons_append, List.append_assoc, starts, if_true, run, behind,
      rest, Option.map_some]

/-- The attribute that ends a text is the assignment in which the text ends. -/
lemma attributeTail?_eq_some_iff {h : Hit Text} :
    attributeTail? t = some h ↔
      ∃ outer, Assigns none t outer h.value ∧ h.start = outer.length ∧ h.stop = t.length := by
  -- what the scan finds is an assignment, and there is no second one
  have found : ∀ {g : Hit Text}, attributeTail? t = some g →
      ∃ outer, Assigns none t outer g.value ∧ g.start = outer.length ∧ g.stop = t.length := by
    intro g tail
    have hit := List.mem_of_head? tail
    have read := Text.hits_read_behind hit
    split at read
    · rename_i name head
      obtain ⟨size, rfl⟩ := Prod.mk.inj (Option.some.inj read)
      obtain ⟨named, ⟨gap, value, split, blank⟩, apart⟩ := attributeHead?_eq_some_iff.1 head
      have more : (t.drop g.start).length ≠ 0 := by
        rw [split]
        simp
      rw [List.length_drop] at more size
      refine ⟨t.take g.start, ⟨named, ⟨gap, value, ?_, blank⟩, ?_⟩, ?_, by omega⟩
      · rw [List.nil_append] at split
        rw [← split, List.take_append_drop]
      · intro c last
        rw [Option.or_none] at last
        exact apart c last
      · rw [List.length_take]
        omega
    · cases read
  refine ⟨found, ?_⟩
  rintro ⟨outer, assigns, start, stop⟩
  cases tail : attributeTail? t with
  | some g =>
    obtain ⟨outer', assigns', start', stop'⟩ := found tail
    obtain ⟨rfl, value⟩ := assigns'.unique assigns
    cases g
    cases h
    simp_all
  | none =>
    obtain ⟨gap, value, split, blank⟩ := assigns.split
    have head : attributeHead? outer.getLast? (h.value ++ gap ++ '=' :: value) = some (h.value, []) := by
      refine attributeHead?_eq_some_iff.2 ⟨assigns.named, ⟨gap, value, rfl, blank⟩, ?_⟩
      intro c last
      exact assigns.apart c (by rwa [Option.or_none])
    have nothing := List.head?_eq_none_iff.1 tail
    rw [split] at nothing
    have unread := Text.read_eq_none_of_hitsFrom_eq_nil nothing (by simp)
    rw [Option.or_none, head] at unread
    cases unread

lemma plainAttribute?_eq_some_iff {buffer span : Text} {i start : Nat} {q : Quote} :
    plainAttribute? buffer i span = some (name, start, q) ↔
      openingQuote? span = some q ∧ ['v', '-'].isPrefixOf name = false ∧
        ∃ outer, Assigns none (buffer.take i) outer name ∧ start = outer.length := by
  unfold plainAttribute?
  constructor
  · intro plain
    split at plain
    · rename_i q' h opens tail
      obtain ⟨outer, assigns, start, -⟩ := attributeTail?_eq_some_iff.1 tail
      split at plain
      · cases plain
      · rename_i other
        cases plain
        exact ⟨opens, Bool.eq_false_iff.2 other, outer, assigns, start⟩
    · cases plain
  · rintro ⟨opens, other, outer, assigns, rfl⟩
    have tail : attributeTail? (buffer.take i) =
        some ⟨outer.length, (buffer.take i).length, name⟩ :=
      attributeTail?_eq_some_iff.2 ⟨outer, assigns, rfl, rfl⟩
    rw [opens, tail]
    simp [other]

/-- A literal is seen as the value of a plain attribute exactly if an assignment to a name other than
a directive stands before it, outside of bindings and interpolations. -/
lemma site?_plainAttribute_iff {buffer span : Text} {i start : Nat} {q : Quote} :
    site? buffer i span = some (.plainAttribute name start q) ↔
      openBinding? buffer i = none ∧ inInterpolation buffer i = false ∧
        plainAttribute? buffer i span = some (name, start, q) := by
  unfold site?
  constructor
  · intro site
    split at site
    · split at site
      · cases site
      · split at site <;> cases site
    · rename_i closed
      split at site
      · cases site
      · rename_i outside
        split at site
        · rename_i found
          cases site
          exact ⟨closed, Bool.eq_false_iff.2 outside, found⟩
        · dsimp only at site
          split at site <;> cases site
  · rintro ⟨closed, outside, found⟩
    rw [closed]
    dsimp only
    rw [outside, found]
    rfl

end Markup

end Phrasebook
