import Mathlib.Data.List.Forall2
import Phrasebook.Proofs.Markers

/-!
# Canonical keys

A template is the texts between its markers woven with the markers (`weave_written`). Its key is the
same texts woven with letters in braces (`key_lettered`). A marker shows the letter of the first
marker with its expression, which is the first placeholder with that expression (`lettersShown_first`).
So the letters of a key depend on nothing but which expressions are equal.
-/

namespace Phrasebook.Template

/-- The marker of an expression. -/
def written (e : Text) : Text :=
  '$' :: '\x7b' :: e ++ ['\x7d']

/-- The placeholder of a letter. -/
def shown (l : Char) : Text :=
  ['\x7b', l, '\x7d']

/-- The expressions of the markers of a template, from left to right. -/
def expressions (t : Text) : List Text :=
  (markers t).map (·.expression)

/-- What stands around some markers in a template from offset `pos` on. -/
def segmentsFrom (t : Text) : Nat → List Marker → List Text
  | pos, [] => [t.drop pos]
  | pos, m :: ms => Text.slice t pos m.start :: segmentsFrom t m.stop ms

/-- The texts of a template before, between and behind its markers. -/
def segments (t : Text) : List Text :=
  segmentsFrom t 0 (markers t)

/-- Texts with one filling behind each of them, as long as there are any. -/
def weave : List Text → List Text → Text
  | g :: gs, f :: fs => g ++ f ++ weave gs fs
  | gs, _ => gs.flatten

lemma length_segmentsFrom (t : Text) (pos : Nat) (ms : List Marker) :
    (segmentsFrom t pos ms).length = ms.length + 1 := by
  induction ms generalizing pos with
  | nil => rfl
  | cons m ms ih => exact congrArg Nat.succ (ih m.stop)

lemma length_segments (t : Text) : (segments t).length = (expressions t).length + 1 := by
  rw [segments, length_segmentsFrom, expressions, List.length_map]

lemma weave_segmentsFrom {t : Text} {pos : Nat} {ms : List Marker}
    (stands : ∀ m ∈ ms, m ∈ markers t ∧ pos ≤ m.start)
    (ordered : ms.Pairwise fun a b => a.stop ≤ b.start) :
    weave (segmentsFrom t pos ms) (ms.map fun m => written m.expression) = t.drop pos := by
  induction ms generalizing pos with
  | nil => exact List.append_nil _
  | cons m ms ih =>
    obtain ⟨mem, behind⟩ := stands m List.mem_cons_self
    obtain ⟨next, rest⟩ := List.pairwise_cons.1 ordered
    have later := ih (fun n found => ⟨(stands n (List.mem_cons_of_mem m found)).1, next n found⟩) rest
    rw [drop_eq_of_marker mem behind, ← later]
    rfl

/-- A template is its segments woven with its markers. -/
lemma weave_written (t : Text) : weave (segments t) ((expressions t).map written) = t := by
  rw [expressions, List.map_map]
  exact weave_segmentsFrom (fun m mem => ⟨mem, Nat.zero_le _⟩) (markersFrom_pairwise 0 0 t)

/-! ## The letters of a key -/

/-- The letters that lettered markers show, where `seen` holds the placeholders before. -/
def lettersShown : List (Char × Text) → List (Char × Marker) → List Char
  | _, [] => []
  | seen, (l, m) :: ms =>
    letterOf seen l m.expression :: lettersShown (seen ++ [(l, m.expression)]) ms

lemma fillIn_eq_weave (t : Text) (pos : Nat) (seen : List (Char × Text)) (ms : List (Char × Marker)) :
    fillIn t pos seen ms =
      weave (segmentsFrom t pos (ms.map (·.2))) ((lettersShown seen ms).map shown) := by
  induction ms generalizing pos seen with
  | nil => exact (List.append_nil _).symm
  | cons p ms ih =>
    obtain ⟨l, m⟩ := p
    rw [fillIn, ih]
    rfl

/-- The letter that a marker shows is that of the first placeholder with its expression. -/
lemma find?_letterOf (seen rest : List (Char × Text)) (l : Char) (e : Text) :
    (seen ++ (l, e) :: rest).find? (·.2 == e) = some (letterOf seen l e, e) := by
  rw [List.find?_append]
  unfold letterOf
  cases found : seen.find? (·.2 == e) with
  | none => simp
  | some p =>
    have holds := List.find?_some found
    have same : p.2 = e := beq_iff_eq.1 holds
    rw [← same]
    rfl

lemma lettersShown_first (seen : List (Char × Text)) (ms : List (Char × Marker)) :
    List.Forall₂ (fun l e =>
        (seen ++ ms.map fun p => (p.1, p.2.expression)).find? (·.2 == e) = some (l, e))
      (lettersShown seen ms) (ms.map (·.2.expression)) := by
  induction ms generalizing seen with
  | nil => exact .nil
  | cons p ms ih =>
    obtain ⟨l, m⟩ := p
    refine .cons (find?_letterOf seen _ l m.expression) ?_
    have later := ih (seen ++ [(l, m.expression)])
    rwa [List.append_assoc, List.singleton_append] at later

/-- Of letters given to expressions in order, the first with an expression is found at the place where
the expression comes up first. -/
lemma getElem?_of_find?_zip {ls : List Char} {es : List Text} {l : Char} {e e' : Text}
    (found : (ls.zip es).find? (·.2 == e) = some (l, e')) : ls[es.idxOf e]? = some l := by
  induction ls generalizing es with
  | nil => cases found
  | cons k ls ih =>
    cases es with
    | nil => cases found
    | cons d es =>
      rw [List.zip_cons_cons, List.find?_cons] at found
      rw [List.idxOf_cons]
      split at found
      · rename_i same
        cases found
        rw [same]
        rfl
      · rename_i other
        rw [other]
        exact ih found

lemma nodup_letters : letters.Nodup := by decide

lemma map_fst_zip (ls : List Char) (es : List Text) :
    (ls.zip es).map (·.1) = ls.take es.length := by
  induction ls generalizing es with
  | nil => simp
  | cons l ls ih =>
    cases es with
    | nil => rfl
    | cons e es => exact congrArg (l :: ·) (ih es)

/-- Where no letter comes twice, the expression of a letter is the one that stands with it. -/
lemma lookup_of_mem {ps : List (Char × Text)} {l : Char} {e : Text} (nodup : (ps.map (·.1)).Nodup)
    (mem : (l, e) ∈ ps) : ps.lookup l = some e := by
  induction ps with
  | nil => cases mem
  | cons p ps ih =>
    obtain ⟨fresh, rest⟩ := List.nodup_cons.1 nodup
    rw [List.lookup_cons]
    rcases List.mem_cons.1 mem with rfl | later
    · rw [beq_self_eq_true]
    · have other : l ≠ p.1 := by
        rintro rfl
        exact fresh (List.mem_map.2 ⟨_, later, rfl⟩)
      rw [beq_false_of_ne other]
      exact ih rest later

variable {t : Text}

lemma canonical_eq_ok {c : Canonical} :
    canonical t = .ok c ↔ (markers t).length ≤ 26 ∧ lettered t = c := by
  rw [canonical_eq]
  split
  · rename_i many
    constructor
    · intro done
      cases done
    · rintro ⟨few, -⟩
      exact absurd many (Nat.not_lt.2 few)
  · rename_i few
    rw [Except.ok.injEq]
    exact (and_iff_right (Nat.not_lt.1 few)).symm

/-- The placeholders of a template are the first letters with the expressions of its markers. -/
lemma placeholders_lettered (t : Text) : (lettered t).placeholders = letters.zip (expressions t) := by
  rw [expressions, List.zip_map_right]
  rfl

lemma fst_placeholders (t : Text) :
    (lettered t).placeholders.map (·.1) = letters.take (markers t).length := by
  rw [placeholders_lettered, map_fst_zip, expressions, List.length_map]

lemma snd_placeholders (few : (markers t).length ≤ 26) :
    (lettered t).placeholders.map (·.2) = expressions t := by
  rw [placeholders_lettered]
  apply List.map_snd_zip
  rw [expressions, List.length_map]
  exact few

lemma nodup_placeholders (t : Text) : ((lettered t).placeholders.map (·.1)).Nodup := by
  rw [fst_placeholders]
  exact nodup_letters.sublist (List.take_sublist _ _)

/-- The key of a template is its segments woven with letters. The letter at a marker stands where its
expression comes up first, and its placeholder has that expression. -/
lemma key_lettered (few : (markers t).length ≤ 26) :
    ∃ ls, (lettered t).key = weave (segments t) (ls.map shown) ∧
      List.Forall₂ (fun l e => letters[(expressions t).idxOf e]? = some l ∧
        (lettered t).placeholders.lookup l = some e) ls (expressions t) := by
  have all : (letters.zip (markers t)).map (·.2) = markers t := List.map_snd_zip few
  refine ⟨lettersShown [] (letters.zip (markers t)), ?_, ?_⟩
  · have key := fillIn_eq_weave t 0 [] (letters.zip (markers t))
    rw [all] at key
    exact key
  · have first := lettersShown_first [] (letters.zip (markers t))
    have es := congrArg (List.map Marker.expression) all
    rw [List.map_map] at es
    rw [show (letters.zip (markers t)).map (·.2.expression) = expressions t from es] at first
    refine first.imp fun l e found => ?_
    have found : (lettered t).placeholders.find? (·.2 == e) = some (l, e) := found
    refine ⟨?_, lookup_of_mem (nodup_placeholders t) (List.mem_of_find?_eq_some found)⟩
    rw [placeholders_lettered] at found
    exact getElem?_of_find?_zip found

/-! ## Equal patterns -/

/-- Where the same members are equal, a member comes up first at the same place. -/
lemma idxOf_le_of_pattern {es es' : List Text} {i : Nat} (inside : i < es.length)
    (inside' : i < es'.length) (size : es.length = es'.length)
    (pattern : ∀ j < es.length, es[j]? = es[i]? → es'[j]? = es'[i]?) :
    es'.idxOf es'[i] ≤ es.idxOf es[i] := by
  have first : es.idxOf es[i] < es.length := List.idxOf_lt_length_iff.2 (List.getElem_mem inside)
  have same : es'[es.idxOf es[i]]? = es'[i]? := by
    apply pattern _ first
    rw [List.getElem?_idxOf (List.getElem_mem inside), List.getElem?_eq_getElem inside]
  apply Nat.le_of_not_lt
  intro later
  have other := List.not_of_lt_findIdx later
  rw [List.getElem?_eq_getElem (size ▸ first), List.getElem?_eq_getElem inside'] at same
  rw [Option.some.inj same, beq_self_eq_true] at other
  cases other

/-- Two rows of expressions with the same members equal have the same letters. -/
lemma letters_of_pattern {es es' : List Text} {ls ls' : List Char}
    (given : List.Forall₂ (fun l e => letters[es.idxOf e]? = some l) ls es)
    (given' : List.Forall₂ (fun l e => letters[es'.idxOf e]? = some l) ls' es')
    (size : es.length = es'.length)
    (pattern : ∀ i < es.length, ∀ j < es.length, (es[i]? = es[j]? ↔ es'[i]? = es'[j]?)) :
    ls = ls' := by
  obtain ⟨length, shows⟩ := List.forall₂_iff_get.1 given
  obtain ⟨length', shows'⟩ := List.forall₂_iff_get.1 given'
  apply List.ext_getElem (by omega)
  intro i small small'
  have inside : i < es.length := by omega
  have inside' : i < es'.length := by omega
  have place : es.idxOf es[i] = es'.idxOf es'[i] := by
    apply Nat.le_antisymm
    · exact idxOf_le_of_pattern inside' inside size.symm
        fun j below same => (pattern j (by omega) i inside).2 same
    · exact idxOf_le_of_pattern inside inside' size
        fun j below same => (pattern j below i inside).1 same
  have here := shows i small inside
  have here' := shows' i small' inside'
  simp only [List.get_eq_getElem] at here here'
  rw [place] at here
  exact Option.some.inj (here.symm.trans here')

/-- The key depends on the texts around the markers, and on which markers have equal expressions. -/
lemma key_of_pattern {t' : Text} (few : (markers t).length ≤ 26) (texts : segments t' = segments t)
    (pattern : ∀ i < (markers t).length, ∀ j < (markers t).length,
      ((expressions t)[i]? = (expressions t)[j]? ↔ (expressions t')[i]? = (expressions t')[j]?)) :
    (markers t').length = (markers t).length ∧ (lettered t').key = (lettered t).key := by
  have length : ∀ u, (expressions u).length = (markers u).length := fun u => List.length_map _
  have size : (expressions t).length = (expressions t').length := by
    have sizes := congrArg List.length texts
    rw [length_segments, length_segments] at sizes
    omega
  have few' : (markers t').length ≤ 26 := by
    rw [← length t', ← size, length t]
    exact few
  obtain ⟨ls, key, given⟩ := key_lettered few
  obtain ⟨ls', key', given'⟩ := key_lettered few'
  have same : ls = ls' := by
    apply letters_of_pattern (given.imp fun _ _ => And.left) (given'.imp fun _ _ => And.left) size
    rw [length t]
    exact pattern
  refine ⟨?_, ?_⟩
  · rw [← length, ← length, size]
  · rw [key, key', same, texts]

/-- A template fails to have a key exactly if it has more than 26 markers. Otherwise its placeholders
are the first letters in order, each with the expression of its marker, and its key is the template
with each marker replaced by a letter in braces: that of the first marker with the same expression,
whose placeholder has this expression. What stands around the markers stays, and it is, together with
which expressions are equal, all that the key depends on. -/
theorem canonical_faithful (t : Text) :
    let k := (markers t).length
    let es := expressions t
    weave (segments t) (es.map written) = t ∧
    (∀ o, canonical t = .error o ↔ 26 < k ∧ o = ⟨t, k⟩) ∧
    (k ≤ 26 → ∃ c ls, canonical t = .ok c ∧
      c.placeholders.map (·.1) = letters.take k ∧ c.placeholders.map (·.2) = es ∧
      c.key = weave (segments t) (ls.map shown) ∧
      List.Forall₂ (fun l e => letters[es.idxOf e]? = some l ∧ c.placeholders.lookup l = some e)
        ls es) ∧
    ∀ t' c, canonical t = .ok c → segments t' = segments t →
      (∀ i < k, ∀ j < k, (es[i]? = es[j]? ↔ (expressions t')[i]? = (expressions t')[j]?)) →
      ∃ c', canonical t' = .ok c' ∧ c'.key = c.key := by
  intro k es
  refine ⟨weave_written t, fun o => ?_, fun few => ?_, fun t' c done texts pattern => ?_⟩
  · rw [canonical_eq]
    split
    · rename_i many
      constructor
      · intro fails
        cases fails
        exact ⟨many, rfl⟩
      · rintro ⟨-, rfl⟩
        rfl
    · rename_i few
      constructor
      · intro fails
        cases fails
      · rintro ⟨many, -⟩
        exact absurd many few
  · obtain ⟨ls, key, given⟩ := key_lettered few
    exact ⟨lettered t, ls, canonical_eq_ok.2 ⟨few, rfl⟩, fst_placeholders t, snd_placeholders few, key,
      given⟩
  · obtain ⟨few, rfl⟩ := canonical_eq_ok.1 done
    obtain ⟨size, key⟩ := key_of_pattern few texts pattern
    exact ⟨lettered t', canonical_eq_ok.2 ⟨size ▸ few, rfl⟩, key⟩

/-- Two templates that repeat their first expression at the end have one key. -/
theorem canonical_faithful_repeated :
    let t := "$\x7bn\x7d和$\x7bm\x7d和$\x7bn\x7d".toList
    let t' := "$\x7bx\x7d和$\x7by\x7d和$\x7bx\x7d".toList
    (markers t).length ≤ 26 ∧ segments t' = segments t ∧
      ∃ c c', canonical t = .ok c ∧ canonical t' = .ok c' ∧ c'.key = c.key ∧
        c.placeholders.map (·.2) = ["n".toList, "m".toList, "n".toList] := by
  intro t t'
  have few : (markers t).length ≤ 26 := by decide
  have texts : segments t' = segments t := by decide
  obtain ⟨-, -, keyed, alike⟩ := canonical_faithful t
  obtain ⟨c, ls, done, -, es, -⟩ := keyed few
  obtain ⟨c', done', key⟩ := alike t' c done texts (by decide)
  exact ⟨few, texts, c, c', done, done', key, es⟩

end Phrasebook.Template
