import Mathlib.Data.List.Infix
import Phrasebook.Proofs.CanonicalKeys

/-!
# What a key renders

A template literal renders the texts around its markers with the values of the expressions between
them (`rendered`). A lookup renders its key: a letter in braces makes way for the value of the
placeholder with that letter (`Canonical.render`). The lookup cannot tell a letter in braces that stood
in the template from one that took the place of a marker. So the two render alike exactly if there is
none of the former (`Plain`), and then the template can be read off the key and the placeholders. The
latter is the case where each expression has its marker for a value.
-/

namespace Phrasebook.Template

variable {value : Text → Text} {ps : List (Char × Text)} {t u g : Text} {e : Text} {skip : Nat}

/-- The expression of the placeholder in braces at the front of a text. -/
def placeholderAt? (ps : List (Char × Text)) : Text → Option Text
  | a :: l :: b :: _ => if a = '\x7b' ∧ b = '\x7d' then ps.lookup l else none
  | _ => none

/-- Puts values in the place of placeholders, first passing over `skip` characters of the last one. -/
def renderFrom (value : Text → Text) (ps : List (Char × Text)) : Nat → Text → Text
  | _, [] => []
  | skip + 1, _ :: cs => renderFrom value ps skip cs
  | 0, c :: cs =>
    match placeholderAt? ps (c :: cs) with
    | some e => value e ++ renderFrom value ps 2 cs
    | none => c :: renderFrom value ps 0 cs

/-- What a lookup of a key renders, by the values of the expressions. -/
def Canonical.render (value : Text → Text) (c : Canonical) : Text :=
  renderFrom value c.placeholders 0 c.key

/-- The key with the markers of the placeholders put back. -/
def Canonical.expand (c : Canonical) : Text :=
  c.render written

/-- What a template literal renders, by the values of the expressions. -/
def rendered (value : Text → Text) (t : Text) : Text :=
  weave (segments t) ((expressions t).map value)

/-- Whether a text holds no letter of some placeholders in braces. -/
def Free (ps : List (Char × Text)) (g : Text) : Prop :=
  ∀ l ∈ ps.map (·.1), ¬ shown l <:+: g

/-- Whether no text around the markers of a template holds one of its letters in braces. -/
def Plain (t : Text) : Prop :=
  ∀ g ∈ segments t, ∀ l ∈ letters.take (markers t).length, ¬ shown l <:+: g

instance (t : Text) : Decidable (Plain t) :=
  have (g : Text) : Decidable (∀ l ∈ letters.take (markers t).length, ¬ shown l <:+: g) :=
    List.decidableBAll _ _
  List.decidableBAll _ _

/-! ## Texts without placeholders -/

lemma placeholderAt?_eq_some (found : placeholderAt? ps u = some e) :
    ∃ l rest, u = shown l ++ rest ∧ ps.lookup l = some e := by
  unfold placeholderAt? at found
  split at found
  · split at found
    · rename_i a l b rest braces
      obtain ⟨rfl, rfl⟩ := braces
      exact ⟨l, rest, rfl, found⟩
    · cases found
  · cases found

lemma placeholderAt?_shown (ps : List (Char × Text)) (l : Char) (rest : Text) :
    placeholderAt? ps (shown l ++ rest) = ps.lookup l := by
  show (if '\x7b' = '\x7b' ∧ '\x7d' = '\x7d' then ps.lookup l else none) = ps.lookup l
  exact if_pos ⟨rfl, rfl⟩

lemma free_nil (ps : List (Char × Text)) : Free ps [] := by
  intro l _ inside
  cases List.infix_nil.1 inside

/-- A text is free if none of its places has a placeholder. -/
lemma free_cons {c : Char} :
    Free ps (c :: g) ↔ placeholderAt? ps (c :: g) = none ∧ Free ps g := by
  constructor
  · intro free
    refine ⟨?_, fun l mem inside => free l mem (List.infix_cons_iff.2 (.inr inside))⟩
    cases found : placeholderAt? ps (c :: g) with
    | none => rfl
    | some e =>
      obtain ⟨l, rest, split, known⟩ := placeholderAt?_eq_some found
      have mem : l ∈ ps.map (·.1) := by
        obtain ⟨before, behind, rfl, -⟩ := List.lookup_eq_some_iff.1 known
        simp
      exact absurd (List.infix_cons_iff.2 (.inl ⟨rest, split.symm⟩)) (free l mem)
  · rintro ⟨here, free⟩ l mem inside
    rcases List.infix_cons_iff.1 inside with ⟨rest, split⟩ | later
    · rw [← split, placeholderAt?_shown, List.lookup_eq_none_iff] at here
      obtain ⟨p, found, rfl⟩ := List.mem_map.1 mem
      have other := here p found
      rw [bne_self_eq_false] at other
      cases other
    · exact free l mem later

lemma renderFrom_of_free (free : Free ps g) : renderFrom value ps 0 g = g := by
  induction g with
  | nil => rfl
  | cons c g ih =>
    obtain ⟨here, later⟩ := free_cons.1 free
    rw [renderFrom, here]
    exact congrArg (c :: ·) (ih later)

/-- Putting markers in the place of placeholders leaves only free texts as they are, since a marker
begins with another character. -/
lemma free_of_renderFrom (same : renderFrom written ps 0 g = g) : Free ps g := by
  induction g with
  | nil => exact free_nil ps
  | cons c g ih =>
    rw [renderFrom] at same
    split at same
    · rename_i e found
      obtain ⟨l, rest, split, -⟩ := placeholderAt?_eq_some found
      have first := (List.cons.inj same).1
      have brace := (List.cons.inj split).1
      rw [brace] at first
      exact absurd first (by decide)
    · rename_i none
      exact free_cons.2 ⟨none, ih (List.cons.inj same).2⟩

/-- Markers are at least as long as placeholders. -/
lemma le_length_renderFrom (ps : List (Char × Text)) (skip : Nat) (g : Text) :
    g.length - skip ≤ (renderFrom written ps skip g).length := by
  induction g generalizing skip with
  | nil => exact Nat.le_of_eq (Nat.zero_sub skip)
  | cons c g ih =>
    cases skip with
    | succ skip =>
      have later := ih skip
      simp only [renderFrom, List.length_cons]
      omega
    | zero =>
      rw [renderFrom]
      split
      · rename_i e _
        have later := ih 2
        have size : (written e).length = e.length + 3 := by simp [written]
        rw [List.length_append, size, List.length_cons]
        omega
      · have later := ih 0
        simp only [List.length_cons]
        omega

/-- Without any values, placeholders go and nothing is added. -/
lemma length_renderFrom_le (ps : List (Char × Text)) (skip : Nat) (g : Text) :
    (renderFrom (fun _ => []) ps skip g).length ≤ g.length - skip := by
  induction g generalizing skip with
  | nil => exact Nat.zero_le _
  | cons c g ih =>
    cases skip with
    | succ skip =>
      have later := ih skip
      simp only [renderFrom, List.length_cons]
      omega
    | zero =>
      rw [renderFrom]
      split
      · have later := ih 2
        rw [List.nil_append, List.length_cons]
        omega
      · have later := ih 0
        simp only [List.length_cons]
        omega

lemma free_of_length_renderFrom
    (same : (renderFrom (fun _ => []) ps 0 g).length = g.length) : Free ps g := by
  induction g with
  | nil => exact free_nil ps
  | cons c g ih =>
    rw [renderFrom] at same
    split at same
    · have shorter := length_renderFrom_le ps 2 g
      rw [List.nil_append, List.length_cons] at same
      omega
    · rename_i none
      exact free_cons.2 ⟨none, ih (Nat.succ.inj same)⟩

/-! ## Texts woven with placeholders -/

/-- No placeholder reaches into the next one. -/
lemma placeholderAt?_append (fresh : ps.lookup '\x7b' = none) (ne : g ≠ []) (rest : Text) :
    placeholderAt? ps (g ++ '\x7b' :: rest) = placeholderAt? ps g := by
  match g, ne with
  | [a], _ =>
    cases rest with
    | nil => rfl
    | cons b rest =>
      show (if a = '\x7b' ∧ b = '\x7d' then ps.lookup '\x7b' else none) = none
      rw [fresh, ite_self]
  | [a, l], _ =>
    show (if a = '\x7b' ∧ '\x7b' = '\x7d' then ps.lookup l else none) = none
    exact if_neg fun braces => absurd braces.2 (by decide)
  | a :: l :: b :: g, _ => rfl

lemma renderFrom_append (fresh : ps.lookup '\x7b' = none) (rest : Text) (small : skip ≤ g.length) :
    renderFrom value ps skip (g ++ '\x7b' :: rest) =
      renderFrom value ps skip g ++ renderFrom value ps 0 ('\x7b' :: rest) := by
  induction g generalizing skip with
  | nil =>
    obtain rfl := Nat.le_zero.1 small
    rfl
  | cons c g ih =>
    cases skip with
    | succ skip => exact ih (Nat.le_of_succ_le_succ small)
    | zero =>
      have same := placeholderAt?_append fresh (List.cons_ne_nil c g) rest
      rw [List.cons_append] at same ⊢
      rw [renderFrom, renderFrom, same]
      split
      · rename_i e found
        obtain ⟨l, behind, split, -⟩ := placeholderAt?_eq_some found
        have size : 2 ≤ g.length := by
          rw [(List.cons.inj split).2]
          exact Nat.le_add_left 2 behind.length
        rw [ih size, List.append_assoc]
      · rw [ih (Nat.zero_le _), List.cons_append]

lemma renderFrom_shown {l : Char} (value : Text → Text) (known : ps.lookup l = some e) (rest : Text) :
    renderFrom value ps 0 (shown l ++ rest) = value e ++ renderFrom value ps 0 rest := by
  have found : placeholderAt? ps ('\x7b' :: l :: '\x7d' :: rest) = some e :=
    (placeholderAt?_shown ps l rest).trans known
  show renderFrom value ps 0 ('\x7b' :: l :: '\x7d' :: rest) = _
  rw [renderFrom, found]
  rfl

/-- Texts woven with placeholders render each for itself, woven with the values. -/
lemma renderFrom_weave {ls : List Char} {es gs : List Text} (fresh : ps.lookup '\x7b' = none)
    (known : List.Forall₂ (fun l e => ps.lookup l = some e) ls es) (size : gs.length = es.length + 1) :
    renderFrom value ps 0 (weave gs (ls.map shown)) =
      weave (gs.map (renderFrom value ps 0)) (es.map value) := by
  induction known generalizing gs with
  | nil =>
    obtain ⟨g, rfl⟩ := List.length_eq_one_iff.1 size
    show renderFrom value ps 0 (g ++ []) = renderFrom value ps 0 g ++ []
    rw [List.append_nil, List.append_nil]
  | @cons l e ls es here _ ih =>
    cases gs with
    | nil => cases size
    | cons g gs =>
      let later := weave gs (ls.map shown)
      calc renderFrom value ps 0 (g ++ shown l ++ later)
        _ = renderFrom value ps 0 (g ++ (shown l ++ later)) := by rw [List.append_assoc]
        _ = renderFrom value ps 0 g ++ renderFrom value ps 0 (shown l ++ later) :=
            renderFrom_append fresh _ (Nat.zero_le _)
        _ = renderFrom value ps 0 g ++ value e ++ renderFrom value ps 0 later := by
            rw [renderFrom_shown value here, List.append_assoc]
        _ = renderFrom value ps 0 g ++ value e ++
              weave (gs.map (renderFrom value ps 0)) (es.map value) := by
            rw [ih (Nat.succ.inj size)]

lemma length_weave {gs fs : List Text} (size : gs.length = fs.length + 1) :
    (weave gs fs).length = gs.flatten.length + fs.flatten.length := by
  induction fs generalizing gs with
  | nil =>
    obtain ⟨g, rfl⟩ := List.length_eq_one_iff.1 size
    rfl
  | cons f fs ih =>
    cases gs with
    | nil => cases size
    | cons g gs =>
      have later := ih (Nat.succ.inj size)
      simp only [weave, List.flatten_cons, List.length_append, later]
      omega

/-- Texts of the same lengths that give the same woven text are the same. -/
lemma weave_injective {gs gs' fs : List Text} (size : gs.length = fs.length + 1)
    (lengths : gs.map List.length = gs'.map List.length) (same : weave gs fs = weave gs' fs) :
    gs = gs' := by
  induction fs generalizing gs gs' with
  | nil =>
    have size' := congrArg List.length lengths
    rw [List.length_map, List.length_map, size] at size'
    obtain ⟨g, rfl⟩ := List.length_eq_one_iff.1 size
    obtain ⟨g', rfl⟩ := List.length_eq_one_iff.1 size'.symm
    have texts : g ++ [] = g' ++ [] := same
    rw [List.append_nil, List.append_nil] at texts
    rw [texts]
  | cons f fs ih =>
    cases gs with
    | nil => cases size
    | cons g gs =>
      cases gs' with
      | nil => cases lengths
      | cons g' gs' =>
        obtain ⟨first, rest⟩ := List.cons.inj lengths
        have texts : g ++ (f ++ weave gs fs) = g' ++ (f ++ weave gs' fs) := by
          rw [← List.append_assoc, ← List.append_assoc]
          exact same
        obtain ⟨rfl, behind⟩ := List.append_inj texts first
        rw [ih (Nat.succ.inj size) rest (List.append_cancel_left behind)]

lemma length_flatten_le {f g : Text → Text} (le : ∀ x, (f x).length ≤ (g x).length)
    (xs : List Text) : (xs.map f).flatten.length ≤ (xs.map g).flatten.length := by
  induction xs with
  | nil => exact Nat.le_refl 0
  | cons x xs ih =>
    simp only [List.map_cons, List.flatten_cons, List.length_append]
    exact Nat.add_le_add (le x) ih

/-- Texts that are each no longer than others, and as long in all, are each as long. -/
lemma length_eq_of_flatten {f g : Text → Text} {xs : List Text}
    (le : ∀ x, (f x).length ≤ (g x).length)
    (same : (xs.map f).flatten.length = (xs.map g).flatten.length) :
    ∀ x ∈ xs, (f x).length = (g x).length := by
  induction xs with
  | nil => exact fun x mem => (List.not_mem_nil mem).elim
  | cons y ys ih =>
    have here := le y
    have later := length_flatten_le le ys
    simp only [List.map_cons, List.flatten_cons, List.length_append] at same
    intro x mem
    rcases List.mem_cons.1 mem with rfl | mem
    · omega
    · exact ih (by omega) x mem

/-! ## Keys -/

lemma lookup_brace (t : Text) : (lettered t).placeholders.lookup '\x7b' = none := by
  rw [List.lookup_eq_none_iff]
  intro p mem
  rw [placeholders_lettered] at mem
  have letter := (List.of_mem_zip mem).1
  rw [bne_iff_ne]
  intro same
  rw [← same] at letter
  exact absurd letter (by decide)

lemma plain_iff : Plain t ↔ ∀ g ∈ segments t, Free (lettered t).placeholders g := by
  unfold Plain Free
  rw [fst_placeholders]

/-- The segments of a template render each for itself in its key. -/
lemma render_lettered (few : (markers t).length ≤ 26) (value : Text → Text) :
    (lettered t).render value =
      weave ((segments t).map (renderFrom value (lettered t).placeholders 0))
        ((expressions t).map value) := by
  obtain ⟨ls, key, given⟩ := key_lettered few
  rw [Canonical.render, key]
  exact renderFrom_weave (lookup_brace t) (given.imp fun _ _ => And.right) (length_segments t)

lemma map_renderFrom_of_plain (plain : Plain t) (value : Text → Text) :
    (segments t).map (renderFrom value (lettered t).placeholders 0) = segments t := by
  refine Eq.trans (List.map_congr_left ?_) (List.map_id _)
  exact fun g mem => renderFrom_of_free (plain_iff.1 plain g mem)

lemma render_of_plain (few : (markers t).length ≤ 26) (plain : Plain t) (value : Text → Text) :
    (lettered t).render value = rendered value t := by
  rw [render_lettered few, map_renderFrom_of_plain plain, rendered]

lemma expand_of_plain (few : (markers t).length ≤ 26) (plain : Plain t) : (lettered t).expand = t :=
  (render_of_plain few plain written).trans (weave_written t)

lemma plain_of_expand (few : (markers t).length ≤ 26) (same : (lettered t).expand = t) : Plain t := by
  let filled := renderFrom written (lettered t).placeholders 0
  have size : (segments t).length = ((expressions t).map written).length + 1 := by
    rw [List.length_map, length_segments]
  have woven : weave (segments t) ((expressions t).map written) =
      weave ((segments t).map filled) ((expressions t).map written) := by
    rw [← render_lettered few, weave_written]
    exact same.symm
  -- no segment gets shorter, so none gets longer either
  have total := congrArg List.length woven
  rw [length_weave size, length_weave (by rw [List.length_map, size]), ← List.map_id (segments t),
    List.map_map] at total
  have lengths := length_eq_of_flatten (le_length_renderFrom (lettered t).placeholders 0)
    (Nat.add_right_cancel total)
  have texts : segments t = (segments t).map filled := by
    refine weave_injective size ?_ woven
    rw [List.map_map]
    exact List.map_congr_left lengths
  rw [plain_iff]
  intro g mem
  have each := List.map_inj_left.1 (texts.symm.trans (List.map_id _).symm)
  exact free_of_renderFrom (each g mem)

lemma length_flatten_shown (ls : List Char) : (ls.map shown).flatten.length = 3 * ls.length := by
  induction ls with
  | nil => rfl
  | cons l ls ih =>
    rw [List.map_cons, List.flatten_cons, List.length_append, ih, List.length_cons, Nat.mul_succ]
    exact Nat.add_comm _ _

lemma length_key (few : (markers t).length ≤ 26) :
    (lettered t).key.length = (segments t).flatten.length + 3 * (expressions t).length := by
  obtain ⟨ls, key, given⟩ := key_lettered few
  have size : (segments t).length = (ls.map shown).length + 1 := by
    rw [length_segments, List.length_map, given.length_eq]
  rw [key, length_weave size, length_flatten_shown, given.length_eq]

/-- What is left of a key without any values is what its segments render. -/
lemma length_render_nil (few : (markers t).length ≤ 26) :
    ((lettered t).render fun _ => []).length =
      ((segments t).map (renderFrom (fun _ => []) (lettered t).placeholders 0)).flatten.length := by
  rw [render_lettered few, length_weave (by rw [List.length_map, List.length_map, length_segments])]
  have nothing : ((expressions t).map fun _ => ([] : Text)).flatten = [] := by
    rw [List.flatten_eq_nil_iff]
    intro x mem
    obtain ⟨_, -, rfl⟩ := List.mem_map.1 mem
    rfl
  rw [nothing]
  rfl

/-- A template with the key and the placeholders of a plain one is plain. It has as many markers, and
without any values its key renders as much text, so no letter in braces can have stood in it. -/
lemma plain_of_lettered {t' : Text} (few : (markers t).length ≤ 26)
    (few' : (markers t').length ≤ 26) (same : lettered t' = lettered t) (plain : Plain t) :
    Plain t' := by
  have es : expressions t' = expressions t := by
    rw [← snd_placeholders few, ← snd_placeholders few', same]
  have texts : (segments t').flatten.length = (segments t).flatten.length := by
    have keys := (length_key few').symm.trans ((congrArg (·.key.length) same).trans (length_key few))
    rw [es] at keys
    exact Nat.add_right_cancel keys
  have bare := length_render_nil few'
  rw [same, length_render_nil few, map_renderFrom_of_plain plain, ← texts, ← same,
    ← List.map_id (segments t'), List.map_map] at bare
  rw [plain_iff]
  intro g mem
  exact free_of_length_renderFrom
    (length_eq_of_flatten (length_renderFrom_le (lettered t').placeholders 0) bare.symm g mem)

/-- Of a template with few enough markers, the key with the markers put back is the template exactly if
the template is plain, and that is exactly when the lookup renders what the template literal does
whatever the values are. No other template has the key and the placeholders of a plain one. -/
theorem canonical_expands_iff_plain (t : Text) (few : (markers t).length ≤ 26) :
    ∃ c, canonical t = .ok c ∧ (c.expand = t ↔ Plain t) ∧
      ((∀ value, c.render value = rendered value t) ↔ Plain t) ∧
      (Plain t → ∀ t', canonical t' = .ok c → t' = t) := by
  refine ⟨lettered t, canonical_eq_ok.2 ⟨few, rfl⟩, ⟨plain_of_expand few, expand_of_plain few⟩,
    ⟨fun alike => ?_, render_of_plain few⟩, fun plain t' done' => ?_⟩
  · -- the markers themselves are values
    exact plain_of_expand few ((alike written).trans (weave_written t))
  · obtain ⟨few', same⟩ := canonical_eq_ok.1 done'
    have plain' := plain_of_lettered few few' same plain
    calc t' = (lettered t').expand := (expand_of_plain few' plain').symm
      _ = (lettered t).expand := by rw [same]
      _ = t := expand_of_plain few plain

/-- A letter in braces that belongs to no marker is kept apart from those that do. -/
theorem canonical_expands_other_letter :
    let t := "第\x7bb\x7d页，共$\x7bn\x7d页".toList
    (markers t).length ≤ 26 ∧ Plain t ∧
      ∃ c, canonical t = .ok c ∧ c.expand = t ∧ ∀ t', canonical t' = .ok c → t' = t := by
  intro t
  have few : (markers t).length ≤ 26 := by decide
  have plain : Plain t := by decide
  obtain ⟨c, done, expands, -, unique⟩ := canonical_expands_iff_plain t few
  exact ⟨few, plain, c, done, expands.2 plain, unique plain⟩

/-- A letter in braces in front of a marker is taken for the marker's own: the template does not come
back from its key, the lookup renders another text, and the template with the two swapped has the same
key and placeholders. -/
theorem canonical_confuses_own_letter :
    let t := "\x7ba\x7d$\x7bn\x7d".toList
    let t' := "$\x7bn\x7d\x7ba\x7d".toList
    (markers t).length = 1 ∧ t' ≠ t ∧ canonical t' = canonical t ∧
      ∃ c, canonical t = .ok c ∧ c.expand ≠ t ∧
        c.render (fun _ => "7".toList) ≠ rendered (fun _ => "7".toList) t := by
  intro t t'
  have done : canonical t = .ok (lettered t) := canonical_eq_ok.2 ⟨by decide, rfl⟩
  have done' : canonical t' = .ok (lettered t) := canonical_eq_ok.2 ⟨by decide, by decide⟩
  exact ⟨by decide, by decide, done'.trans done.symm, lettered t, done, by decide, by decide⟩

end Phrasebook.Template
