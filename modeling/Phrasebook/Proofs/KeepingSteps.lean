import Phrasebook.Proofs.KeepingEdits

/-!
# Replacements that keep the comments

A bare span may make way for everything that fits it (`keeps_of_fits`), and an attribute, with a bare
literal as its value, for the bound one (`keeps_binding`). In both cases the comments elsewhere are
kept. The colon before the name of a bound attribute comes with a space unless white space stands
there. If it does not, a comment does, since the name shows behind white space in the blanked copy;
and a comment that ends within a line ends with a character behind which no hash line opens
(`firm_before`).
-/

namespace Phrasebook

namespace Comment

variable {a g s r b u : Text} {pos k : Nat} {c : Char}

/-! ## Replacing bare spans -/

lemma Bare.outside (bare : Bare u s pos) (char : s[k]? = some c) (settled : settles c = true) :
    (shades u)[pos + k]? = some ⟨false, false⟩ := by
  have early := (List.getElem?_eq_some_iff.1 char).1
  have here := (getElem?_of_slice bare.stands early).trans char
  obtain ⟨x, found⟩ := exists_shade (List.getElem?_eq_some_iff.1 here).1
  obtain ⟨inner, spaces⟩ := bare.free k c x char found
  have outer : x.hashed = false := by
    refine Bool.eq_false_iff.2 fun hashed => ?_
    rw [spaces hashed] at settled
    cases settled
  rw [found]
  exact congrArg some (Shade.ext_iff.2 ⟨inner, outer⟩)

/-- An inert replacement for a bare span, and for a text before it that starts outside comments,
keeps all comments elsewhere. -/
lemma keeps_of_inert (inert : Inert g s r b) (firm : Firm s)
    (bare : Bare (a ++ (g ++ s ++ b)) s (a.length + g.length))
    (first : (shades (a ++ (g ++ s ++ b)))[a.length]? = some ⟨false, false⟩)
    (line : ∀ x, x <:+ a → x ≠ [] →
      opensHashLine (x ++ (r ++ b)) = opensHashLine (x ++ (g ++ s ++ b)))
    (sealed : ∃ c, r.getLast? = some c ∧ isSeal c = true) :
    Keeps (a ++ (g ++ s ++ b)) a.length (a.length + g.length + s.length) r := by
  obtain ⟨c, ends, closing⟩ := firm.last
  have size := List.length_pos_iff.2 firm.ne_nil
  have char : s[s.length - 1]? = some c := by rw [← ends, List.getLast?_eq_getElem?]
  have last : a.length + g.length + s.length - 1 = a.length + g.length + (s.length - 1) := by omega
  have outside := bare.outside char (settles_of_isSeal closing)
  rw [← last] at outside
  obtain ⟨new, length, unhashed, back, plain, same⟩ := shades_replace inert first
    (fun i x early found => by
      exact (bare.free i _ x (List.getElem?_eq_getElem early) found).1) outside line
  have front : (a ++ (g ++ s ++ b)).take a.length = a := List.take_left ..
  have behind : (a ++ (g ++ s ++ b)).drop (a.length + g.length + s.length) = b := by
    rw [← List.append_assoc]
    exact List.drop_left' (by simp only [List.length_append]; omega)
  refine ⟨⟨by omega, outside, c, ?_, closing⟩, sealed, new, length, unhashed, ?_, plain, ?_⟩
  · rw [last, getElem?_of_slice bare.stands (by omega), char]
  · obtain ⟨x, final⟩ : ∃ x, new.getLast? = some x := by
      rw [← Option.isSome_iff_exists, List.getLast?_isSome]
      rintro rfl
      exact inert.inserted (List.length_eq_zero_iff.1 length.symm)
    rw [final, back x final]
  · rw [front, behind, List.append_assoc a, same]

lemma keeps_of_fits (bare : Bare (a ++ (s ++ b)) s a.length) (firm : Firm s) (fits : Fits s r b) :
    Keeps (a ++ (s ++ b)) a.length (a.length + s.length) r := by
  obtain ⟨c, head, settled, -⟩ := firm.head
  obtain ⟨d, starts, settled'⟩ := fits.starts
  refine keeps_of_inert (g := []) fits.toInert firm bare ?_ ?_ fits.sealed
  · exact bare.outside (k := 0) (by rw [← List.head?_eq_getElem?, head]) settled
  · intro x _ _
    cases s with
    | nil => cases head
    | cons e s =>
      cases r with
      | nil => cases starts
      | cons f r =>
        obtain rfl : e = c := Option.some.inj head
        obtain rfl : f = d := Option.some.inj starts
        exact opensHashLine_congr settled' settled x _ _

/-! ## Around the name of an attribute -/

/-- A character that settles its line and shows in the blanked copy lies in no comment. -/
lemma outside_of_shown (sep : Separate u) (shown : (mask u)[pos]? = some c)
    (settled : settles c = true) : u[pos]? = some c ∧ (shades u)[pos]? = some ⟨false, false⟩ := by
  rw [getElem?_mask sep, inside_spans] at shown
  obtain ⟨d, char, same⟩ := Option.map_eq_some_iff.1 shown
  split at same
  · rw [← same] at settled
    cases settled
  · rename_i uncovered
    subst same
    have free : (inside (delimited u) pos || inside (freeHashLines u) pos) = false := by
      simpa [ne_feed_of_settles settled] using uncovered
    obtain ⟨inner, outer⟩ := Bool.or_eq_false_iff.1 free
    refine ⟨char, ?_⟩
    rw [getElem?_shades, char, inner, outer]
    rfl

/-- A comment that ends within a line ends with a character that settles it. -/
lemma settles_before {d e : Char} (sep : Separate u) (char : u[pos + 1]? = some c) (feed : c ≠ '\n')
    (outside : (shades u)[pos + 1]? = some ⟨false, false⟩) (here : u[pos]? = some e)
    (shown : (mask u)[pos]? = some d) (differs : d ≠ e) : settles e = true := by
  have covered : inside (spans u) pos = true := by
    by_contra uncovered
    rw [getElem?_mask sep, here] at shown
    simp [uncovered] at shown
    exact differs shown.symm
  obtain ⟨x, found⟩ := exists_shade (List.getElem?_eq_some_iff.1 here).1
  rw [inside_spans] at covered
  have shade := found
  rw [getElem?_shades, here] at shade
  obtain rfl := Option.some.inj shade
  rcases Bool.or_eq_true_iff.1 covered with inner | outer
  · obtain ⟨s, mem, after, before, prev, read⟩ := exists_delimited found inner
    have stop : s.stop = pos + 1 := by
      by_contra longer
      cases delimited_of_mem mem (by omega) (by omega) outside
    have ends := last_of_lengthAt (c := c) read (by
      rw [List.getElem?_drop, ← char]
      congr 1
      omega) feed
    rw [List.getElem?_drop, show s.start + (s.stop - s.start - 1) = pos by omega, here] at ends
    rcases ends with slash | arrow
    · cases slash
      rfl
    · cases arrow
      rfl
  · cases hashed_next found outer char feed outside

/-- Before a name that shows behind white space stands white space, or the end of a comment. -/
lemma firm_before {start : Nat} (sep : Separate u) (char : u[start]? = some c) (feed : c ≠ '\n')
    (outside : (shades u)[start]? = some ⟨false, false⟩)
    (blank : ∀ d, ((mask u).take start).getLast? = some d → isBlank d = true) (e : Char)
    (last : (u.take start).getLast? = some e) : isBlank e = true ∨ settles e = true := by
  cases start with
  | zero => cases last
  | succ p =>
    have inside := (List.getElem?_eq_some_iff.1 char).1
    obtain ⟨d, shown⟩ : ∃ d, (mask u)[p]? = some d :=
      ⟨_, List.getElem?_eq_getElem (by rw [length_mask sep]; omega)⟩
    have here : u[p]? = some e := by
      rw [List.getLast?_take, if_neg (Nat.succ_ne_zero p), Nat.add_sub_cancel,
        List.getElem?_eq_getElem (by omega)] at last
      rw [List.getElem?_eq_getElem (by omega), ← last]
      rfl
    by_cases solid : isBlank e = true
    · exact .inl solid
    · refine .inr (settles_before sep char feed outside here shown ?_)
      rintro rfl
      refine solid (blank d ?_)
      rw [List.getLast?_take, if_neg (Nat.succ_ne_zero p), Nat.add_sub_cancel, shown]
      rfl

/-- The characters of a range without seals are loose. -/
lemma looseAt_of_slice {start stop : Nat} (sep : Separate u) (inside : stop ≤ u.length)
    (loose : ∀ c ∈ Text.slice (mask u) start stop, isSeal c = false) {n : Nat}
    (early : n < stop - start) : LooseAt u (start + n) := by
  have within : n < (Text.slice (mask u) start stop).length := by
    rwa [Text.length_slice (by rwa [length_mask sep])]
  have char := List.getElem?_eq_getElem within
  rw [Text.getElem?_slice, if_pos early] at char
  exact looseAt_of_masked sep char (loose _ (List.getElem_mem within))

/-- White space is no seal. -/
lemma loose_of_isBlank (blank : isBlank c = true) : isSeal c = false :=
  loose_of (by decide) blank

/-- The characters of an attribute's name are no seals. -/
lemma loose_of_isAttributeChar (named : Markup.isAttributeChar c = true) : isSeal c = false :=
  loose_of (by decide) named

lemma of_isAttributeChar (named : Markup.isAttributeChar c = true) :
    settles c = true ∧ (isMark c = true → c = '-') := by
  constructor
  · by_contra loose
    simp only [settles, followsHash, Bool.not_eq_true, Bool.not_eq_false', Bool.or_eq_true,
      beq_iff_eq] at loose
    rcases loose with (((rfl | rfl) | rfl) | rfl) | rfl <;> exact absurd named (by decide)
  · intro mark
    by_contra other
    simp only [isMark, Bool.or_eq_true, beq_iff_eq, other, or_false] at mark
    rcases mark with (((rfl | rfl) | rfl) | rfl) | rfl <;> exact absurd named (by decide)

end Comment

namespace Localize

open Comment

variable {text method inner name : Text} {s : State} {t : Term} {pos start : Nat} {q : Quote}

/-- A text that is an attribute of a given name up to its value. -/
structure AttributeHead (name u : Text) : Prop where
  named : name ≠ [] ∧ ∀ c ∈ name, Markup.isAttributeChar c = true
  split : ∃ gap value, u = name ++ gap ++ '=' :: value ∧ ∀ c ∈ gap ++ value, isBlank c = true

/-- No seal stands in an attribute before its value. -/
lemma AttributeHead.loose {u : Text} (head : AttributeHead name u) : ∀ c ∈ u, isSeal c = false := by
  obtain ⟨gap, value, rfl, blank⟩ := head.split
  intro c mem
  rw [List.append_assoc, List.mem_append, List.mem_append, List.mem_cons] at mem
  rcases mem with inName | inGap | rfl | inValue
  · exact loose_of_isAttributeChar (head.named.2 c inName)
  · exact loose_of_isBlank (blank c (List.mem_append_left _ inGap))
  · rfl
  · exact loose_of_isBlank (blank c (List.mem_append_right _ inValue))

/-- The name of an attribute that shows in the blanked copy begins outside comments. -/
lemma AttributeHead.outside {u : Text} {stop : Nat} (sep : Separate u) (before : start < stop)
    (head : AttributeHead name (Text.slice (mask u) start stop)) :
    ∃ c, settles c = true ∧ u[start]? = some c ∧ (shades u)[start]? = some ⟨false, false⟩ := by
  obtain ⟨gap, value, parts, -⟩ := head.split
  obtain ⟨c, name, rfl⟩ := List.exists_cons_of_ne_nil head.named.1
  have settled := (of_isAttributeChar (head.named.2 c List.mem_cons_self)).1
  have shown : (mask u)[start]? = some c := by
    have first := Text.getElem?_slice (mask u) start stop 0
    rw [parts, if_pos (by omega)] at first
    exact first.symm
  exact ⟨c, settled, outside_of_shown sep shown settled⟩

lemma attributeHead_of_head? {prev : Option Char} {u : Text}
    (head : Markup.attributeHead? prev u = some (name, [])) :
    prev.all isBlank = true ∧ AttributeHead name u := by
  have assigns := Markup.attributeHead?_eq_some_iff.1 head
  have nonempty : name ≠ [] := by
    obtain ⟨c, cs, rfl, -⟩ := assigns.named
    exact List.cons_ne_nil c cs
  exact ⟨(Option.all_eq_true ..).2 assigns.apart, ⟨nonempty, assigns.named.isAttributeChar⟩,
    assigns.split⟩

/-- The attribute whose value a literal is stands before it, behind white space, comments aside. -/
lemma attributeHead_of_site (literal : t.isField = false)
    (site : siteOf? s t pos = some (.plainAttribute name start q)) :
    AttributeHead name (Text.slice s.buffer.masked start pos) ∧
      ∀ c, (s.buffer.masked.take start).getLast? = some c → isBlank c = true := by
  obtain ⟨h, tail, rfl, rfl⟩ := attributeTail?_of_site? literal site
  have read := Text.hits_read_behind (List.mem_of_head? tail)
  split at read
  · rename_i name head
    obtain ⟨-, rfl⟩ := Prod.mk.inj (Option.some.inj read)
    have before := start_of_plainAttribute literal site
    rw [List.drop_take, List.take_take, Nat.min_eq_left (by omega)] at head
    obtain ⟨blank, parts⟩ := attributeHead_of_head? head
    refine ⟨parts, fun c last => ?_⟩
    rw [last] at blank
    exact blank
  · cases read

lemma orderly_of_bare {a b : Text} (framed : t.Framed inner) (firm : Firm t.span)
    (bare : Bare (a ++ (t.span ++ b)) t.span a.length) : Orderly t inner b :=
  { framed with firm, guarded := bare.guarded firm, quiet := bare.quiet firm }

lemma separator_eq (u : Text) (start : Nat) : separator u start = [] ∨ separator u start = [' '] := by
  unfold separator
  split
  · exact .inl rfl
  · exact .inr rfl

/-- The colon before the name of an attribute leaves the line as it was: if it comes with a space,
the character before settles the line. -/
lemma opensHashLine_binding {a x rest : Text} {c : Char} (settled : settles c = true)
    (firm : ∀ e, a.getLast? = some e → isBlank e = true ∨ settles e = true) (suffix : x <:+ a)
    (filled : x ≠ []) (z : Text) :
    opensHashLine (x ++ (separator (a ++ c :: rest) a.length ++ ':' :: z)) =
      opensHashLine (x ++ c :: rest) := by
  obtain ⟨w, rfl⟩ := suffix
  rcases List.eq_nil_or_concat x with rfl | ⟨x, e, rfl⟩
  · exact absurd rfl filled
  · rw [List.concat_eq_append] at *
    have parts : (w ++ (x ++ [e])) ++ c :: rest = (w ++ x) ++ e :: c :: rest := by simp
    have last : ((w ++ (x ++ [e])) ++ c :: rest).drop ((w ++ (x ++ [e])).length - 1) =
        e :: c :: rest := by
      rw [parts]
      exact List.drop_left' (by simp only [List.length_append, List.length_singleton]; omega)
    unfold separator
    rw [last, List.head?_cons, Option.any_some]
    rcases firm e (by rw [← List.append_assoc, List.getLast?_concat]) with blank | stop
    · have filled : 0 < (w ++ (x ++ [e])).length := by
        simp only [List.length_append, List.length_singleton]
        omega
      rw [if_pos (Bool.and_eq_true_iff.2 ⟨decide_eq_true filled, blank⟩)]
      exact opensHashLine_congr rfl settled (x ++ [e]) _ _
    · rw [List.append_assoc, List.append_assoc]
      exact opensHashLine_congr stop stop x _ _

/-- Binding an attribute with a bare literal as its value keeps all comments outside of it, and opens
none but those that the literal does. -/
lemma keeps_binding (neutral : isNeutral method = true) (sep : Separate s.buffer.text)
    (framed : t.Framed inner) (firm : Firm t.span) (bare : Bare s.buffer.text t.span pos)
    (literal : t.isField = false) (site : siteOf? s t pos = some (.plainAttribute name start q)) :
    let r := separator s.buffer.text start ++ ':' :: name ++
      '=' :: q.char :: t.call method (some q) ++ [q.char]
    Keeps s.buffer.text start (pos + t.span.length) r ∧
      ∀ k ∈ brackets, k.1 <:+: r → k.1 <:+: t.span := by
  intro r
  have before := start_of_plainAttribute literal site
  obtain ⟨head, blank⟩ := attributeHead_of_site literal site
  unfold Buffer.masked at head blank
  unfold r
  generalize s.buffer.text = u at *
  obtain ⟨c, settled, char, outside⟩ := head.outside sep (by omega)
  have firmly := firm_before sep char (ne_feed_of_settles settled) outside blank
  obtain ⟨v, b, rfl, rfl⟩ := bare.split firm.ne_nil
  obtain ⟨a, g, rfl, rfl⟩ : ∃ a g, v = a ++ g ∧ a.length = start :=
    ⟨v.take start, v.drop start, (List.take_append_drop ..).symm, by simp; omega⟩
  have orderly := orderly_of_bare framed firm bare
  have whole : (a ++ g) ++ (t.span ++ b) = a ++ (g ++ t.span ++ b) := by
    simp only [List.append_assoc]
  rw [List.length_append] at before bare ⊢
  rw [whole] at bare outside char firmly ⊢
  rw [List.take_left] at firmly
  obtain ⟨g, rfl⟩ : ∃ g', g = c :: g' := by
    cases g with
    | nil =>
      rw [List.length_nil] at before
      omega
    | cons d g => exact ⟨g, by simpa using char⟩
  have inert := inert_binding (g := c :: g) (q := q) orderly neutral
    (fun feed => ne_feed_of_settles settled (Option.some.inj feed))
    (separator_eq (a ++ (c :: g ++ t.span ++ b)) a.length) fun d mem => by
      obtain ⟨line, mark⟩ := of_isAttributeChar (head.named.2 d mem)
      exact ⟨ne_feed_of_settles line, mark⟩
  refine ⟨keeps_of_inert inert firm bare outside ?_ ?_, fun k known => (inert.marks k known).1⟩
  · intro x suffix filled
    refine Eq.trans ?_ (@opensHashLine_binding a x (g ++ t.span ++ b) c settled firmly suffix filled
      (name ++ '=' :: q.char :: t.call method (some q) ++ [q.char] ++ b))
    simp only [List.append_assoc, List.cons_append]
  · exact ⟨q.char, List.getLast?_concat, by cases q <;> rfl⟩

end Localize

end Phrasebook
