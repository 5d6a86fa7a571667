import Phrasebook.Proofs.BodyTags
import Phrasebook.Proofs.Edits
import Phrasebook.Proofs.Respelling

/-!
# What takes the place of a term

Everything that takes the place of a term is inert (`Comment.Inert`): its call alone, behind the name
of a field or in double braces, the body of a tag or an element around the call, and the attribute
that is bound to it. Two things are asked for. The span of the term must be in order itself: no two
slashes in it open a line comment and no line feed in it opens a hash line. And the lookup method and
the names of fields, which come from outside, must be free of the characters that comments and hash
lines are made of (`Comment.isNeutral`).
-/

namespace Phrasebook

namespace Text

/-- The characters of the words of a text are those of the text between its separators. -/
lemma mem_of_mem_wordsBy {sep : Char → Bool} {t w : Text} {c : Char} (word : w ∈ wordsBy sep t)
    (mem : c ∈ w) : c ∈ t ∧ sep c = false := by
  induction t generalizing w with
  | nil => cases word
  | cons d ds ih =>
    have behind : ∀ {v}, v ∈ wordsBy sep ds → c ∈ v → c ∈ d :: ds ∧ sep c = false :=
      fun known inner => (ih known inner).imp_left (List.mem_cons_of_mem d)
    unfold wordsBy at word
    split at word
    · exact behind word mem
    · rename_i solid
      have single : c = d → c ∈ d :: ds ∧ sep c = false := by
        rintro rfl
        exact ⟨List.mem_cons_self, Bool.eq_false_iff.2 solid⟩
      split at word
      · rename_i e es v vs words
        split at word
        · rcases List.mem_cons.1 word with rfl | later
          · exact single (List.mem_singleton.1 mem)
          · exact behind (words ▸ later) mem
        · rcases List.mem_cons.1 word with rfl | later
          · rcases List.mem_cons.1 mem with same | inner
            · exact single same
            · exact behind (words ▸ List.mem_cons_self) inner
          · exact behind (words ▸ List.mem_cons_of_mem v later) mem
      · rcases List.mem_cons.1 word with rfl | later
        · exact single (List.mem_singleton.1 mem)
        · exact behind later mem

lemma mem_intercalate {sep : Text} {ts : List Text} {c : Char} (mem : c ∈ sep.intercalate ts) :
    c ∈ sep ∨ ∃ t ∈ ts, c ∈ t := by
  induction ts with
  | nil => cases mem
  | cons t ts ih =>
    cases ts with
    | nil => exact .inr ⟨t, List.mem_cons_self, by simpa using mem⟩
    | cons u ts =>
      rw [List.intercalate_cons_cons, List.append_assoc, List.mem_append, List.mem_append] at mem
      rcases mem with here | between | later
      · exact .inr ⟨t, List.mem_cons_self, here⟩
      · exact .inl between
      · rcases ih later with between | ⟨v, known, inner⟩
        · exact .inl between
        · exact .inr ⟨v, List.mem_cons_of_mem t known, inner⟩

/-- Joining the words of a text brings in nothing but spaces. -/
lemma mem_of_mem_collapse {t : Text} {c : Char} (mem : c ∈ collapse t) :
    c = ' ' ∨ c ∈ t ∧ isBlank c = false := by
  rcases mem_intercalate mem with between | ⟨w, word, inner⟩
  · exact .inl (List.mem_singleton.1 between)
  · exact .inr (mem_of_mem_wordsBy word inner)

lemma unbroken_collapse (t : Text) : '\n' ∉ collapse t := by
  intro mem
  rcases mem_of_mem_collapse mem with space | ⟨-, solid⟩
  · cases space
  · cases solid

end Text

namespace Comment

/-- Whether a text has none of the characters that comments and hash lines are made of. -/
def isNeutral (t : Text) : Bool :=
  t.all fun c => !isMark c && settles c

lemma isNeutral_iff {t : Text} :
    isNeutral t = true ↔ ∀ c ∈ t, isMark c = false ∧ settles c = true := by
  simp [isNeutral]

lemma isUnmarked_of_isNeutral {t : Text} (neutral : isNeutral t = true) : isUnmarked t = true := by
  refine List.all_eq_true.2 fun c mem => ?_
  rw [(isNeutral_iff.1 neutral c mem).1]
  rfl

/-- The characters that terms and what takes their place end with. -/
def isSeal (c : Char) : Bool :=
  ['"', '\'', '\x60', ')', '\x7d', '<', '>'].contains c

lemma isSeal_iff {c : Char} :
    isSeal c = true ↔
      c = '"' ∨ c = '\'' ∨ c = '\x60' ∨ c = ')' ∨ c = '\x7d' ∨ c = '<' ∨ c = '>' := by
  simp [isSeal]

/-- A class of characters without seals. -/
lemma loose_of {p : Char → Bool} {c : Char}
    (apart : ['"', '\'', '\x60', ')', '\x7d', '<', '>'].any p = false) (known : p c = true) :
    isSeal c = false := by
  refine Bool.eq_false_iff.2 fun sealed => ?_
  exact List.any_eq_false.1 apart c (List.contains_iff_mem.1 sealed) known

lemma settles_of_isSeal {c : Char} (sealed : isSeal c = true) : settles c = true := by
  rcases isSeal_iff.1 sealed with rfl | rfl | rfl | rfl | rfl | rfl | rfl <;> rfl

lemma unguarded_of_isSeal {c : Char} (sealed : isSeal c = true) : guards (some c) = false := by
  rcases isSeal_iff.1 sealed with rfl | rfl | rfl | rfl | rfl | rfl | rfl <;> rfl

lemma not_suffix_of_last {w s : Text} {c d : Char} (ends : w.getLast? = some c)
    (last : s.getLast? = some d) (other : c ≠ d) : ¬ w <:+ s := by
  rintro ⟨x, rfl⟩
  obtain ⟨v, rfl⟩ := List.getLast?_eq_some_iff.1 ends
  rw [← List.append_assoc, List.getLast?_concat] at last
  exact other (Option.some.inj last)

/-- Whether a text begins and ends with characters that take no part in comments and hash lines,
angle brackets aside. -/
structure Firm (s : Text) : Prop where
  head : ∃ c, s.head? = some c ∧ settles c = true ∧ (isMark c = false ∨ c = '<' ∨ c = '>')
  last : ∃ c, s.getLast? = some c ∧ isSeal c = true
  shut : ¬ ['-', '-', '>'] <:+ s

end Comment

open Comment

namespace TermKind.Frames

variable {kind : TermKind} {span inner : Text}

/-- The span of a term is firm. -/
lemma firm (frames : kind.Frames span inner)
    (neutral : ∀ name, kind = .field name → isNeutral name = true) : Firm span := by
  have unshut : ∀ {s : Text} {c : Char}, s.getLast? = some c → c ≠ '>' → ¬ ['-', '-', '>'] <:+ s :=
    fun last other => not_suffix_of_last rfl last other.symm
  cases frames with
  | doubleQuoted =>
    exact ⟨⟨'"', rfl, by decide⟩, ⟨'"', List.getLast?_concat, rfl⟩,
      unshut List.getLast?_concat (by decide)⟩
  | singleQuoted =>
    exact ⟨⟨'\'', rfl, by decide⟩, ⟨'\'', List.getLast?_concat, rfl⟩,
      unshut List.getLast?_concat (by decide)⟩
  | backtick =>
    exact ⟨⟨'\x60', rfl, by decide⟩, ⟨'\x60', List.getLast?_concat, rfl⟩,
      unshut List.getLast?_concat (by decide)⟩
  | tagBody =>
    exact ⟨⟨'>', rfl, by decide⟩, ⟨'<', List.getLast?_concat, rfl⟩,
      unshut List.getLast?_concat (by decide)⟩
  | @elementBody tag attributes _ known =>
    rw [← List.append_assoc, ← List.append_assoc]
    refine ⟨⟨'<', rfl, by decide⟩, ⟨'>', List.getLast?_concat, rfl⟩, fun dashes => ?_⟩
    rcases List.suffix_concat_iff.1 dashes with short | ⟨x, split, ends⟩
    · cases short
    · obtain rfl : ['-', '-'] = x := List.append_left_injective ['>'] split
      obtain ⟨e, last, other⟩ : ∃ e, tag.getLast? = some e ∧ '-' ≠ e := by
        simp only [Term.bodyTags, List.mem_cons, List.not_mem_nil, or_false] at known
        rcases known with rfl | rfl | rfl | rfl
        · exact ⟨'n', rfl, by decide⟩
        · exact ⟨'n', rfl, by decide⟩
        · exact ⟨'n', rfl, by decide⟩
        · exact ⟨'a', rfl, by decide⟩
      refine not_suffix_of_last rfl ?_ other ends
      rw [List.getLast?_append, last, Option.some_or]
  | @field name gap space inner named _ _ _ _ _ =>
    obtain ⟨c, rest, rfl⟩ := List.exists_cons_of_ne_nil named
    obtain ⟨plain, settled⟩ := isNeutral_iff.1 (neutral _ rfl) c List.mem_cons_self
    exact ⟨⟨c, rfl, settled, .inl plain⟩, ⟨'\'', List.getLast?_concat, rfl⟩,
      unshut List.getLast?_concat (by decide)⟩

/-- The inner text stands in the span, and what stands before it guards no slashes. -/
lemma split (frames : kind.Frames span inner) :
    ∃ pre post, span = pre ++ inner ++ post ∧ guards pre.getLast? = false := by
  cases frames with
  | doubleQuoted => exact ⟨['"'], ['"'], rfl, rfl⟩
  | singleQuoted => exact ⟨['\''], ['\''], rfl, rfl⟩
  | backtick => exact ⟨['\x60'], ['\x60'], rfl, rfl⟩
  | tagBody => exact ⟨['>'], ['<'], rfl, rfl⟩
  | @elementBody tag attributes =>
    refine ⟨'<' :: tag ++ attributes ++ ['>'], "</".toList ++ tag ++ ['>'], by simp, ?_⟩
    rw [List.getLast?_concat]
    rfl
  | @field name gap space =>
    refine ⟨name ++ gap ++ ':' :: space ++ ['\''], ['\''], by simp, ?_⟩
    rw [List.getLast?_concat]
    rfl

end TermKind.Frames

namespace Term

/-- How the phrase of a term comes from the text in its frame. -/
structure Framed (t : Term) (inner : Text) : Prop where
  frames : t.kind.Frames t.span inner
  content : t.content = if t.isBody then Text.collapse (Text.strip inner) else Text.strip inner

variable {t : Term} {inner : Text}

/-- The stripped inner text stands in the span behind no guard. -/
lemma Framed.strip_split (framed : t.Framed inner) :
    ∃ a b, t.span = a ++ Text.strip inner ++ b ∧ guards a.getLast? = false := by
  obtain ⟨pre, post, span, plain⟩ := framed.frames.split
  obtain ⟨a, b, parts, blank, -⟩ := Text.strip_split inner
  refine ⟨pre ++ a, b ++ post, ?_, ?_⟩
  · rw [span]
    conv_lhs => rw [parts]
    simp only [List.append_assoc]
  · rw [List.getLast?_append]
    cases last : a.getLast? with
    | none => exact plain
    | some c => exact unguarded_of_isBlank (blank c (List.mem_of_getLast? last))

/-- The phrase of a term echoes its span. -/
lemma Framed.echoes_content (framed : t.Framed inner) (guarded : Guarded t.span) :
    Echoes t.span t.content := by
  obtain ⟨a, b, span, plain⟩ := framed.strip_split
  have bare : Echoes t.span (Text.strip inner) := by
    rw [span] at guarded ⊢
    exact .piece guarded (.inl plain)
  rw [framed.content]
  split
  · refine bare.trans (Respells.echoes ?_ bare.guarded)
    exact (respells_collapse fun c => Text.getLast?_strip).1 fun c => Text.head?_strip
  · exact bare

/-- The phrase of a term opens no hash line if its span does not. -/
lemma Framed.quiet_content {z : Text} (framed : t.Framed inner) (quiet : Quiet t.span z) :
    ∃ z', Quiet t.content z' := by
  obtain ⟨a, b, span, -⟩ := framed.strip_split
  rw [framed.content]
  split
  · exact ⟨[], .unbroken (Text.unbroken_collapse _)⟩
  · rw [span] at quiet
    exact ⟨b ++ z, quiet.piece⟩

end Term

namespace Comment

variable {s r b : Text}

lemma Quiet.cons (quiet : Quiet r b) (opens : opensHashLine (r ++ b) = false) :
    Quiet ('\n' :: r) b := by
  intro x y split
  cases x with
  | nil =>
    obtain ⟨-, rfl⟩ := List.cons.inj split
    exact opens
  | cons c x => exact quiet x y (List.cons.inj split).2

lemma Echoes.brackets (echoes : Echoes s r) {k : Text × Text} (known : k ∈ brackets) :
    (k.1 <:+: r → k.1 <:+: s) ∧ (k.2 <:+: r → k.2 <:+: s) := by
  simp only [Comment.brackets, List.mem_cons, List.not_mem_nil, or_false] at known
  rcases known with rfl | rfl
  · exact ⟨echoes.marks _ (by simp [isMark]), echoes.marks _ (by simp [isMark])⟩
  · exact ⟨echoes.marks _ (by simp [isMark]), echoes.marks _ (by simp [isMark])⟩

lemma Echoes.wrap {x o c : Text} (echoes : Echoes s x) (opening : isUnmarked o = true)
    (closing : isUnmarked c = true) : Echoes s (o ++ (x ++ c)) := by
  have behind : Echoes s (x ++ c) := echoes.append (.plain closing) fun _ d _ head =>
    .inr (isMark_eq_false closing (List.mem_of_head? head))
  exact (Echoes.plain opening).append behind fun d _ last _ =>
    .inl (isMark_eq_false opening (List.mem_of_getLast? last))

lemma Quiet.wrap {x o c : Text} (quiet : ∀ z, Quiet x z) (opening : '\n' ∉ o) (closing : '\n' ∉ c) :
    Quiet (o ++ (x ++ c)) b :=
  Quiet.append (.unbroken opening) (Quiet.append (quiet _) (.unbroken closing))

lemma Firm.ne_nil (firm : Firm s) : s ≠ [] := by
  obtain ⟨c, head, -⟩ := firm.head
  rintro rfl
  cases head

lemma ne_feed_of_settles {c : Char} (settled : settles c = true) : c ≠ '\n' := by
  rintro rfl
  cases settled

/-- An inert replacement that begins and ends as firmly as a term. -/
structure Fits (s r b : Text) : Prop extends Inert [] s r b where
  starts : ∃ c, r.head? = some c ∧ settles c = true
  sealed : ∃ c, r.getLast? = some c ∧ isSeal c = true

lemma shut_of_last {d : Char} (last : r.getLast? = some d) (sealed : isSeal d = true)
    (arrow : d = '>' → ¬ ['-', '-', '>'] <:+ r) : ∀ k ∈ brackets, ¬ k.2 <:+ r := by
  intro k known
  simp only [brackets, List.mem_cons, List.not_mem_nil, or_false] at known
  rcases known with rfl | rfl
  · refine not_suffix_of_last rfl last ?_
    rintro rfl
    cases sealed
  · by_cases same : d = '>'
    · exact arrow same
    · exact not_suffix_of_last rfl last (Ne.symm same)

/-- A text that echoes the one it replaces fits, if its ends are firm and hold no marks other than
those at the ends of the old text. -/
lemma Echoes.fits (echoes : Echoes s r) (firm : Firm s) {c d : Char} (head : r.head? = some c)
    (begins : settles c = true ∧ (isMark c = false ∨ c = '<' ∨ c = '>' ∧ s.head? = some '>'))
    (last : r.getLast? = some d) (sealed : isSeal d = true) (ends : d = '<' → s.getLast? = some '<')
    (arrow : d = '>' → ¬ ['-', '-', '>'] <:+ r) (quiet : Quiet r b) : Fits s r b where
  replaced := firm.ne_nil
  inserted := by
    rintro rfl
    cases head
  front := by
    obtain ⟨e, same, settled, -⟩ := firm.head
    rw [List.nil_append, same]
    exact fun feed => ne_feed_of_settles settled (Option.some.inj feed)
  back := by
    have plain : ∀ e, isSeal e = true → guards (some e) = false ∧ e ≠ '\n' := fun e sealed =>
      ⟨unguarded_of_isSeal sealed, ne_feed_of_settles (settles_of_isSeal sealed)⟩
    rintro e (old | new)
    · obtain ⟨f, same, sealed'⟩ := firm.last
      obtain rfl : f = e := Option.some.inj (same.symm.trans old)
      exact plain f sealed'
    · obtain rfl : d = e := Option.some.inj (last.symm.trans new)
      exact plain d sealed
  head := by
    intro e same mark
    obtain rfl : c = e := Option.some.inj (head.symm.trans same)
    exact begins.2.resolve_left (by simp [mark])
  last := by
    intro e same mark
    obtain rfl : d = e := Option.some.inj (last.symm.trans same)
    rcases isSeal_iff.1 sealed with rfl | rfl | rfl | rfl | rfl | rfl | rfl
    case inr.inr.inr.inr.inr.inl => exact .inr ⟨rfl, ends rfl⟩
    case inr.inr.inr.inr.inr.inr => exact .inl rfl
    all_goals cases mark
  shut := shut_of_last last sealed arrow
  marks := fun k known => echoes.brackets known
  guarded := echoes.guarded
  quiet := by
    refine quiet.cons ?_
    cases r with
    | nil => cases head
    | cons e r =>
      obtain rfl : e = c := Option.some.inj head
      exact opensHashLine_settles begins.1 _
  starts := ⟨c, head, begins.1⟩
  sealed := ⟨d, last, sealed⟩

end Comment

namespace Localize

open Comment

variable {t : Term} {inner method b : Text}

/-- What is asked of a term and its frame for its replacements to be inert. -/
structure Orderly (t : Term) (inner b : Text) : Prop extends t.Framed inner where
  firm : Firm t.span
  guarded : Guarded t.span
  quiet : Quiet t.span b

lemma Orderly.echoes_call (orderly : Orderly t inner b) (neutral : isNeutral method = true)
    (avoid : Option Quote) : Echoes t.span (t.call method avoid) := by
  have content := orderly.echoes_content orderly.guarded
  exact content.trans (Comment.echoes_call content.guarded (isUnmarked_of_isNeutral neutral) avoid)

lemma Orderly.quiet_call (orderly : Orderly t inner b) (neutral : isNeutral method = true)
    (avoid : Option Quote) (z : Text) : Quiet (t.call method avoid) z := by
  obtain ⟨z', quiet⟩ := orderly.quiet_content orderly.quiet
  refine Comment.quiet_call quiet (fun mem => ?_) avoid z
  exact ne_feed_of_settles (isNeutral_iff.1 neutral _ mem).2 rfl

lemma head?_call (t : Term) (neutral : isNeutral method = true) (avoid : Option Quote) :
    ∃ c, (t.call method avoid).head? = some c ∧ settles c = true ∧ isMark c = false := by
  obtain ⟨key, rest, call, -⟩ := call_cases t method avoid
  rw [call]
  cases method with
  | nil => exact ⟨'(', rfl, rfl, rfl⟩
  | cons c method =>
    obtain ⟨plain, settled⟩ := isNeutral_iff.1 neutral c List.mem_cons_self
    exact ⟨c, rfl, settled, plain⟩

/-- Around a call may stand texts without marks and line feeds, if their outer ends are firm. -/
lemma fits_wrapped (orderly : Orderly t inner b) (neutral : isNeutral method = true)
    (avoid : Option Quote) {o c : Text}
    (opening : isUnmarked o = true ∧ '\n' ∉ o) (closing : isUnmarked c = true ∧ '\n' ∉ c)
    (first : ∀ d, o.head? = some d → settles d = true)
    (last : ∀ d, c.getLast? = some d → isSeal d = true) :
    Fits t.span (o ++ (t.call method avoid ++ c)) b := by
  have echoes := (orderly.echoes_call neutral avoid).wrap opening.1 closing.1
  have quiet := Quiet.wrap (b := b) (orderly.quiet_call neutral avoid) opening.2 closing.2
  obtain ⟨d, head, begins⟩ : ∃ d, (o ++ (t.call method avoid ++ c)).head? = some d ∧
      settles d = true ∧ isMark d = false := by
    cases o with
    | nil =>
      obtain ⟨d, head, begins⟩ := head?_call t neutral avoid
      exact ⟨d, by rw [List.nil_append, List.head?_append, head, Option.some_or], begins⟩
    | cons d o => exact ⟨d, rfl, first d rfl, isMark_eq_false opening.1 List.mem_cons_self⟩
  obtain ⟨e, back, sealed, plain⟩ : ∃ e, (o ++ (t.call method avoid ++ c)).getLast? = some e ∧
      isSeal e = true ∧ isMark e = false := by
    rw [← List.append_assoc, List.getLast?_append]
    cases same : c.getLast? with
    | none =>
      refine ⟨')', ?_, rfl, rfl⟩
      rw [List.getLast?_append, getLast?_call]
      rfl
    | some e => exact ⟨e, rfl, last e same, isMark_eq_false closing.1 (List.mem_of_getLast? same)⟩
  refine echoes.fits orderly.firm head ⟨begins.1, .inl begins.2⟩ back sealed ?_ ?_ quiet
  · rintro rfl
    cases plain
  · rintro rfl
    cases plain

lemma fits_call (orderly : Orderly t inner b) (neutral : isNeutral method = true)
    (named : ∀ name, t.kind = .field name → isNeutral name = true) (avoid : Option Quote) :
    Fits t.span (fieldLabel t ++ t.call method avoid) b := by
  have label : (isUnmarked (fieldLabel t) = true ∧ '\n' ∉ fieldLabel t) ∧
      ∀ d, (fieldLabel t).head? = some d → settles d = true := by
    unfold fieldLabel
    split
    · rename_i name kind
      have known := isNeutral_iff.1 (named name kind)
      refine ⟨⟨?_, fun mem => ?_⟩, fun d head => ?_⟩
      · rw [isUnmarked, List.all_append]
        exact Bool.and_eq_true_iff.2 ⟨isUnmarked_of_isNeutral (named name kind), rfl⟩
      · rcases List.mem_append.1 mem with inner | colon
        · exact ne_feed_of_settles (known _ inner).2 rfl
        · exact absurd colon (by decide)
      · cases name with
        | nil =>
          cases head
          rfl
        | cons e name =>
          obtain rfl : e = d := Option.some.inj head
          exact (known e List.mem_cons_self).2
    · exact ⟨⟨rfl, List.not_mem_nil⟩, by simp⟩
  have fits := fits_wrapped orderly neutral avoid (c := []) label.1 ⟨rfl, List.not_mem_nil⟩ label.2
    (by simp)
  rwa [List.append_nil] at fits

lemma fits_interpolated (orderly : Orderly t inner b) (neutral : isNeutral method = true) :
    Fits t.span (interpolated (t.call method none)) b := by
  have fits := fits_wrapped orderly neutral none (o := ['\x7b', '\x7b', ' '])
    (c := [' ', '\x7d', '\x7d']) (by decide) (by decide) (by simp; decide) (by simp; decide)
  rwa [← List.append_assoc] at fits

lemma padding_bounds (inner : Text) :
    (padding inner).1 <+: inner ∧ (padding inner).2 <:+ inner ∧
      (∀ c ∈ (padding inner).1, isBlank c = true) ∧ ∀ c ∈ (padding inner).2, isBlank c = true := by
  unfold padding
  split
  · rename_i blank
    exact ⟨List.prefix_rfl, List.nil_suffix, List.all_eq_true.1 blank, nofun⟩
  · exact ⟨List.takeWhile_prefix isBlank, List.rtakeWhile_suffix isBlank inner,
      fun c mem => List.mem_takeWhile_imp mem, fun c mem => List.mem_rtakeWhile_imp mem⟩

/-- Marks at the end of a text do not reach over a character that is none. -/
lemma suffix_of_unmarked {w x q : Text} (found : w <:+ x ++ q) (marked : w.all isMark = true)
    (plain : ∀ c, x.getLast? = some c → isMark c = false) : w <:+ q := by
  rcases List.suffix_or_suffix_of_suffix found (List.suffix_append x q) with within | ⟨l, rfl⟩
  · exact within
  · obtain ⟨a, parts⟩ := found
    rw [← List.append_assoc] at parts
    have same := List.append_cancel_right parts
    rcases List.eq_nil_or_concat l with rfl | ⟨l, c, rfl⟩
    · exact List.suffix_rfl
    · rw [List.concat_eq_append] at *
      have mark := List.all_eq_true.1 marked c (by simp)
      rw [plain c (by rw [← same, ← List.append_assoc, List.getLast?_concat])] at mark
      cases mark

/-- What stands in a body around its call. -/
def braces : List (Text × Text) :=
  [(['\x7b', '\x7b', ' '], [' ', '\x7d', '\x7d']), (['\x7b'], ['\x7d'])]

/-- The replacement of a body is the body with braces and the call in place of its words. -/
lemma bodyReplacement_eq (frames : t.kind.Frames t.span inner) (body : t.isBody = true) (call : Text)
    (dialect : Dialect) :
    ∃ pre post, t.span = pre ++ inner ++ post ∧ pre ≠ [] ∧ post.head? = some '<' ∧
      ∃ k ∈ braces, bodyReplacement t call dialect =
        (pre ++ (padding inner).1) ++ (k.1 ++ (call ++ (k.2 ++ ((padding inner).2 ++ post)))) := by
  obtain ⟨pre, post, tags, span⟩ := Term.tags_of_frames frames body
  obtain ⟨k, known, parts⟩ : ∃ k ∈ braces, t.kind.inBraces dialect call = k.1 ++ (call ++ k.2) := by
    unfold TermKind.inBraces
    split
    · exact ⟨_, List.mem_cons_of_mem _ List.mem_cons_self, rfl⟩
    · exact ⟨_, List.mem_cons_self, List.append_assoc ..⟩
  obtain ⟨filled, opens⟩ : pre ≠ [] ∧ post.head? = some '<' := by
    generalize t.kind = kind at tags
    cases tags with
    | between => exact ⟨List.cons_ne_nil _ _, rfl⟩
    | element => exact ⟨List.cons_ne_nil _ _, rfl⟩
  refine ⟨pre, post, span, filled, opens, k, known, ?_⟩
  rw [bodyReplacement_of_tags tags span, parts]
  simp only [List.append_assoc]

/-- A call in braces may stand between the ends of the span. -/
lemma fits_around (orderly : Orderly t inner b) (neutral : isNeutral method = true)
    {p m n q : Text} {k : Text × Text} (known : k ∈ braces) (front : t.span = p ++ m)
    (back : t.span = n ++ q) (filled : p ≠ []) (filled' : q ≠ []) (cut : q.head? ≠ some '/') :
    Fits t.span (p ++ (k.1 ++ (t.call method none ++ (k.2 ++ q)))) b := by
  obtain ⟨⟨o, opening⟩, free, unbroken, free', unbroken', nonempty⟩ :
      (∃ o, k.1 = '\x7b' :: o) ∧ isUnmarked k.1 = true ∧ '\n' ∉ k.1 ∧
        isUnmarked k.2 = true ∧ '\n' ∉ k.2 ∧ k.2 ≠ [] := by
    simp only [braces, List.mem_cons, List.not_mem_nil, or_false] at known
    rcases known with rfl | rfl <;> exact ⟨⟨_, rfl⟩, by decide⟩
  have echoes : Echoes t.span p ∧ Echoes t.span q := by
    have guarded := orderly.guarded
    constructor
    · rw [front] at guarded ⊢
      exact .piece (a := []) guarded (.inl rfl)
    · rw [back, ← List.append_nil (n ++ q)] at guarded ⊢
      exact .piece guarded (.inr cut)
  have quiet : Quiet p (k.1 ++ (t.call method none ++ (k.2 ++ q)) ++ b) ∧ Quiet q b := by
    have quiet := orderly.quiet
    constructor
    · rw [front] at quiet
      rw [opening]
      exact quiet.piece (a := []) |>.settled rfl _
    · rw [back, ← List.append_nil (n ++ q)] at quiet
      exact quiet.piece
  obtain ⟨c, head, settled, firm⟩ := orderly.firm.head
  obtain ⟨d, last, sealed⟩ := orderly.firm.last
  refine Echoes.fits ?_ orderly.firm (c := c) ?_ ⟨settled, ?_⟩ (d := d) ?_ sealed ?_ ?_ ?_
  · exact echoes.1.glue free (by simp [opening])
      ((orderly.echoes_call neutral none).glue free' nonempty echoes.2)
  · obtain ⟨e, p, rfl⟩ := List.exists_cons_of_ne_nil filled
    rw [front] at head
    exact head
  · rcases firm with plain | rfl | rfl
    · exact .inl plain
    · exact .inr (.inl rfl)
    · exact .inr (.inr ⟨rfl, head⟩)
  · rw [back, List.getLast?_append_of_ne_nil _ filled'] at last
    simp only [← List.append_assoc]
    rwa [List.getLast?_append_of_ne_nil _ filled']
  · rintro rfl
    exact last
  · intro _ arrow
    have parts : p ++ (k.1 ++ (t.call method none ++ (k.2 ++ q))) =
        (p ++ (k.1 ++ (t.call method none ++ k.2))) ++ q := by
      simp only [List.append_assoc]
    rw [parts] at arrow
    refine orderly.firm.shut (back ▸ (suffix_of_unmarked arrow (by decide) ?_).trans
      (List.suffix_append n q))
    intro e ends
    rw [← List.append_assoc, ← List.append_assoc, List.getLast?_append_of_ne_nil _ nonempty] at ends
    exact isMark_eq_false free' (List.mem_of_getLast? ends)
  · exact quiet.1.append (Quiet.append (.unbroken unbroken)
      (Quiet.append (orderly.quiet_call neutral none _) (Quiet.append (.unbroken unbroken') quiet.2)))

lemma fits_body (orderly : Orderly t inner b) (body : t.isBody = true)
    (neutral : isNeutral method = true) (dialect : Dialect) :
    Fits t.span (bodyReplacement t (t.call method none) dialect) b := by
  obtain ⟨pre, post, span, filled, opens, k, known, parts⟩ :=
    bodyReplacement_eq orderly.frames body (t.call method none) dialect
  obtain ⟨⟨m, lead⟩, ⟨n, trail⟩, -, blank⟩ := padding_bounds inner
  generalize padding inner = pad at *
  rw [parts]
  refine fits_around orderly neutral known (m := m ++ post) (n := pre ++ n) ?_ ?_ ?_ ?_ ?_
  · rw [span, ← lead]
    simp only [List.append_assoc]
  · rw [span, ← trail]
    simp only [List.append_assoc]
  · exact List.append_ne_nil_of_left_ne_nil filled _
  · refine List.append_ne_nil_of_right_ne_nil _ ?_
    rintro rfl
    cases opens
  · rw [List.head?_append, opens]
    cases first : pad.2.head? with
    | none => simp
    | some c =>
      rintro slash
      obtain rfl : c = '/' := by simpa using slash
      exact absurd (blank '/' (List.mem_of_head? first)) (by decide)

/-- The characters of an attribute's name bring no marks behind it, since none is one of dashes. -/
lemma marks_behind {s x y : Text} {d : Char} (echoes : Echoes s (d :: y)) (other : isMark d = false)
    (dashes : ∀ c ∈ x, isMark c = true → c = '-') :
    (∀ k ∈ brackets, (k.1 <:+: x ++ d :: y → k.1 <:+: s) ∧ (k.2 <:+: x ++ d :: y → k.2 <:+: s)) ∧
      Guarded (x ++ d :: y) := by
  have across : ∀ w, (∀ c ∈ w, isMark c = true) → (∃ c ∈ w, c ≠ '-') → w <:+: x ++ d :: y →
      w <:+: s := by
    rintro w marked ⟨c, mem, odd⟩ found
    rcases Text.infix_append_cases found with left | right | ⟨l, e, f, m, rfl, -, starts⟩
    · exact absurd (dashes c (left.subset mem) (marked c mem)) odd
    · exact echoes.marks w marked right
    · obtain ⟨rfl, -⟩ := List.cons_prefix_cons.1 starts
      rw [marked f (by simp)] at other
      cases other
  refine ⟨fun k known => ?_, fun u v split => ?_⟩
  · simp only [brackets, List.mem_cons, List.not_mem_nil, or_false] at known
    rcases known with rfl | rfl
    · exact ⟨across _ (by simp [isMark]) ⟨'/', by simp⟩, across _ (by simp [isMark]) ⟨'/', by simp⟩⟩
    · exact ⟨across _ (by simp [isMark]) ⟨'<', by simp⟩, across _ (by simp [isMark]) ⟨'>', by simp⟩⟩
  · rcases List.append_eq_append_iff.1 split with ⟨as, rfl, behind⟩ | ⟨bs, rfl, same⟩
    · have inner := echoes.guarded as v behind
      cases as with
      | nil => cases inner
      | cons c as => rwa [List.getLast?_append_of_ne_nil _ (List.cons_ne_nil c as)]
    · cases bs with
      | nil => cases echoes.guarded [] v same.symm
      | cons c bs =>
        obtain ⟨rfl, -⟩ := List.cons.inj same
        cases dashes '/' (by simp) rfl

lemma inert_binding (orderly : Orderly t inner b) (neutral : isNeutral method = true)
    {g sep name : Text} {q : Quote} (front : (g ++ t.span).head? ≠ some '\n')
    (gap : sep = [] ∨ sep = [' ']) (plain : ∀ c ∈ name, c ≠ '\n' ∧ (isMark c = true → c = '-')) :
    Inert g t.span
      (sep ++ ':' :: name ++ '=' :: q.char :: t.call method (some q) ++ [q.char]) b := by
  have quote : (isMark q.char = false ∧ settles q.char = true) ∧ isSeal q.char = true := by
    cases q <;> decide
  have echoes : Echoes t.span ('=' :: (q.char :: t.call method (some q) ++ [q.char])) :=
    (orderly.echoes_call neutral (some q)).wrap (o := ['=', q.char]) (c := [q.char])
      (by simp [isUnmarked, quote.1.1, show isMark '=' = false from rfl])
      (by simp [isUnmarked, quote.1.1])
  have feed : '\n' ≠ q.char := (ne_feed_of_settles quote.1.2).symm
  have quiet : Quiet ('=' :: (q.char :: t.call method (some q) ++ [q.char])) b :=
    Quiet.wrap (o := ['=', q.char]) (c := [q.char]) (orderly.quiet_call neutral (some q))
      (by simp [feed]) (by simp [feed])
  obtain ⟨c, head, unmarked⟩ : ∃ c, (sep ++ ':' :: name).head? = some c ∧ isMark c = false := by
    rcases gap with rfl | rfl
    · exact ⟨':', rfl, rfl⟩
    · exact ⟨' ', rfl, rfl⟩
  have dashes : ∀ c ∈ sep ++ ':' :: name, c ≠ '\n' ∧ (isMark c = true → c = '-') := by
    rcases gap with rfl | rfl
    · exact List.forall_mem_cons.2 ⟨by decide, plain⟩
    · exact List.forall_mem_cons.2 ⟨by decide, List.forall_mem_cons.2 ⟨by decide, plain⟩⟩
  have opens : ∀ z, opensHashLine (sep ++ ':' :: name ++ z) = false := by
    intro z
    rcases gap with rfl | rfl
    · exact opensHashLine_settles rfl _
    · exact (opensHashLine_blank (.inl rfl) _).trans (opensHashLine_settles rfl _)
  have marks := marks_behind echoes rfl fun c mem => (dashes c mem).2
  have parts : sep ++ ':' :: name ++ '=' :: q.char :: t.call method (some q) ++ [q.char] =
      (sep ++ ':' :: name) ++ '=' :: (q.char :: t.call method (some q) ++ [q.char]) := by
    simp
  have last : (sep ++ ':' :: name ++ '=' :: (q.char :: t.call method (some q) ++ [q.char])).getLast? =
      some q.char := by
    rw [← parts, List.getLast?_concat]
  have ends : ∀ c, t.span.getLast? = some c ∨ q.char = c → guards (some c) = false ∧ c ≠ '\n' := by
    rintro c (old | rfl)
    · obtain ⟨d, same, sealed⟩ := orderly.firm.last
      obtain rfl : d = c := Option.some.inj (same.symm.trans old)
      exact ⟨unguarded_of_isSeal sealed, ne_feed_of_settles (settles_of_isSeal sealed)⟩
    · exact ⟨unguarded_of_isSeal quote.2, feed.symm⟩
  rw [parts]
  exact {
    replaced := orderly.firm.ne_nil
    inserted := by simp
    front := front
    back := fun e either => ends e (either.imp_right fun new => Option.some.inj (last.symm.trans new))
    head := by
      intro e same mark
      rw [List.head?_append, head] at same
      obtain rfl : c = e := Option.some.inj same
      rw [unmarked] at mark
      cases mark
    last := by
      intro e same mark
      obtain rfl : q.char = e := Option.some.inj (last.symm.trans same)
      rw [quote.1.1] at mark
      cases mark
    shut := shut_of_last last quote.2 fun same => by
      cases q <;> cases same
    marks := marks.1
    guarded := marks.2
    quiet := by
      refine Quiet.cons (Quiet.append (.unbroken fun mem => (dashes _ mem).1 rfl) quiet) ?_
      rw [List.append_assoc]
      exact opens _ }

end Localize

end Phrasebook
