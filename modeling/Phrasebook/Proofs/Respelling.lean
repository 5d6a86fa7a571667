import Phrasebook.Proofs.CallLiterals
import Phrasebook.Proofs.Inert

/-!
# Respelled texts

Between the span of a term and what takes its place the phrase is written anew: white space is
joined, quotes and line breaks are escaped, markers make way for letters, and their expressions move
behind. None of this brings marks of comments together. `Echoes` says so of a text and the text that
it comes from, and `Respells` says what may be done to a text in passing (`Respells.echoes`).

The call of a term echoes its phrase (`echoes_call`), and opens no hash line unless the phrase does
(`quiet_call`).
-/

namespace Phrasebook

namespace Comment

/-! ## Texts that bring no new marks -/

/-- Whether a text has no marks. -/
def isUnmarked (t : Text) : Bool :=
  t.all fun c => !isMark c

lemma isMark_eq_false {t : Text} (free : isUnmarked t = true) {c : Char} (mem : c ∈ t) :
    isMark c = false := by
  simpa using List.all_eq_true.1 free c mem

/-- Whether all runs of marks in a text stand in the text that it comes from too, and whether all its
slashes are guarded. -/
structure Echoes (s x : Text) : Prop where
  marks : ∀ w, (∀ c ∈ w, isMark c = true) → w <:+: x → w <:+: s
  guarded : Guarded x

namespace Echoes

variable {s x y : Text}

lemma trans (first : Echoes s x) (second : Echoes x y) : Echoes s y where
  marks := fun w marked found => first.marks w marked (second.marks w marked found)
  guarded := second.guarded

/-- A text without marks echoes every text. -/
lemma plain (free : isUnmarked x = true) : Echoes s x where
  marks := by
    intro w marked found
    cases w with
    | nil => exact List.nil_infix
    | cons c w =>
      have mark := marked c List.mem_cons_self
      rw [isMark_eq_false free (found.subset List.mem_cons_self)] at mark
      cases mark
  guarded := by
    rintro u v rfl
    cases isMark_eq_false free (show '/' ∈ u ++ '/' :: '/' :: v by simp)

/-- A piece of a text echoes it, unless a guard before it is cut off. -/
lemma piece {a b : Text} (guarded : Guarded (a ++ x ++ b))
    (cut : guards a.getLast? = false ∨ x.head? ≠ some '/') : Echoes (a ++ x ++ b) x where
  marks := fun _ _ found => found.trans ⟨a, b, rfl⟩
  guarded := by
    rintro u v rfl
    have stood := guarded (a ++ u) (v ++ b) (by simp)
    cases u with
    | nil =>
      rw [List.append_nil] at stood
      rcases cut with unguarded | other
      · rw [stood] at unguarded
        cases unguarded
      · exact absurd rfl other
    | cons c u => rwa [List.getLast?_append_of_ne_nil _ (List.cons_ne_nil c u)] at stood

/-- Two texts that echo a third one do so together, if no marks meet at the joint. -/
lemma append (first : Echoes s x) (second : Echoes s y)
    (joint : ∀ c d, x.getLast? = some c → y.head? = some d → isMark c = false ∨ isMark d = false) :
    Echoes s (x ++ y) where
  marks := by
    intro w marked found
    rcases Text.infix_append_cases found with left | right | ⟨l, c, d, m, rfl, ends, starts⟩
    · exact first.marks w marked left
    · exact second.marks w marked right
    · obtain ⟨z, rfl⟩ := ends
      obtain ⟨z', rfl⟩ := starts
      rcases joint c d (by simp) rfl with other | other
      · rw [marked c (by simp)] at other
        cases other
      · rw [marked d (by simp)] at other
        cases other
  guarded := by
    intro u v split
    rcases List.append_eq_append_iff.1 split with ⟨as, rfl, rfl⟩ | ⟨bs, rfl, same⟩
    · have inner := second.guarded as v rfl
      cases as with
      | nil => cases inner
      | cons c as => rwa [List.getLast?_append_of_ne_nil _ (List.cons_ne_nil c as)]
    · rcases bs with _ | ⟨c, _ | ⟨d, bs⟩⟩
      · cases second.guarded [] v same.symm
      · obtain ⟨rfl, rfl⟩ := List.cons.inj same
        rcases joint '/' '/' (by simp) rfl with other | other <;> cases other
      · obtain ⟨rfl, tail⟩ := List.cons.inj same
        obtain ⟨rfl, -⟩ := List.cons.inj tail
        exact first.guarded u bs rfl

/-- Texts without marks may stand between texts that echo a third one. -/
lemma glue {g : Text} (first : Echoes s x) (free : isUnmarked g = true) (filled : g ≠ [])
    (second : Echoes s y) : Echoes s (x ++ (g ++ y)) := by
  obtain ⟨d, g', rfl⟩ := List.exists_cons_of_ne_nil filled
  refine first.append ((Echoes.plain free).append second fun c _ last _ => ?_) fun _ e _ head => ?_
  · exact .inl (isMark_eq_false free (List.mem_of_getLast? last))
  · obtain rfl : d = e := Option.some.inj head
    exact .inr (isMark_eq_false free List.mem_cons_self)

end Echoes

/-- A text and another way to write it: some pieces make way for texts without marks. -/
inductive Respells : Text → Text → Prop where
  | nil : Respells [] []
  | keep {x y : Text} (c : Char) : Respells x y → Respells (c :: x) (c :: y)
  | swap {p q x y : Text} :
    p ≠ [] → guards p.getLast? = false →
    q ≠ [] → isUnmarked q = true →
    Respells x y →
    Respells (p ++ x) (q ++ y)

namespace Respells

variable {x y w : Text}

lemma keepAll (respells : Respells x y) (l : Text) : Respells (l ++ x) (l ++ y) := by
  induction l with
  | nil => exact respells
  | cons c l ih => exact ih.keep c

lemma refl (t : Text) : Respells t t := by
  have kept := Respells.nil.keepAll t
  rwa [List.append_nil] at kept

/-- Marks at the front of the new text stand at the front of the old one. -/
lemma front_of_front (respells : Respells x y) (marked : ∀ c ∈ w, isMark c = true)
    (front : w <+: y) : w <+: x := by
  induction respells generalizing w with
  | nil => exact front
  | keep c _ ih =>
    rcases List.prefix_cons_iff.1 front with rfl | ⟨rest, rfl, behind⟩
    · exact List.nil_prefix
    · refine List.cons_prefix_cons.2 ⟨rfl, ih (fun d mem => ?_) behind⟩
      exact marked d (List.mem_cons_of_mem c mem)
  | @swap p q x y _ _ filled free _ _ =>
    obtain ⟨d, q, rfl⟩ := List.exists_cons_of_ne_nil filled
    rcases List.prefix_cons_iff.1 front with rfl | ⟨rest, rfl, -⟩
    · exact List.nil_prefix
    · have mark := marked d List.mem_cons_self
      rw [isMark_eq_false free List.mem_cons_self] at mark
      cases mark

/-- A run of marks in the new text stands in the old one. -/
lemma infix_of_infix (respells : Respells x y) (marked : ∀ c ∈ w, isMark c = true)
    (found : w <:+: y) : w <:+: x := by
  induction respells with
  | nil => exact found
  | keep c rest ih =>
    rcases List.infix_cons_iff.1 found with front | behind
    · exact ((rest.keep c).front_of_front marked front).isInfix
    · exact List.infix_cons_iff.2 (.inr (ih behind))
  | @swap p q x y _ _ _ free _ ih =>
    have behind : w <:+: y := by
      rcases Text.infix_append_cases found with inner | behind | ⟨l, c, d, m, rfl, ends, -⟩
      · exact (Echoes.plain free).marks w marked inner
      · exact behind
      · have mem : c ∈ q := ends.subset (by simp)
        have mark := marked c (by simp)
        rw [isMark_eq_false free mem] at mark
        cases mark
    exact (ih behind).trans (List.suffix_append p x).isInfix

lemma getLast?_append_or {l : Text} (filled : l ≠ []) (u : Text) (prev : Option Char) :
    (l ++ u).getLast?.or prev = u.getLast?.or l.getLast? := by
  rw [List.getLast?_append, List.getLast?_eq_getLast_of_ne_nil filled]
  cases u.getLast? <;> rfl

/-- Behind characters that guard alike, guarded slashes stay guarded. -/
lemma guarded_behind (respells : Respells x y) {p q : Option Char}
    (kept : guards p = true → guards q = true)
    (guarded : ∀ u v, x = u ++ '/' :: '/' :: v → guards (u.getLast?.or p) = true) (u v : Text)
    (split : y = u ++ '/' :: '/' :: v) : guards (u.getLast?.or q) = true := by
  induction respells generalizing p q u with
  | nil => simp at split
  | @keep x y c rest ih =>
    cases u with
    | nil =>
      obtain ⟨rfl, rfl⟩ := List.cons.inj split
      obtain ⟨v', rfl⟩ := rest.front_of_front (List.forall_mem_singleton.2 (by decide)) ⟨v, rfl⟩
      exact kept (guarded [] v' rfl)
    | cons d u =>
      obtain ⟨rfl, behind⟩ := List.cons.inj split
      rw [Text.getLast?_cons_or]
      refine @ih (some c) (some c) id (fun u v split => ?_) u behind
      have stood := guarded (c :: u) v (congrArg _ split)
      rwa [Text.getLast?_cons_or] at stood
  | @swap a b x y filled unguarded filled' free rest ih =>
    have inner : ∃ u', u = b ++ u' ∧ y = u' ++ '/' :: '/' :: v := by
      rcases List.append_eq_append_iff.1 split with ⟨as, rfl, behind⟩ | ⟨bs, rfl, same⟩
      · exact ⟨as, rfl, behind⟩
      · cases bs with
        | nil => exact ⟨[], by simp, same.symm⟩
        | cons d bs =>
          obtain ⟨rfl, -⟩ := List.cons.inj same
          cases isMark_eq_false free (show '/' ∈ u ++ '/' :: bs by simp)
    obtain ⟨u', rfl, behind⟩ := inner
    rw [getLast?_append_or filled']
    refine @ih a.getLast? b.getLast? (fun guard => ?_) (fun u v split => ?_) u' behind
    · rw [unguarded] at guard
      cases guard
    · have stood := guarded (a ++ u) v (by rw [split, List.append_assoc])
      rwa [getLast?_append_or filled] at stood

/-- A respelled text echoes the text. -/
lemma echoes (respells : Respells x y) (guarded : Guarded x) : Echoes x y where
  marks := fun _ marked found => respells.infix_of_infix marked found
  guarded := by
    intro u v split
    have kept := @guarded_behind x y respells none none id (fun u v split => by
      rw [Option.or_none]
      exact guarded u v split) u v split
    rwa [Option.or_none] at kept

end Respells

/-! ## The ways to respell a phrase -/

lemma unguarded_of_isBlank {c : Char} (blank : isBlank c = true) : guards (some c) = false := by
  have colon : c ≠ ':' := by
    rintro rfl
    exact absurd blank (by decide)
  simp [guards, colon, Text.ne_backslash_of_isBlank blank]

/-- Joining the words of a text respells it, if it begins and ends with words. -/
lemma respells_collapse {t : Text} (solid : ∀ c, t.getLast? = some c → isBlank c = false) :
    ((∀ c, t.head? = some c → isBlank c = false) → Respells t (Text.collapse t)) ∧
      ∀ c p, t.head? = some c → isBlank c = true → (∀ d ∈ p, isBlank d = true) →
        Respells (p ++ t) (' ' :: Text.collapse t) := by
  -- the second part is for the inside of a run of white space, of which `p` stands before the text
  induction t with
  | nil => exact ⟨fun _ => .nil, nofun⟩
  | cons c cs ih =>
    cases cs with
    | nil =>
      have ends := solid c rfl
      refine ⟨fun _ => ?_, fun d p head blank _ => ?_⟩
      · rw [Text.collapse_singleton ends]
        exact .refl [c]
      · obtain rfl : c = d := Option.some.inj head
        rw [ends] at blank
        cases blank
    | cons d ds =>
      obtain ⟨word, gap⟩ := ih fun e last => solid e (by rwa [List.getLast?_cons_cons])
      have last : isBlank ((d :: ds).getLast (List.cons_ne_nil d ds)) = false :=
        solid _ (by simp [List.getLast?_eq_getLast_of_ne_nil])
      have parts := Text.collapse_cons (List.getLast_mem (List.cons_ne_nil d ds)) last c
      refine ⟨fun begins => ?_, fun e p head blank run => ?_⟩
      · rw [parts, if_neg (by simp [begins c rfl])]
        by_cases next : isBlank d = true
        · rw [if_pos next]
          exact (gap d [] rfl next nofun).keep c
        · rw [if_neg next]
          refine (word fun e head => ?_).keep c
          obtain rfl : d = e := Option.some.inj head
          exact Bool.eq_false_iff.2 next
      · obtain rfl : c = e := Option.some.inj head
        rw [parts, if_pos blank, List.append_cons]
        have longer : ∀ e ∈ p ++ [c], isBlank e = true := by
          intro e mem
          rcases List.mem_append.1 mem with mem | mem
          · exact run e mem
          · rwa [List.mem_singleton.1 mem]
        by_cases next : isBlank d = true
        · exact gap d (p ++ [c]) rfl next longer
        · refine .swap (q := [' ']) (by simp) ?_ (List.cons_ne_nil _ _) rfl (word fun e head => ?_)
          · rw [List.getLast?_concat]
            exact unguarded_of_isBlank blank
          · obtain rfl : d = e := Option.some.inj head
            exact Bool.eq_false_iff.2 next

lemma respells_escapeFrom {q : Char} (plain : isMark q = false) (unguarded : guards (some q) = false)
    (escaped : Bool) (t : Text) : Respells t (Literal.escapeFrom q escaped t) := by
  induction t generalizing escaped with
  | nil => exact .nil
  | cons c t ih =>
    rw [Literal.escapeFrom_cons, Literal.escapeOne]
    split
    · rename_i bare
      obtain rfl : c = q := by simpa using (Bool.and_eq_true_iff.1 bare).1
      refine .swap (List.cons_ne_nil c []) unguarded (List.cons_ne_nil _ _) ?_ (ih _)
      simp [isUnmarked, plain, show isMark '\\' = false from rfl]
    · exact (ih _).keep c

lemma respells_expand {f : Char → Text} (known : ∀ c, f c = [c] ∨
      guards (some c) = false ∧ f c ≠ [] ∧ isUnmarked (f c) = true) (t : Text) :
    Respells t (Text.expand f t) := by
  induction t with
  | nil => exact .nil
  | cons c t ih =>
    rw [Text.expand, List.flatMap_cons]
    rcases known c with same | ⟨unguarded, filled, free⟩
    · rw [same]
      exact ih.keep c
    · exact .swap (List.cons_ne_nil c []) unguarded filled free ih

lemma respells_spelling (avoid : Option Quote) (t : Text) :
    Respells t (Text.expand (Literal.spelling avoid) t) := by
  refine respells_expand (fun c => ?_) t
  by_cases ret : c = '\r'
  · subst ret
    rcases avoid with _ | _ | _ <;> exact .inr (by decide)
  by_cases feed : c = '\n'
  · subst feed
    rcases avoid with _ | _ | _ <;> exact .inr (by decide)
  have kept := Literal.escapeBreak_eq ret feed
  rcases avoid with _ | q
  · exact .inl kept
  · by_cases avoided : c = q.char
    · subst avoided
      cases q <;> exact .inr (by decide)
    · exact .inl (by simp [Literal.spelling, kept, Text.expand, avoided])

/-- Writing a text between quotes echoes it. -/
lemma echoes_body {t : Text} (guarded : Guarded t) (avoid : Option Quote) :
    Echoes t (Literal.body t avoid) := by
  rw [Literal.body_eq_expand]
  have plain : isMark (Quote.delimiter avoid).char = false ∧
      guards (some (Quote.delimiter avoid).char) = false := by
    rcases avoid with _ | _ | _ <;> decide
  have escaped := (respells_escapeFrom plain.1 plain.2 false t).echoes guarded
  exact escaped.trans ((respells_spelling avoid _).echoes escaped.guarded)

/-! ## Templates -/

open Template

lemma isMark_letter {c : Char} (known : c ∈ letters) : isMark c = false :=
  isMark_eq_false (show isUnmarked letters = true by decide) known

/-- Putting letters in the place of markers respells a template. -/
lemma respells_fillIn {t : Text} {pos : Nat} {ms : List (Char × Marker)} {seen : List (Char × Text)}
    (stands : ∀ p ∈ ms, p.2 ∈ markers t ∧ pos ≤ p.2.start)
    (ordered : ms.Pairwise fun a b => a.2.stop ≤ b.2.start)
    (fresh : ∀ p ∈ ms, p.1 ∈ letters) (used : ∀ p ∈ seen, p.1 ∈ letters) :
    Respells (t.drop pos) (fillIn t pos seen ms) := by
  induction ms generalizing pos seen with
  | nil => exact .refl _
  | cons p ms ih =>
    obtain ⟨letter, m⟩ := p
    obtain ⟨mem, behind⟩ : m ∈ markers t ∧ pos ≤ m.start := stands _ List.mem_cons_self
    obtain ⟨next, rest⟩ := List.pairwise_cons.1 ordered
    have here : letter ∈ letters := fresh _ List.mem_cons_self
    have tail := @ih m.stop (seen ++ [(letter, m.expression)])
      (fun p found => ⟨(stands p (List.mem_cons_of_mem _ found)).1, next p found⟩) rest
      (fun p found => fresh p (List.mem_cons_of_mem _ found)) (by
        intro p found
        rcases List.mem_append.1 found with early | last
        · exact used p early
        · rw [List.mem_singleton.1 last]
          exact here)
    have chosen : letterOf seen letter m.expression ∈ letters := by
      unfold letterOf
      split
      · rename_i p found
        exact used p (List.mem_of_find?_eq_some found)
      · exact here
    rw [drop_eq_of_marker mem behind, fillIn, List.append_assoc (Text.slice t pos m.start),
      List.append_assoc (Text.slice t pos m.start)]
    refine (Respells.swap (p := '$' :: '\x7b' :: m.expression ++ ['\x7d']) (by simp) ?_
      (List.cons_ne_nil _ _) ?_ tail).keepAll _
    · rw [List.getLast?_concat]
      rfl
    · simp [isUnmarked, isMark_letter chosen, show isMark '\x7b' = false from rfl,
        show isMark '\x7d' = false from rfl]

lemma respells_lettered (t : Text) : Respells t (lettered t).key := by
  refine @respells_fillIn t 0 (letters.zip (markers t)) [] ?_ ?_ ?_ nofun
  · exact fun p mem => ⟨(List.of_mem_zip mem).2, Nat.zero_le _⟩
  · exact pairwise_lettered (markersFrom_pairwise 0 0 t) letters
  · exact fun p mem => (List.of_mem_zip mem).1

/-- A letter for an expression that stands in a template between braces. -/
def IsPlaceholder (t : Text) (p : Char × Text) : Prop :=
  p.1 ∈ letters ∧ ∃ a b, t = (a ++ ['$', '\x7b']) ++ p.2 ++ '\x7d' :: b

lemma isPlaceholder_of_mem {t : Text} {p : Char × Text} (mem : p ∈ (lettered t).placeholders) :
    IsPlaceholder t p := by
  obtain ⟨⟨letter, m⟩, found, rfl⟩ := List.mem_map.1 mem
  obtain ⟨known, marker⟩ := List.of_mem_zip found
  obtain ⟨a, b, split, -⟩ := mem_markersFrom marker
  exact ⟨known, a, b, by simp [split]⟩

/-- The argument list of some placeholders. -/
def argumentsOf (ps : List (Char × Text)) : Text :=
  ", ".toList.intercalate (ps.map fun p => p.1 :: ": ".toList ++ p.2)

lemma argumentsOf_cons_cons (p q : Char × Text) (ps : List (Char × Text)) :
    argumentsOf (p :: q :: ps) =
      (p.1 :: ": ".toList ++ p.2) ++ (", ".toList ++ argumentsOf (q :: ps)) := by
  simp [argumentsOf]

lemma argumentsOf_singleton (p : Char × Text) : argumentsOf [p] = p.1 :: ": ".toList ++ p.2 := by
  simp [argumentsOf]

/-- The arguments of a template echo it. -/
lemma echoes_argumentsOf {t : Text} (guarded : Guarded t) {ps : List (Char × Text)}
    (known : ∀ p ∈ ps, IsPlaceholder t p) : Echoes t (argumentsOf ps) := by
  have item : ∀ p ∈ ps, Echoes t (p.1 :: ": ".toList ++ p.2) := by
    intro p mem
    obtain ⟨letter, a, b, rfl⟩ := known p mem
    have brace : guards (a ++ ['$', '\x7b']).getLast? = false := by
      rw [List.getLast?_append_of_ne_nil _ (List.cons_ne_nil _ _)]
      rfl
    have inner := Echoes.piece guarded (.inl brace)
    refine (Echoes.plain (x := []) rfl).glue ?_ (List.cons_ne_nil _ _) inner
    simp [isUnmarked, isMark_letter letter, show isMark ':' = false from rfl,
      show isMark ' ' = false from rfl]
  induction ps with
  | nil => exact .plain rfl
  | cons p ps ih =>
    have here := item p List.mem_cons_self
    cases ps with
    | nil => rwa [argumentsOf_singleton]
    | cons q ps =>
      rw [argumentsOf_cons_cons]
      refine here.glue rfl (List.cons_ne_nil _ _) (ih (fun r mem => ?_) fun r mem => ?_)
      · exact known r (List.mem_cons_of_mem p mem)
      · exact item r (List.mem_cons_of_mem p mem)

/-! ## Calls -/

/-- The call on a key echoes what the key and the text behind it echo. -/
lemma echoes_onKey {s key method rest : Text} (echoes : Echoes s key) (behind : Echoes s rest)
    (plain : isUnmarked method = true) (avoid : Option Quote) :
    Echoes s (method ++ '(' :: (Literal.quote key avoid ++ rest)) := by
  have quote : isMark (Quote.delimiter avoid).char = false := by
    rcases avoid with _ | _ | _ <;> rfl
  have opening : isUnmarked (method ++ ['(', (Quote.delimiter avoid).char]) = true := by
    unfold isUnmarked at plain ⊢
    rw [List.all_append, plain]
    simp [quote, show isMark '(' = false from rfl]
  have parts : method ++ '(' :: (Literal.quote key avoid ++ rest) =
      [] ++ (method ++ ['(', (Quote.delimiter avoid).char] ++
        (Literal.body key avoid ++ ([(Quote.delimiter avoid).char] ++ rest))) := by
    simp [Literal.quote]
  rw [parts]
  refine (Echoes.plain rfl).glue opening (by simp) ?_
  refine (echoes.trans (echoes_body echoes.guarded avoid)).glue ?_ (List.cons_ne_nil _ _) behind
  simp [isUnmarked, quote]

/-- A call is made of the method, the literal of a key that respells the phrase, and for a template the
expressions of its placeholders. -/
lemma call_cases (t : Term) (method : Text) (avoid : Option Quote) :
    ∃ key rest, t.call method avoid = method ++ '(' :: (Literal.quote key avoid ++ rest) ∧
      Respells t.content key ∧
      (rest = [')'] ∨ ∃ ps, (∀ p ∈ ps, IsPlaceholder t.content p) ∧
        rest = [',', ' ', '\x7b'] ++ (argumentsOf ps ++ ['\x7d', ')'])) := by
  have bare : ∀ key, Literal.lookupCall method key avoid =
      method ++ '(' :: (Literal.quote key avoid ++ [')']) := by
    simp [Literal.lookupCall]
  unfold Term.call
  split
  · unfold Canonical.call
    split
    · exact ⟨_, _, bare _, respells_lettered t.content, .inl rfl⟩
    · refine ⟨_, _, ?_, respells_lettered t.content,
        .inr ⟨(lettered t.content).placeholders, fun p mem => isPlaceholder_of_mem mem, rfl⟩⟩
      simp [Canonical.arguments, argumentsOf]
  · exact ⟨_, _, bare _, .refl _, .inl rfl⟩

lemma getLast?_call (t : Term) (method : Text) (avoid : Option Quote) :
    (t.call method avoid).getLast? = some ')' := by
  obtain ⟨key, rest, call, -, ends⟩ := call_cases t method avoid
  have closes : ∃ front, rest = front ++ [')'] := by
    rcases ends with rfl | ⟨ps, -, rfl⟩
    · exact ⟨[], rfl⟩
    · exact ⟨[',', ' ', '\x7b'] ++ (argumentsOf ps ++ ['\x7d']), by simp⟩
  obtain ⟨front, rfl⟩ := closes
  refine List.getLast?_eq_some_iff.2 ⟨method ++ '(' :: (Literal.quote key avoid ++ front), ?_⟩
  simp [call]

/-- The call of a term echoes its phrase. -/
lemma echoes_call {t : Term} {method : Text} (guarded : Guarded t.content)
    (plain : isUnmarked method = true) (avoid : Option Quote) :
    Echoes t.content (t.call method avoid) := by
  obtain ⟨key, rest, call, respells, ends⟩ := call_cases t method avoid
  rw [call]
  refine echoes_onKey (respells.echoes guarded) ?_ plain avoid
  rcases ends with rfl | ⟨ps, known, rfl⟩
  · exact .plain rfl
  · refine (Echoes.plain (x := []) rfl).glue rfl (List.cons_ne_nil _ _) ?_
    have arguments := (echoes_argumentsOf guarded known).glue
      (g := ['\x7d', ')']) rfl (List.cons_ne_nil _ _) (.plain (x := []) rfl)
    rwa [List.append_nil] at arguments

/-! ## Hash lines -/

namespace Quiet

variable {x y a b z : Text}

lemma unbroken (free : '\n' ∉ x) : Quiet x b := by
  rintro u v rfl
  simp at free

lemma append (first : Quiet x (y ++ b)) (second : Quiet y b) : Quiet (x ++ y) b := by
  intro u v split
  rcases List.append_eq_append_iff.1 split with ⟨as, rfl, behind⟩ | ⟨bs, rfl, same⟩
  · exact second as v behind
  · cases bs with
    | nil => exact second [] v same.symm
    | cons c bs =>
      obtain ⟨rfl, tail⟩ := List.cons.inj same
      obtain rfl : v = bs ++ y := tail
      rw [List.append_assoc]
      exact first u bs rfl

lemma piece (quiet : Quiet (a ++ x ++ z) b) : Quiet x (z ++ b) := by
  rintro u v rfl
  have line := quiet (a ++ u) (v ++ z) (by simp)
  rwa [List.append_assoc] at line

/-- A character that settles the last line makes the text quiet, if it is quiet at all. -/
lemma settled (quiet : Quiet x z) {d : Char} (plain : settles d = true) (w : Text) :
    Quiet x (d :: w) := by
  intro u v split
  refine Bool.eq_false_iff.2 fun opens => ?_
  have line := quiet u v split
  rw [opensHashLine_of_settled plain opens z] at line
  cases line

end Quiet

/-- The arguments of a template open no hash line, if the template does not. -/
lemma quiet_argumentsOf {t z : Text} (quiet : Quiet t z) {ps : List (Char × Text)}
    (known : ∀ p ∈ ps, IsPlaceholder t p) (w : Text) : Quiet (argumentsOf ps) ('\x7d' :: w) := by
  have item : ∀ p ∈ ps, ∀ d w, settles d = true → Quiet (p.1 :: ": ".toList ++ p.2) (d :: w) := by
    intro p mem d w plain
    obtain ⟨letter, a, b, rfl⟩ := known p mem
    have feed : p.1 ≠ '\n' := by
      intro same
      rw [same] at letter
      exact absurd letter (by decide)
    refine Quiet.append (.unbroken ?_) (quiet.piece.settled plain w)
    simp [Ne.symm feed]
  induction ps with
  | nil => exact .unbroken (by simp [argumentsOf])
  | cons p ps ih =>
    have here := item p List.mem_cons_self
    cases ps with
    | nil =>
      rw [argumentsOf_singleton]
      exact here '\x7d' w rfl
    | cons q ps =>
      rw [argumentsOf_cons_cons]
      refine Quiet.append (here ',' _ rfl) (Quiet.append (.unbroken (by simp)) ?_)
      exact ih (fun r mem => known r (List.mem_cons_of_mem p mem))
        fun r mem => item r (List.mem_cons_of_mem p mem)

/-- The call of a term opens no hash line, if its phrase does not. -/
lemma quiet_call {t : Term} {method z : Text} (quiet : Quiet t.content z) (free : '\n' ∉ method)
    (avoid : Option Quote) (b : Text) : Quiet (t.call method avoid) b := by
  obtain ⟨key, rest, call, -, ends⟩ := call_cases t method avoid
  have quote : '\n' ≠ (Quote.delimiter avoid).char := by
    rcases avoid with _ | _ | _ <;> decide
  have opening : '\n' ∉ method ++ '(' :: Literal.quote key avoid := by
    simp [Literal.quote, free, quote, (Literal.unbroken_body key avoid).1]
  rw [call, ← List.cons_append, ← List.append_assoc]
  refine Quiet.append (.unbroken opening) ?_
  rcases ends with rfl | ⟨ps, known, rfl⟩
  · exact .unbroken (by simp)
  · exact Quiet.append (.unbroken (by simp))
      (Quiet.append (quiet_argumentsOf quiet known _) (.unbroken (by simp)))

end Comment

end Phrasebook
