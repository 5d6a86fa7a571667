import Mathlib.Tactic.ByContra
import Phrasebook.Proofs.Frames
import Phrasebook.Proofs.Shades

/-!
# Edits that leave the comments alone

A replacement for a piece of a text is inert if it brings no marks of comments with it, completes none
together with its neighbours, and opens no hash line (`Inert`). It leaves the shades of all other
characters as they are, if what it replaces begins and ends outside comments (`shades_replace`).
What stands between these two ends may well hold comments: they are gone then, but the others are
kept.

The reader of `shades` is followed across the edit: up to the replaced piece it finds the same
(`shadesFrom_front`), through the replacement it goes without anything left to remember
(`shadesFrom_through`), and from there on it finds the same again (`shadesFrom_behind`).
-/

namespace Phrasebook

namespace Text

lemma find?_eq_none_iff {p t : Text} : find? p t = none ↔ ¬ p <:+: t := by
  induction t with
  | nil =>
    rw [List.infix_nil, find?]
    cases p <;> simp
  | cons c cs ih =>
    rw [List.infix_cons_iff, find?, ← List.isPrefixOf_iff_prefix]
    split
    · rename_i front
      simp [front]
    · rename_i front
      simp [front, ih]

/-- A search that ends within the front of a text does not look at the rest. -/
lemma find?_append {p t u : Text} {i : Nat} (found : find? p (t ++ u) = some i)
    (within : i + p.length ≤ t.length) (v : Text) : find? p (t ++ v) = some i := by
  induction t generalizing i with
  | nil =>
    obtain rfl : p = [] :=
      List.length_eq_zero_iff.1 (by simpa using Nat.le_trans (Nat.le_add_left _ _) within)
    obtain rfl : i = 0 := by simpa using within
    cases v <;> rfl
  | cons c cs ih =>
    rw [List.cons_append, find?] at found ⊢
    have bounded : p.length ≤ (c :: cs).length →
        ∀ w, (p.isPrefixOf (c :: (cs ++ w)) = true ↔ p <+: c :: cs) := by
      intro short w
      rw [List.isPrefixOf_iff_prefix]
      constructor
      · intro front
        exact List.prefix_of_prefix_length_le front (List.prefix_append (c :: cs) w) short
      · intro front
        exact front.trans (List.prefix_append (c :: cs) w)
    have short : p.length ≤ (c :: cs).length := Nat.le_trans (Nat.le_add_left _ _) within
    split at found
    · rename_i front
      cases found
      rw [if_pos ((bounded short v).2 ((bounded short u).1 front))]
    · rename_i front
      obtain ⟨j, later, rfl⟩ := Option.map_eq_some_iff.1 found
      have other : ¬ p.isPrefixOf (c :: (cs ++ v)) = true :=
        fun holds => front ((bounded short u).2 ((bounded short v).1 holds))
      rw [if_neg other, ih later (by simp only [List.length_cons] at within; omega), Option.map_some]

/-- A piece of two joined texts lies in one of them or across the joint. -/
lemma infix_append_cases {w x y : Text} (found : w <:+: x ++ y) :
    w <:+: x ∨ w <:+: y ∨ ∃ l c d m, w = l ++ c :: d :: m ∧ l ++ [c] <:+ x ∧ d :: m <+: y := by
  rcases List.infix_append_iff.1 found with left | right | ⟨l, m, rfl, ends, starts⟩
  · exact .inl left
  · exact .inr (.inl right)
  · cases m with
    | nil => exact .inl (by simpa using ends.isInfix)
    | cons d m =>
      rcases List.eq_nil_or_concat l with rfl | ⟨l, c, rfl⟩
      · exact .inr (.inl starts.isInfix)
      · rw [List.concat_eq_append] at ends
        exact .inr (.inr ⟨l, c, d, m, by simp, ends, starts⟩)

end Text

namespace Comment

/-! ## What opens and closes a comment -/

/-- The marks that open and close the comments with two ends. -/
def brackets : List (Text × Text) :=
  [(['/', '*'], ['*', '/']), (['<', '!', '-', '-'], ['-', '-', '>'])]

/-- Whether a character keeps two slashes behind it from opening a line comment. -/
def guards (prev : Option Char) : Bool :=
  prev = some ':' || prev = some '\\'

lemma brackets_ne_nil {k : Text × Text} (known : k ∈ brackets) : k.1 ≠ [] ∧ k.2 ≠ [] := by
  simp only [brackets, List.mem_cons, List.not_mem_nil, or_false] at known
  rcases known with rfl | rfl <;> simp

lemma lengthAt_bracket {k : Text × Text} (known : k ∈ brackets) (prev : Option Char) (rest : Text) :
    lengthAt prev (k.1 ++ rest) =
      (Text.find? k.2 rest).map (· + (k.1.length + k.2.length)) := by
  simp only [brackets, List.mem_cons, List.not_mem_nil, or_false] at known
  rcases known with rfl | rfl <;> rfl

lemma lengthAt_slashes (prev : Option Char) (rest : Text) :
    lengthAt prev ('/' :: '/' :: rest) =
      if guards prev then none else some (2 + (rest.takeWhile (· != '\n')).length) :=
  rfl

/-- A delimited comment is one with two ends or a line comment. -/
lemma lengthAt_cases {prev : Option Char} {t : Text} {n : Nat} (read : lengthAt prev t = some n) :
    (∃ k ∈ brackets, ∃ rest i, t = k.1 ++ rest ∧ Text.find? k.2 rest = some i ∧
      n = i + (k.1.length + k.2.length)) ∨
    ∃ rest, t = '/' :: '/' :: rest ∧ guards prev = false ∧
      n = 2 + (rest.takeWhile (· != '\n')).length := by
  unfold lengthAt at read
  split at read
  · obtain ⟨i, found, rfl⟩ := Option.map_eq_some_iff.1 read
    exact .inl ⟨_, List.mem_cons_self, _, i, rfl, found, rfl⟩
  · obtain ⟨i, found, rfl⟩ := Option.map_eq_some_iff.1 read
    exact .inl ⟨_, List.mem_cons_of_mem _ List.mem_cons_self, _, i, rfl, found, rfl⟩
  · rename_i rest
    split at read
    · cases read
    · rename_i free
      cases read
      exact .inr ⟨rest, rfl, by simpa [guards] using free, rfl⟩
  · cases read

/-! ## Reading across an edit -/

/-- Whether two texts behind a text make no difference to the reader in it. -/
structure Alike (a x y : Text) : Prop where
  /-- No comment opens that did not open before. -/
  idle : ∀ {front prev}, front <:+ a → front ≠ [] → lengthAt prev (front ++ x) = none →
    lengthAt prev (front ++ y) = none
  /-- A comment that ends in the text ends there again. -/
  closed : ∀ {front : Text} {prev n}, n ≤ front.length → lengthAt prev (front ++ x) = some n →
    lengthAt prev (front ++ y) = some n
  /-- The line is a hash line if it was. -/
  hash : ∀ {front}, front <:+ a → front ≠ [] →
    opensHashLine (front ++ y) = opensHashLine (front ++ x)

lemma Alike.tail {c : Char} {a x y : Text} (alike : Alike (c :: a) x y) : Alike a x y where
  idle := fun suffix => alike.idle (suffix.trans (List.suffix_cons c a))
  closed := alike.closed
  hash := fun suffix => alike.hash (suffix.trans (List.suffix_cons c a))

lemma delimited_of_lt {skip i : Nat} {prev : Option Char} {hash : Bool} {t : Text} {shade : Shade}
    (ahead : i < skip) (found : (shadesFrom skip prev hash t)[i]? = some shade) :
    shade.delimited = true := by
  have read := delimited_shadesFrom skip 0 prev hash t i
  rw [found, decide_eq_true ahead, Bool.true_or] at read
  obtain ⟨c, -, same⟩ := Option.map_eq_some_iff.1 read.symm
  exact same.symm

/-- Before a place in no delimited comment, the reader finds the same whichever of two texts it
reads on, and comes to the same state. -/
lemma shadesFrom_front {skip : Nat} {prev : Option Char} {hash : Bool} {a x y : Text} {shade : Shade}
    (alike : Alike a x y) (here : (shadesFrom skip prev hash (a ++ x))[a.length]? = some shade)
    (bare : shade.delimited = false) :
    ∃ f h, f.length = a.length ∧
      shadesFrom skip prev hash (a ++ x) = f ++ shadesFrom 0 (a.getLast?.or prev) h x ∧
      shadesFrom skip prev hash (a ++ y) = f ++ shadesFrom 0 (a.getLast?.or prev) h y := by
  induction a generalizing skip prev hash with
  | nil =>
    have none_left : skip = 0 := by
      by_contra more
      rw [delimited_of_lt (Nat.pos_of_ne_zero more) here] at bare
      cases bare
    subst none_left
    exact ⟨[], hash, rfl, rfl, rfl⟩
  | cons c a ih =>
    have left : leftAt skip prev (c :: a ++ y) = leftAt skip prev (c :: a ++ x) := by
      unfold leftAt
      split
      · rename_i none_left
        subst none_left
        cases read : lengthAt prev (c :: a ++ x) with
        | none => exact alike.idle List.suffix_rfl (List.cons_ne_nil c a) read
        | some n =>
          refine alike.closed ?_ read
          -- a longer comment would reach the place behind
          by_contra long
          have taken : leftAt 0 prev (c :: (a ++ x)) = some n := read
          rw [List.cons_append, shadesFrom, List.length_cons, List.getElem?_cons_succ, taken,
            Option.getD_some] at here
          rw [List.length_cons] at long
          rw [delimited_of_lt (by omega) here] at bare
          cases bare
      · rfl
    have line : hashAt skip prev hash (c :: a ++ y) = hashAt skip prev hash (c :: a ++ x) := by
      unfold hashAt
      rw [left, alike.hash List.suffix_rfl (List.cons_ne_nil c a)]
    rw [List.cons_append] at here left line
    rw [shadesFrom, List.length_cons, List.getElem?_cons_succ] at here
    obtain ⟨f, h, length, first, second⟩ := ih alike.tail here
    refine ⟨⟨(leftAt skip prev (c :: (a ++ x))).isSome,
      hashAt skip prev hash (c :: (a ++ x)) && c != '\n'⟩ :: f, h, congrArg (· + 1) length, ?_, ?_⟩
    · rw [List.cons_append, shadesFrom, first, Text.getLast?_cons_or]
      rfl
    · rw [List.cons_append, shadesFrom, left, line, List.cons_append, second, Text.getLast?_cons_or]
      rfl

/-- Behind a character in no comment, the reader remembers nothing but the character. -/
lemma shadesFrom_behind {skip : Nat} {prev : Option Char} {hash : Bool} {a b : Text} {c : Char}
    (other : c ≠ '\n')
    (here : (shadesFrom skip prev hash (a ++ c :: b))[a.length]? = some ⟨false, false⟩) :
    ∃ f, f.length = a.length + 1 ∧
      shadesFrom skip prev hash (a ++ c :: b) = f ++ shadesFrom 0 (some c) false b := by
  induction a generalizing skip prev hash with
  | nil =>
    obtain ⟨left, line⟩ := Shade.mk.inj (Option.some.inj here)
    rw [bne_iff_ne.2 other, Bool.and_true] at line
    refine ⟨[⟨(leftAt skip prev (c :: b)).isSome, hashAt skip prev hash (c :: b) && c != '\n'⟩],
      rfl, ?_⟩
    rw [List.nil_append, shadesFrom, Option.not_isSome_iff_eq_none.1 (Bool.eq_false_iff.1 left), line]
    rfl
  | cons d a ih =>
    obtain ⟨f, length, rest⟩ := ih here
    exact ⟨_ :: f, congrArg (· + 1) length, congrArg _ rest⟩

lemma lengthAt_congr {p q : Option Char} (same : guards p = guards q) (t : Text) :
    lengthAt p t = lengthAt q t := by
  unfold lengthAt
  split
  · rfl
  · rfl
  · show (if guards p = true then none else _) = if guards q = true then none else _
    rw [same]
  · rfl

/-- Two characters that neither end a line nor guard slashes are the same to the reader. -/
lemma shadesFrom_congr {c d : Char} (guarded : guards (some c) = guards (some d)) (feed : c ≠ '\n')
    (feed' : d ≠ '\n') (hash : Bool) (t : Text) :
    shadesFrom 0 (some c) hash t = shadesFrom 0 (some d) hash t := by
  cases t with
  | nil => rfl
  | cons e t =>
    have left : leftAt 0 (some c) (e :: t) = leftAt 0 (some d) (e :: t) := lengthAt_congr guarded _
    have line : hashAt 0 (some c) hash (e :: t) = hashAt 0 (some d) hash (e :: t) := by
      simp [hashAt, startsLine, feed, feed']
    rw [shadesFrom, left, line, shadesFrom]

/-- Whether no line feed of a text opens a hash line, where the text goes on with another one. -/
def Quiet (t b : Text) : Prop :=
  ∀ x y, t = x ++ '\n' :: y → opensHashLine (y ++ b) = false

lemma leftAt_pos {skip n : Nat} {prev : Option Char} {t : Text}
    (left : leftAt skip prev t = some n) : 0 < n := by
  unfold leftAt at left
  split at left
  · exact (lengthAt_bounds left).1
  · cases left
    omega

/-- The reader comes out of a text with nothing to remember but its last character, if every comment
that opens in it ends before that character and no hash line opens in it. -/
lemma shadesFrom_through {skip : Nat} {prev : Option Char} {r b : Text} (short : skip ≤ r.length - 1)
    (ends : ∀ x y n, r = x ++ y → y ≠ [] → lengthAt (x.getLast?.or prev) (y ++ b) = some n →
      n < y.length)
    (first : startsLine prev = true → opensHashLine (r ++ b) = false) (quiet : Quiet r b) :
    ∃ f, f.length = r.length ∧ (∀ shade ∈ f, shade.hashed = false) ∧
      (∀ shade, f.getLast? = some shade → shade = ⟨false, false⟩) ∧
      shadesFrom skip prev false (r ++ b) = f ++ shadesFrom 0 (r.getLast?.or prev) false b := by
  induction r generalizing skip prev with
  | nil =>
    obtain rfl : skip = 0 := Nat.le_zero.1 short
    exact ⟨[], rfl, nofun, nofun, rfl⟩
  | cons c r ih =>
    have line : hashAt skip prev false (c :: (r ++ b)) = false := by
      unfold hashAt
      split
      · rename_i starts
        rw [show opensHashLine (c :: (r ++ b)) = false from first starts, Bool.and_false]
      · rfl
    have here : ∀ n, leftAt skip prev (c :: (r ++ b)) = some n → n ≤ r.length := by
      intro n left
      unfold leftAt at left
      split at left
      · exact Nat.le_of_lt_succ (ends [] (c :: r) n rfl (List.cons_ne_nil c r) left)
      · cases left
        simpa using short
    have left : (leftAt skip prev (c :: (r ++ b))).getD 1 - 1 ≤ r.length - 1 := by
      cases read : leftAt skip prev (c :: (r ++ b)) with
      | none => exact Nat.zero_le _
      | some n => exact Nat.sub_le_sub_right (here n read) 1
    obtain ⟨f, length, unhashed, last, rest⟩ := @ih _ (some c) left
      (fun x y n split nonempty read => by
        refine ends (c :: x) y n (congrArg _ split) nonempty ?_
        rwa [Text.getLast?_cons_or])
      (fun starts => quiet [] r (by rw [beq_iff_eq.1 starts]; rfl))
      (fun x y split => quiet (c :: x) y (congrArg _ split))
    refine ⟨⟨(leftAt skip prev (c :: (r ++ b))).isSome, false⟩ :: f, congrArg (· + 1) length,
      ?_, ?_, ?_⟩
    · exact List.forall_mem_cons.2 ⟨rfl, unhashed⟩
    · intro shade ends
      cases f with
      | cons x f => exact last shade (by rwa [List.getLast?_cons_cons] at ends)
      | nil =>
        -- a comment that is open at the last character would end with it
        obtain rfl := List.length_eq_zero_iff.1 length.symm
        cases read : leftAt skip prev (c :: ([] ++ b)) with
        | none =>
          rw [read] at ends
          exact (Option.some.inj ends).symm
        | some n =>
          exact absurd (here n read) (Nat.not_le_of_gt (leftAt_pos read))
    · rw [List.cons_append, shadesFrom, line, rest, Text.getLast?_cons_or]
      rfl

/-- A text in which no comment opens lies in none, and the reader comes out of it with nothing to
remember but its last character. -/
lemma shadesFrom_idle {prev : Option Char} {r b : Text}
    (idle : ∀ x y, r = x ++ y → y ≠ [] → lengthAt (x.getLast?.or prev) (y ++ b) = none)
    (first : startsLine prev = true → opensHashLine (r ++ b) = false) (quiet : Quiet r b) :
    shadesFrom 0 prev false (r ++ b) =
      List.replicate r.length ⟨false, false⟩ ++ shadesFrom 0 (r.getLast?.or prev) false b := by
  induction r generalizing prev with
  | nil => rfl
  | cons c r ih =>
    have left : leftAt 0 prev (c :: (r ++ b)) = none :=
      (if_pos rfl).trans (idle [] (c :: r) rfl (List.cons_ne_nil c r))
    have line : hashAt 0 prev false (c :: (r ++ b)) = false := by
      unfold hashAt
      split
      · rename_i starts
        rw [show opensHashLine (c :: (r ++ b)) = false from first starts, Bool.and_false]
      · rfl
    have rest := @ih (some c)
      (fun x y split nonempty => by
        rw [← Text.getLast?_cons_or]
        exact idle (c :: x) y (congrArg _ split) nonempty)
      (fun starts => quiet [] r (by rw [beq_iff_eq.1 starts]; rfl))
      (fun x y split => quiet (c :: x) y (congrArg _ split))
    rw [List.cons_append, shadesFrom, left, line, Text.getLast?_cons_or]
    exact congrArg (⟨false, false⟩ :: ·) rest

/-! ## Inert replacements -/

/-- The characters of the marks that open and close comments. -/
def isMark (c : Char) : Bool :=
  c == '/' || c == '*' || c == '<' || c == '!' || c == '-' || c == '>'

/-- Whether every two slashes of a text stand behind a character that guards them. -/
def Guarded (t : Text) : Prop :=
  ∀ x y, t = x ++ '/' :: '/' :: y → guards x.getLast? = true

/-- A replacement `r` for a text `s` with another text `g` before it, where the text goes on with `b`:
it brings in no marks of comments, neither by itself nor together with its neighbours, and no hash
lines. -/
structure Inert (g s r b : Text) : Prop where
  replaced : s ≠ []
  inserted : r ≠ []
  /-- No line ends at the front. -/
  front : (g ++ s).head? ≠ some '\n'
  /-- What stands behind is not behind a line feed or a guard, neither before nor now. -/
  back : ∀ c, s.getLast? = some c ∨ r.getLast? = some c → guards (some c) = false ∧ c ≠ '\n'
  /-- The first character completes no mark, but the end of a markup comment that stood there. -/
  head : ∀ c, r.head? = some c → isMark c = true → c = '<' ∨ c = '>' ∧ (g ++ s).head? = some '>'
  /-- The last character begins no mark, but the start of a markup comment that stood there. -/
  last : ∀ c, r.getLast? = some c → isMark c = true → c = '>' ∨ c = '<' ∧ s.getLast? = some '<'
  /-- No comment ends with it. -/
  shut : ∀ k ∈ brackets, ¬ k.2 <:+ r
  /-- The marks in it stood there before. -/
  marks : ∀ k ∈ brackets, (k.1 <:+: r → k.1 <:+: s) ∧ (k.2 <:+: r → k.2 <:+: s)
  /-- No line comment opens in it. -/
  guarded : Guarded r
  /-- No hash line opens in it, were it at the start of a line. -/
  quiet : Quiet ('\n' :: r) b

/-- Two neighbours in a mark that closes a comment. -/
lemma brackets_closer {k : Text × Text} (known : k ∈ brackets) {l m : Text} {c d : Char}
    (split : k.2 = l ++ c :: d :: m) :
    isMark c = true ∧ isMark d = true ∧ c ≠ '>' ∧ c ≠ '<' ∧ d ≠ '<' ∧ (d = '>' → m = []) := by
  simp only [brackets, List.mem_cons, List.not_mem_nil, or_false] at known
  rcases known with rfl | rfl
  · rcases l with _ | ⟨a, _ | ⟨b, l⟩⟩ <;> simp at split
    obtain ⟨rfl, rfl, rfl⟩ := split
    decide
  · rcases l with _ | ⟨a, _ | ⟨b, _ | ⟨e, l⟩⟩⟩ <;> simp at split
    · obtain ⟨rfl, rfl, rfl⟩ := split
      decide
    · obtain ⟨-, rfl, rfl, rfl⟩ := split
      decide

/-- Two neighbours in a mark that opens a comment. -/
lemma brackets_opener {k : Text × Text} (known : k ∈ brackets) {l m : Text} {c d : Char}
    (split : k.1 = l ++ c :: d :: m) :
    isMark c = true ∧ isMark d = true ∧ c ≠ '>' ∧ d ≠ '<' ∧ d ≠ '>' ∧ (c = '<' → l = []) := by
  simp only [brackets, List.mem_cons, List.not_mem_nil, or_false] at known
  rcases known with rfl | rfl
  · rcases l with _ | ⟨a, _ | ⟨b, l⟩⟩ <;> simp at split
    obtain ⟨rfl, rfl, rfl⟩ := split
    decide
  · rcases l with _ | ⟨a, _ | ⟨b, _ | ⟨e, _ | ⟨f, l⟩⟩⟩⟩ <;> simp at split
    · obtain ⟨rfl, rfl, rfl⟩ := split
      decide
    · obtain ⟨rfl, rfl, rfl, rfl⟩ := split
      decide
    · obtain ⟨rfl, rfl, rfl, rfl, rfl⟩ := split
      decide

namespace Inert

variable {g s r b : Text}

/-- What closes a comment behind an inert replacement closed one before. -/
lemma closes (inert : Inert g s r b) {k : Text × Text} (known : k ∈ brackets) {f : Text}
    (found : k.2 <:+: f ++ (r ++ b)) : k.2 <:+: f ++ (g ++ s ++ b) := by
  have inner : s <:+: f ++ (g ++ s ++ b) := ⟨f ++ g, b, by simp⟩
  have back : b <:+: f ++ (g ++ s ++ b) := ⟨f ++ (g ++ s), [], by simp⟩
  have front : f <:+: f ++ (g ++ s ++ b) := ⟨[], g ++ s ++ b, by simp⟩
  rcases Text.infix_append_cases found with early | late | ⟨l, c, d, m, split, ends, starts⟩
  · exact early.trans front
  · rcases Text.infix_append_cases late with within | behind | ⟨l, c, d, m, split, ends, -⟩
    · exact (((inert.marks k known).2 within).trans inner)
    · exact behind.trans back
    · obtain ⟨mark, -, notClose, notOpen, -⟩ := brackets_closer known split
      have last : r.getLast? = some c := by
        obtain ⟨x, rfl⟩ := ends
        simp
      rcases inert.last c last mark with rfl | ⟨rfl, -⟩
      · exact absurd rfl notClose
      · exact absurd rfl notOpen
  · obtain ⟨-, mark, -, -, notOpen, alone⟩ := brackets_closer known split
    have head : r.head? = some d := by
      obtain ⟨x, same⟩ := starts
      cases r with
      | nil => exact absurd rfl inert.inserted
      | cons e r => exact congrArg some (List.cons.inj same).1.symm
    rcases inert.head d head mark with rfl | ⟨rfl, stands⟩
    · exact absurd rfl notOpen
    · obtain rfl := alone rfl
      obtain ⟨tail, whole⟩ := List.head?_eq_some_iff.1 stands
      rw [split, whole]
      obtain ⟨x, rfl⟩ := ends
      exact ⟨x, tail ++ b, by simp⟩

lemma not_starts (inert : Inert g s r b) {d : Char} (mark : isMark d = true)
    (left : d ≠ '<') (right : d ≠ '>') (t : Text) : r ++ b ≠ d :: t := by
  intro same
  cases r with
  | nil => exact inert.inserted rfl
  | cons e r =>
    obtain ⟨rfl, -⟩ := List.cons.inj same
    rcases inert.head e rfl mark with rfl | ⟨rfl, -⟩
    · exact left rfl
    · exact right rfl

/-- Before an inert replacement no comment opens that did not open before. -/
lemma idle (inert : Inert g s r b) {front : Text} {prev : Option Char}
    (filled : front ≠ []) (read : lengthAt prev (front ++ (g ++ s ++ b)) = none) :
    lengthAt prev (front ++ (r ++ b)) = none := by
  by_contra opens
  obtain ⟨n, found⟩ := Option.ne_none_iff_exists'.1 opens
  rcases lengthAt_cases found with ⟨k, known, rest, i, split, closed, -⟩ | ⟨rest, split, free, -⟩
  · have whole : ∀ bs, front = k.1 ++ bs → rest = bs ++ (r ++ b) → False := by
      rintro bs rfl rfl
      rw [List.append_assoc, lengthAt_bracket known, Option.map_eq_none_iff,
        Text.find?_eq_none_iff] at read
      refine read (inert.closes known ?_)
      by_contra missing
      rw [Text.find?_eq_none_iff.2 missing] at closed
      cases closed
    rcases List.append_eq_append_iff.1 split with ⟨as, mark, same⟩ | ⟨bs, same, rfl⟩
    · cases as with
      | nil => exact whole [] (by simpa using mark.symm) same.symm
      | cons d m =>
        rcases List.eq_nil_or_concat front with rfl | ⟨l, c, rfl⟩
        · exact filled rfl
        · rw [List.concat_eq_append, List.append_assoc, List.singleton_append] at mark
          obtain ⟨-, mark, -, left, right, -⟩ := brackets_opener known mark
          exact inert.not_starts mark left right _ same
    · exact whole bs same rfl
  · rcases front with _ | ⟨c, _ | ⟨d, f⟩⟩
    · exact filled rfl
    · exact inert.not_starts rfl (by decide) (by decide) rest (List.cons.inj split).2
    · obtain ⟨rfl, tail⟩ := List.cons.inj split
      obtain ⟨rfl, -⟩ := List.cons.inj tail
      rw [List.cons_append, List.cons_append, lengthAt_slashes, free] at read
      cases read

/-- A comment that ends before the text ends there whatever follows. -/
lemma closed_of_le {x y front : Text} {prev : Option Char} {n : Nat} (nonempty : x ≠ [])
    (solid : x.head? ≠ some '\n') (short : n ≤ front.length)
    (read : lengthAt prev (front ++ x) = some n) : lengthAt prev (front ++ y) = some n := by
  rcases lengthAt_cases read with ⟨k, known, rest, i, split, closed, rfl⟩ | ⟨rest, split, free, rfl⟩
  · rcases List.append_eq_append_iff.1 split with ⟨as, mark, same⟩ | ⟨bs, rfl, rfl⟩
    · have length := congrArg List.length mark
      rw [List.length_append] at length
      have size := List.length_pos_iff.2 (brackets_ne_nil known).2
      omega
    · rw [List.length_append] at short
      rw [List.append_assoc, lengthAt_bracket known,
        Text.find?_append closed (by omega) y, Option.map_some]
  · rcases front with _ | ⟨c, _ | ⟨d, f⟩⟩
    · simp at short
    · rw [List.length_singleton] at short
      omega
    · obtain ⟨rfl, tail⟩ := List.cons.inj split
      obtain ⟨rfl, behind⟩ := List.cons.inj tail
      obtain rfl : f ++ x = rest := behind
      rw [List.cons_append, List.cons_append, lengthAt_slashes, free]
      simp only [List.length_cons] at short
      have inner : ¬ (f.takeWhile (· != '\n')).length = f.length := by
        intro all
        cases x with
        | nil => exact nonempty rfl
        | cons e x =>
          have plain : (e != '\n') = true := bne_iff_ne.2 fun feed => solid (congrArg some feed)
          rw [List.takeWhile_append, if_pos all] at short
          simp only [List.takeWhile_cons, plain, if_true, List.length_append,
            List.length_cons] at short
          omega
      rw [List.takeWhile_append, if_neg inner, List.takeWhile_append, if_neg inner]
      rfl

/-- In an inert replacement a comment opens only where one opened before, and that one was not closed.
So what closes comments of its kind does not stand behind. -/
lemma closer_missing (inert : Inert g s r b)
    (bare : ∀ x y, s = x ++ y → y ≠ [] → ∃ q, lengthAt q (y ++ b) = none)
    {k : Text × Text} (known : k ∈ brackets) (opens : k.1 <:+: r) : ¬ k.2 <:+: b := by
  obtain ⟨u, v, stood⟩ := (inert.marks k known).1 opens
  obtain ⟨q, unclosed⟩ := bare u (k.1 ++ v) (by rw [← stood, List.append_assoc])
    (List.append_ne_nil_of_left_ne_nil (brackets_ne_nil known).1 v)
  rw [List.append_assoc, lengthAt_bracket known, Option.map_eq_none_iff,
    Text.find?_eq_none_iff] at unclosed
  exact fun stands => unclosed (stands.trans (List.suffix_append v b).isInfix)

/-- What closes a comment is not divided by the end of an inert replacement. -/
lemma closer_undivided (inert : Inert g s r b) {k : Text × Text} (known : k ∈ brackets) {l m : Text}
    {c d : Char} (split : k.2 = l ++ c :: d :: m) : ¬ l ++ [c] <:+ r := by
  rintro ⟨x, rfl⟩
  obtain ⟨mark, -, right, left, -⟩ := brackets_closer known split
  rcases inert.last c (by simp) mark with rfl | ⟨rfl, -⟩
  · exact right rfl
  · exact left rfl

/-- A comment that opens between two marks in an inert replacement is closed in it, before the last
character. -/
lemma ends_of_bracket (inert : Inert g s r b)
    (bare : ∀ x y, s = x ++ y → y ≠ [] → ∃ q, lengthAt q (y ++ b) = none)
    {k : Text × Text} (known : k ∈ brackets) {bs : Text} {i : Nat} (opens : k.1 ++ bs <:+ r)
    (closed : Text.find? k.2 (bs ++ b) = some i) : i + k.2.length < bs.length := by
  have inner : bs <:+ r := (List.suffix_append k.1 bs).trans opens
  have found : k.2 <:+: bs ++ b := by
    by_contra absent
    rw [Text.find?_eq_none_iff.2 absent] at closed
    cases closed
  rcases Text.infix_append_cases found with within | behind | ⟨l, c, d, m, parts, ends, -⟩
  · obtain ⟨j, first⟩ := Option.ne_none_iff_exists'.1
      (mt Text.find?_eq_none_iff.1 (not_not.2 within))
    have bound := Text.find?_add_le first
    have short : j + k.2.length ≠ bs.length := by
      intro all
      obtain ⟨z, tail⟩ := Text.prefix_drop_of_find? first
      obtain rfl : z = [] := by
        have length := congrArg List.length tail
        rw [List.length_append, List.length_drop] at length
        exact List.length_eq_zero_iff.1 (by omega)
      refine inert.shut k known ?_
      rw [← List.append_nil k.2, tail]
      exact (List.drop_suffix j bs).trans inner
    rw [← List.append_nil bs] at first
    cases closed.symm.trans (Text.find?_append first bound b)
    omega
  · exact absurd behind (inert.closer_missing bare known
      ((List.prefix_append k.1 bs).isInfix.trans opens.isInfix))
  · exact absurd (ends.trans inner) (inert.closer_undivided known parts)

/-- What opens a comment is not divided by the end of an inert replacement. -/
lemma opener_undivided (inert : Inert g s r b)
    (bare : ∀ x y, s = x ++ y → y ≠ [] → ∃ q, lengthAt q (y ++ b) = none)
    {k : Text × Text} (known : k ∈ brackets) {l rest m : Text} {c d : Char} {i : Nat}
    (ends : l ++ [c] <:+ r) (split : k.1 = l ++ c :: d :: m) (parts : l ++ c :: b = k.1 ++ rest) :
    Text.find? k.2 rest ≠ some i := by
  intro closed
  obtain ⟨mark, -, right, -, -, alone⟩ := brackets_opener known split
  obtain ⟨x, rfl⟩ := ends
  rcases inert.last c (by simp) mark with rfl | ⟨rfl, stood⟩
  · exact right rfl
  · -- the one character of the mark that may stand at the end stood there before
    obtain rfl := alone rfl
    obtain ⟨u, rfl⟩ := List.getLast?_eq_some_iff.1 stood
    obtain ⟨q, unclosed⟩ := bare u ['<'] rfl (List.cons_ne_nil _ _)
    rw [List.singleton_append, ← List.nil_append ('<' :: b), parts, lengthAt_bracket known,
      closed] at unclosed
    cases unclosed

/-- No line comment opens in an inert replacement. -/
lemma not_slashes (inert : Inert g s r b) {x y rest : Text} {prev : Option Char}
    (split : r = x ++ y) (nonempty : y ≠ []) (parts : y ++ b = '/' :: '/' :: rest) :
    guards (x.getLast?.or prev) ≠ false := by
  intro free
  rcases y with _ | ⟨c, _ | ⟨d, f⟩⟩
  · exact nonempty rfl
  · obtain ⟨rfl, -⟩ := List.cons.inj parts
    rcases inert.last '/' (by simp [split]) rfl with same | ⟨same, -⟩ <;> cases same
  · obtain ⟨rfl, tail⟩ := List.cons.inj parts
    obtain ⟨rfl, -⟩ := List.cons.inj tail
    have guarded := inert.guarded x f split
    cases before : x.getLast? with
    | none =>
      rw [before] at guarded
      cases guarded
    | some e =>
      rw [before] at guarded free
      rw [Option.some_or, guarded] at free
      cases free

/-- A comment that opens in an inert replacement ends in it, before the last character. -/
lemma ends (inert : Inert g s r b)
    (bare : ∀ x y, s = x ++ y → y ≠ [] → ∃ q, lengthAt q (y ++ b) = none)
    {x y : Text} {prev : Option Char} {n : Nat} (split : r = x ++ y) (nonempty : y ≠ [])
    (read : lengthAt (x.getLast?.or prev) (y ++ b) = some n) : n < y.length := by
  have back : y <:+ r := split ▸ List.suffix_append x y
  rcases lengthAt_cases read with ⟨k, known, rest, i, parts, closed, rfl⟩ | ⟨rest, parts, free, -⟩
  · have whole : ∀ bs, y = k.1 ++ bs → rest = bs ++ b → i + (k.1.length + k.2.length) < y.length := by
      rintro bs rfl rfl
      have bound := inert.ends_of_bracket bare known back closed
      rw [List.length_append]
      omega
    rcases List.append_eq_append_iff.1 parts with ⟨as, mark, same⟩ | ⟨bs, same, rfl⟩
    · cases as with
      | nil => exact whole [] (by simpa using mark.symm) same.symm
      | cons d m =>
        rcases List.eq_nil_or_concat y with rfl | ⟨l, c, rfl⟩
        · exact absurd rfl nonempty
        · rw [List.concat_eq_append] at back
          rw [List.concat_eq_append, List.append_assoc, List.singleton_append] at mark parts
          exact absurd closed (inert.opener_undivided bare known back mark parts)
    · exact whole bs same rfl
  · exact absurd free (inert.not_slashes split nonempty parts)

/-- No comment opens in an inert replacement without the marks that open one. -/
lemma idle_of_openers (inert : Inert g s r b)
    (bare : ∀ x y, s = x ++ y → y ≠ [] → ∃ q, lengthAt q (y ++ b) = none)
    (openers : ∀ k ∈ brackets, ¬ k.1 <:+: r) {x y : Text} {prev : Option Char} (split : r = x ++ y)
    (nonempty : y ≠ []) : lengthAt (x.getLast?.or prev) (y ++ b) = none := by
  have back : y <:+ r := split ▸ List.suffix_append x y
  cases read : lengthAt (x.getLast?.or prev) (y ++ b) with
  | none => rfl
  | some n =>
    exfalso
    rcases lengthAt_cases read with ⟨k, known, rest, i, parts, closed, -⟩ | ⟨rest, parts, free, -⟩
    · have apart : ¬ k.1 <+: y := fun front => openers k known (front.isInfix.trans back.isInfix)
      rcases List.append_eq_append_iff.1 parts with ⟨as, mark, -⟩ | ⟨bs, same, -⟩
      · cases as with
        | nil =>
          rw [mark, List.append_nil] at apart
          exact apart List.prefix_rfl
        | cons d m =>
          rcases List.eq_nil_or_concat y with rfl | ⟨l, c, rfl⟩
          · exact nonempty rfl
          · rw [List.concat_eq_append] at back
            rw [List.concat_eq_append, List.append_assoc, List.singleton_append] at mark parts
            exact inert.opener_undivided bare known back mark parts closed
      · exact apart (same ▸ List.prefix_append _ _)
    · exact absurd free (inert.not_slashes split nonempty parts)

end Inert

lemma lengthAt_of_bare {skip : Nat} {prev : Option Char} {hash : Bool} {x y : Text} {shade : Shade}
    (here : (shadesFrom skip prev hash (x ++ y))[x.length]? = some shade)
    (bare : shade.delimited = false) : ∃ q, lengthAt q y = none := by
  induction x generalizing skip prev hash with
  | nil =>
    cases y with
    | nil => cases here
    | cons c y =>
      obtain rfl := Option.some.inj here
      have left := Option.not_isSome_iff_eq_none.1 (Bool.eq_false_iff.1 bare)
      unfold leftAt at left
      split at left
      · exact ⟨prev, left⟩
      · cases left
  | cons c x ih => exact ih here

/-- At a place in no comment, it makes no difference what the reader remembers of the line. -/
lemma shadesFrom_hash {prev : Option Char} {hash : Bool} {x : Text} (solid : x.head? ≠ some '\n')
    (here : (shadesFrom 0 prev hash x)[0]? = some ⟨false, false⟩) (y : Text) :
    shadesFrom 0 prev hash y = shadesFrom 0 prev false y := by
  cases x with
  | nil => cases here
  | cons c x =>
    have line := (Shade.mk.inj (Option.some.inj here)).2
    rw [bne_iff_ne.2 fun same => solid (congrArg some same), Bool.and_true] at line
    unfold hashAt at line
    cases y with
    | nil => rfl
    | cons d y =>
      have same : hashAt 0 prev hash (d :: y) = hashAt 0 prev false (d :: y) := by
        unfold hashAt
        split
        · rfl
        · rename_i inner
          rwa [if_neg inner] at line
      rw [shadesFrom, same, shadesFrom]

/-- No comment opens in a piece of a text that lies in none. -/
lemma unclosed_of_bare {a g s b x y : Text}
    (bare : ∀ i shade, i < s.length →
      (shades (a ++ (g ++ s ++ b)))[a.length + g.length + i]? = some shade → shade.delimited = false)
    (split : s = x ++ y) (filled : y ≠ []) : ∃ q, lengthAt q (y ++ b) = none := by
  subst split
  have whole : a ++ (g ++ (x ++ y) ++ b) = (a ++ g ++ x) ++ (y ++ b) := by simp
  have size := List.length_pos_iff.2 filled
  rw [whole] at bare
  have inBounds : (a ++ g ++ x).length < (shades ((a ++ g ++ x) ++ (y ++ b))).length := by
    simp only [shades, length_shadesFrom, List.length_append]
    omega
  have found := List.getElem?_eq_getElem inBounds
  refine lengthAt_of_bare found (bare x.length _ ?_ ?_)
  · rw [List.length_append]
    omega
  · rw [← found, List.length_append, List.length_append]

/-- Behind a piece that ends in no comment, it makes no difference in which character it ends. -/
lemma drop_shades {a g s b : Text} {c d : Char} (closes : s.getLast? = some c)
    (plain : guards (some c) = false ∧ c ≠ '\n') (plain' : guards (some d) = false ∧ d ≠ '\n')
    (last : (shades (a ++ (g ++ s ++ b)))[a.length + g.length + s.length - 1]? =
      some ⟨false, false⟩) :
    (shades (a ++ (g ++ s ++ b))).drop (a.length + g.length + s.length) =
      shadesFrom 0 (some d) false b := by
  obtain ⟨s, rfl⟩ := List.getLast?_eq_some_iff.1 closes
  have whole : a ++ (g ++ (s ++ [c]) ++ b) = (a ++ g ++ s) ++ c :: b := by simp
  have stop : a.length + g.length + (s ++ [c]).length = (a ++ g ++ s).length + 1 := by
    simp only [List.length_append, List.length_singleton]
    omega
  rw [stop, Nat.add_sub_cancel, whole] at last
  obtain ⟨f, length, rest⟩ := shadesFrom_behind plain.2 last
  rw [shadesFrom_congr (plain.1.trans plain'.1.symm) plain.2 plain'.2] at rest
  rw [stop, shades, whole, rest]
  exact List.drop_left' length

/-- An inert replacement of a text in no comment leaves the shades of all other characters as they
are. -/
lemma shades_replace {a g s r b : Text} (inert : Inert g s r b)
    (first : (shades (a ++ (g ++ s ++ b)))[a.length]? = some ⟨false, false⟩)
    (bare : ∀ i shade, i < s.length →
      (shades (a ++ (g ++ s ++ b)))[a.length + g.length + i]? = some shade → shade.delimited = false)
    (last : (shades (a ++ (g ++ s ++ b)))[a.length + g.length + s.length - 1]? = some ⟨false, false⟩)
    (line : ∀ x, x <:+ a → x ≠ [] →
      opensHashLine (x ++ (r ++ b)) = opensHashLine (x ++ (g ++ s ++ b))) :
    ∃ new, new.length = r.length ∧ (∀ shade ∈ new, shade.hashed = false) ∧
      (∀ shade, new.getLast? = some shade → shade = ⟨false, false⟩) ∧
      ((∀ k ∈ brackets, ¬ k.1 <:+: r) → new = List.replicate r.length ⟨false, false⟩) ∧
      shades (a ++ (r ++ b)) = (shades (a ++ (g ++ s ++ b))).take a.length ++ new ++
        (shades (a ++ (g ++ s ++ b))).drop (a.length + g.length + s.length) := by
  have nonempty : g ++ s ++ b ≠ [] := by simp [inert.replaced]
  have solid : (g ++ s ++ b).head? ≠ some '\n' := by
    obtain ⟨d, t, whole⟩ := List.exists_cons_of_ne_nil
      (List.append_ne_nil_of_right_ne_nil g inert.replaced)
    have front := inert.front
    rwa [whole] at front ⊢
  have alike : Alike a (g ++ s ++ b) (r ++ b) := {
    idle := fun _ filled read => inert.idle filled read
    closed := fun short read => Inert.closed_of_le nonempty solid short read
    hash := fun {x} suffix filled => line x suffix filled }
  obtain ⟨f, h, length, before, after⟩ := shadesFrom_front alike first rfl
  -- the reader comes to the front of the text and out of the replacement with nothing in mind
  have here : (shadesFrom 0 (a.getLast?.or none) h (g ++ s ++ b))[0]? = some ⟨false, false⟩ := by
    rwa [shades, before, List.getElem?_append_right (by omega), length, Nat.sub_self] at first
  obtain ⟨new, size, unhashed, outside, through⟩ := @shadesFrom_through 0 (a.getLast?.or none) r b
    (Nat.zero_le _) (fun x y n split filled read => inert.ends (fun _ _ => unclosed_of_bare bare) split filled read)
    (fun _ => inert.quiet [] r rfl) (fun x y split => inert.quiet ('\n' :: x) y (congrArg _ split))
  have plain : (∀ k ∈ brackets, ¬ k.1 <:+: r) → new = List.replicate r.length ⟨false, false⟩ := by
    intro openers
    refine List.append_cancel_right (through.symm.trans (shadesFrom_idle (fun x y split filled => ?_)
      (fun _ => inert.quiet [] r rfl) fun x y split => inert.quiet ('\n' :: x) y (congrArg _ split)))
    exact inert.idle_of_openers (fun _ _ => unclosed_of_bare bare) openers split filled
  rw [← shadesFrom_hash solid here (r ++ b)] at through
  -- behind the text and behind the replacement it goes on in the same way
  obtain ⟨c, closes⟩ := List.getLast?_isSome.2 inert.replaced |> Option.isSome_iff_exists.1
  obtain ⟨d, closes'⟩ := List.getLast?_isSome.2 inert.inserted |> Option.isSome_iff_exists.1
  have back := drop_shades closes (inert.back c (.inl closes)) (inert.back d (.inr closes')) last
  have front : (shades (a ++ (g ++ s ++ b))).take a.length = f := by
    rw [shades, before]
    exact List.take_left' length
  refine ⟨new, size, unhashed, outside, plain, ?_⟩
  rw [closes'] at through
  rw [front, back, shades, after, through, List.append_assoc]
  rfl

end Comment

end Phrasebook
