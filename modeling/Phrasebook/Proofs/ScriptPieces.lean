import Phrasebook.Literal
import Phrasebook.Proofs.QuotePairs

/-!
# Scripts as code and string literals

A script of the plain kind is a row of pieces: code without quotes and comments, and string literals
on one line, without escapes and without the opening of a comment. Nothing in it is a comment
(`mask_join`), so the scanners read it as it is.
-/

namespace Phrasebook

/-! ## Texts without comments -/

lemma Text.isPrefixOf_append_cons {p : Text} {c : Char} (other : c ∉ p) (t rest : Text) :
    p.isPrefixOf (t ++ c :: rest) = p.isPrefixOf t := by
  rw [Bool.eq_iff_iff, List.isPrefixOf_iff_prefix, List.isPrefixOf_iff_prefix]
  constructor
  · intro front
    rcases List.prefix_or_prefix_of_prefix front (List.prefix_append t (c :: rest)) with h | h
    · exact h
    · obtain ⟨tail, rfl⟩ := h
      cases tail with
      | nil => simp
      | cons d ds =>
        have same := (List.cons_prefix_cons.1 ((List.prefix_append_right_inj t).1 front)).1
        simp [same] at other
  · intro front
    exact front.trans (List.prefix_append t (c :: rest))

namespace Comment

/-- Whether a delimited comment opens at a place, closed or not. -/
def opensAt (prev : Option Char) (t : Text) : Bool :=
  "/*".toList.isPrefixOf t || "<!--".toList.isPrefixOf t ||
    ("//".toList.isPrefixOf t && prev != some ':' && prev != some '\\')

lemma opensAt_of_lengthAt {prev : Option Char} {t : Text} {n : Nat}
    (h : lengthAt prev t = some n) : opensAt prev t = true := by
  unfold lengthAt at h
  split at h
  · rfl
  · rfl
  · split at h
    · cases h
    · rename_i plain
      simpa [opensAt] using plain
  · cases h

/-- A character in no opening of a comment divides a text into parts that open comments on their
own. -/
lemma opensSomewhere_append {c : Char} (other : c ∉ "/*<!-".toList) (prev : Option Char)
    (t rest : Text) :
    Text.fitsFrom opensAt prev (t ++ c :: rest) =
      (Text.fitsFrom opensAt prev t || Text.fitsFrom opensAt (some c) rest) := by
  have here : ∀ prev u, opensAt prev (u ++ c :: rest) = opensAt prev u := by
    intro prev u
    have free : c ∉ "/*".toList ∧ c ∉ "<!--".toList ∧ c ∉ "//".toList := by simp_all
    rw [opensAt, Text.isPrefixOf_append_cons free.1, Text.isPrefixOf_append_cons free.2.1,
      Text.isPrefixOf_append_cons free.2.2, opensAt]
  induction t generalizing prev with
  | nil =>
    have head : opensAt prev (c :: rest) = opensAt prev [] := here prev []
    show (opensAt prev (c :: rest) || _) = _
    rw [head, Text.fitsFrom]
  | cons d ds ih =>
    have head : opensAt prev (d :: (ds ++ c :: rest)) = opensAt prev (d :: ds) := here prev (d :: ds)
    rw [List.cons_append, Text.fitsFrom, head, ih, Text.fitsFrom, Bool.or_assoc]

lemma opensSomewhere_cons {c : Char} (slash : c ≠ '/') (angle : c ≠ '<') (prev : Option Char)
    (t : Text) : Text.fitsFrom opensAt prev (c :: t) = Text.fitsFrom opensAt (some c) t := by
  have head : opensAt prev (c :: t) = false := by
    simp [opensAt, List.isPrefixOf, Ne.symm slash, Ne.symm angle]
  rw [Text.fitsFrom, head, Bool.false_or]

/-- A text in which no comment opens has no delimited comments. -/
lemma delimited_eq_nil {t : Text} (none_opens : Text.fitsFrom opensAt none t = false) :
    delimited t = [] := by
  have scan : ∀ (skip pos : Nat) (prev : Option Char) (t : Text),
      Text.fitsFrom opensAt prev t = false →
      Text.hitsFrom (fun prev rest => (lengthAt prev rest).map (·, ())) skip pos prev t = [] := by
    intro skip pos prev t
    induction t generalizing skip pos prev with
    | nil => exact fun _ => rfl
    | cons c cs ih =>
      intro free
      obtain ⟨here, later⟩ := Bool.or_eq_false_iff.1 free
      cases skip with
      | succ skip => exact ih skip (pos + 1) (some c) later
      | zero =>
        have none_here : lengthAt prev (c :: cs) = none := by
          cases found : lengthAt prev (c :: cs) with
          | none => rfl
          | some n => exact absurd (opensAt_of_lengthAt found) (by simp [here])
        simp only [Text.hitsFrom, none_here, Option.map_none]
        exact ih 0 (pos + 1) (some c) later
  rw [delimited, Text.hits, scan 0 0 none t none_opens, List.map_nil]

/-- The characters that may stand before the number sign of a hash line. -/
def isIndent (c : Char) : Bool :=
  c == ' ' || c == '\t'

/-- Whether each number sign has a character other than a space or a tab before it on its line;
`solid` says whether one stands before the text. -/
def guardsHashes : Bool → Text → Bool
  | _, [] => true
  | solid, c :: cs =>
    if c = '\n' then guardsHashes false cs
    else (c != '#' || solid) && guardsHashes (solid || !isIndent c) cs

/-- The front of a line: indentation, or with `solid` also a character that starts no hash line. -/
def IsFront : Bool → Text → Prop
  | false, front => ∀ c ∈ front, isIndent c = true
  | true, front => ∃ a d b, front = a ++ d :: b ∧ (∀ c ∈ a, isIndent c = true) ∧
      isIndent d = false ∧ d ≠ '#'

lemma IsFront.not_hashLine {solid : Bool} {front : Text} (h : IsFront solid front) :
    isHashLine front = false := by
  unfold isHashLine
  cases solid with
  | false =>
    have blank : front.dropWhile (fun c => c == ' ' || c == '\t') = [] :=
      List.dropWhile_eq_nil_iff.2 h
    rw [blank]
  | true =>
    obtain ⟨a, d, b, rfl, indents, solid, other⟩ := h
    have starts : (a ++ d :: b).dropWhile (fun c => c == ' ' || c == '\t') = d :: b :=
      (List.dropWhile_append_of_pos indents).trans
        (List.dropWhile_cons_of_neg (Bool.eq_false_iff.1 solid))
    rw [starts]
    split <;> simp_all

lemma IsFront.concat {solid : Bool} {front : Text} (h : IsFront solid front) {c : Char}
    (guarded : (c != '#' || solid) = true) : IsFront (solid || !isIndent c) (front ++ [c]) := by
  cases solid with
  | true =>
    obtain ⟨a, d, b, rfl, indents, solid, other⟩ := h
    exact ⟨a, d, b ++ [c], by simp, indents, solid, other⟩
  | false =>
    cases indent : isIndent c with
    | true =>
      intro d mem
      rcases List.mem_append.1 mem with mem | mem
      · exact h d mem
      · rwa [List.mem_singleton.1 mem]
    | false => exact ⟨front, c, [], rfl, h, indent, by simpa using guarded⟩

/-- No line of a text that guards its number signs is a hash line. -/
lemma isHashLine_of_mem_lines {t front : Text} {solid : Bool}
    (guarded : guardsHashes solid t = true) (unbroken : '\n' ∉ front) (opened : IsFront solid front) :
    ∀ l ∈ Text.lines (front ++ t), isHashLine l = false := by
  have whole : ∀ c ∈ front, (c == '\n') = false := by
    intro c mem
    simpa using ne_of_mem_of_not_mem mem unbroken
  -- `front` is what has been read of the line
  induction t generalizing front solid with
  | nil =>
    rw [List.append_nil, Text.lines, List.splitOn_eq_splitOnP, List.splitOnP_eq_singleton whole]
    simpa using opened.not_hashLine
  | cons c cs ih =>
    rw [guardsHashes] at guarded
    by_cases feed : c = '\n'
    · subst feed
      rw [if_pos rfl] at guarded
      rw [Text.lines, List.splitOn_eq_splitOnP,
        List.splitOnP_append_cons_of_forall_mem whole _ (by decide)]
      intro l mem
      rcases List.mem_cons.1 mem with rfl | mem
      · exact opened.not_hashLine
      · exact @ih [] false guarded nofun nofun nofun l mem
    · rw [if_neg feed, Bool.and_eq_true] at guarded
      rw [List.append_cons]
      have unbroken' : '\n' ∉ front ++ [c] := by simpa [unbroken] using Ne.symm feed
      refine ih guarded.2 unbroken' (opened.concat guarded.1) fun d mem => ?_
      simpa using ne_of_mem_of_not_mem mem unbroken'

lemma hashLinesFrom_eq_nil {ls : List Text} (none_hashed : ∀ l ∈ ls, isHashLine l = false)
    (pos : Nat) : hashLinesFrom pos ls = [] := by
  induction ls generalizing pos with
  | nil => rfl
  | cons l ls ih =>
    have here := none_hashed l List.mem_cons_self
    simp only [hashLinesFrom, here, Bool.false_eq_true, if_false]
    exact ih (fun m mem => none_hashed m (List.mem_cons_of_mem l mem)) _

/-- A text without comments is left as it is. -/
lemma mask_eq_self {t : Text} (none_opens : Text.fitsFrom opensAt none t = false)
    (guarded : guardsHashes false t = true) : mask t = t := by
  have hashed : hashLinesFrom 0 (Text.lines t) = [] :=
    hashLinesFrom_eq_nil (@isHashLine_of_mem_lines t [] false guarded nofun nofun) 0
  have none_found : spans t = [] := by
    rw [spans, delimited_eq_nil none_opens, hashed]
    exact List.mergeSort_nil
  rw [mask, none_found]
  rfl

end Comment

/-! ## Pieces -/

/-- A string literal on one line, with nothing in it that ends it or opens a comment. -/
structure StringLiteral where
  /-- The quote around the literal. -/
  quote : Quote
  /-- What stands between the quotes. -/
  body : Text
  closed : quote.char ∉ body
  unescaped : '\\' ∉ body
  unbroken : '\n' ∉ body
  uncommented : Text.fitsFrom Comment.opensAt (some quote.char) body = false

/-- A literal as it stands in a script. -/
def StringLiteral.text (l : StringLiteral) : Text :=
  l.quote.char :: l.body ++ [l.quote.char]

lemma StringLiteral.text_append (l : StringLiteral) (rest : Text) :
    l.text ++ rest = l.quote.char :: (l.body ++ l.quote.char :: rest) := by
  simp [text]

/-- A piece of a script: code that holds no literals and no comments, or a string literal. -/
inductive Piece where
  | code (text : Text) (bare : ∀ c ∈ text, c ∉ "'\"\x60/#<".toList)
  | literal (l : StringLiteral)

namespace Piece

/-- A piece as it stands in a script. -/
def text : Piece → Text
  | code t _ => t
  | literal l => l.text

/-- The script of a row of pieces. -/
def join (ps : List Piece) : Text :=
  ps.flatMap text

lemma join_cons (p : Piece) (ps : List Piece) : join (p :: ps) = p.text ++ join ps :=
  rfl

/-- Neither code nor a literal opens a comment, whatever stands before it. -/
lemma opens_text (p : Piece) {rest : Text}
    (free : ∀ prev, Text.fitsFrom Comment.opensAt prev rest = false) (prev : Option Char) :
    Text.fitsFrom Comment.opensAt prev (p.text ++ rest) = false := by
  cases p with
  | code t bare =>
    show Text.fitsFrom Comment.opensAt prev (t ++ rest) = false
    induction t generalizing prev with
    | nil => exact free prev
    | cons c cs ih =>
      have plain : c ≠ '/' ∧ c ≠ '<' := by
        have := bare c List.mem_cons_self
        constructor <;> rintro rfl <;> exact this (by decide)
      rw [List.cons_append, Comment.opensSomewhere_cons plain.1 plain.2]
      exact ih (some c) fun d mem => bare d (List.mem_cons_of_mem c mem)
  | literal l =>
    have neutral : ∀ q : Quote, q.char ∉ "/*<!-".toList ∧ q.char ≠ '/' ∧ q.char ≠ '<' := by
      intro q
      cases q <;> decide
    obtain ⟨other, slash, angle⟩ := neutral l.quote
    show Text.fitsFrom Comment.opensAt prev (l.text ++ rest) = false
    rw [l.text_append, Comment.opensSomewhere_cons slash angle, Comment.opensSomewhere_append other,
      l.uncommented, free, Bool.or_self]

/-- Each number sign of a piece stands in a literal, behind its opening quote. -/
lemma guardsHashes_text (p : Piece) {rest : Text}
    (guarded : ∀ solid, Comment.guardsHashes solid rest = true) (solid : Bool) :
    Comment.guardsHashes solid (p.text ++ rest) = true := by
  cases p with
  | code t bare =>
    show Comment.guardsHashes solid (t ++ rest) = true
    induction t generalizing solid with
    | nil => exact guarded solid
    | cons c cs ih =>
      have plain : c ≠ '#' := by
        rintro rfl
        exact bare '#' List.mem_cons_self (by decide)
      have later := fun solid => ih solid fun d mem => bare d (List.mem_cons_of_mem c mem)
      rw [List.cons_append, Comment.guardsHashes]
      split
      · exact later false
      · rw [later, Bool.and_true]
        simp [plain]
  | literal l =>
    -- the opening quote makes the line solid up to the closing one
    have inside : ∀ t : Text, '\n' ∉ t →
        Comment.guardsHashes true (t ++ l.quote.char :: rest) = true := by
      intro t unbroken
      induction t with
      | nil => cases l.quote <;> exact guarded true
      | cons c cs ih =>
        obtain ⟨notFeed, later⟩ := not_or.1 (List.mem_cons.not.1 unbroken)
        rw [List.cons_append, Comment.guardsHashes, if_neg (Ne.symm notFeed)]
        simpa using ih later
    show Comment.guardsHashes solid (l.text ++ rest) = true
    have opens : ∀ q : Quote, q.char ≠ '\n' ∧ q.char ≠ '#' ∧ Comment.isIndent q.char = false := by
      intro q
      cases q <;> decide
    obtain ⟨notFeed, notHash, notIndent⟩ := opens l.quote
    rw [l.text_append, Comment.guardsHashes, if_neg notFeed, notIndent, Bool.not_false, Bool.or_true,
      inside l.body l.unbroken, Bool.and_true]
    simp [notHash]

lemma opens_join (ps : List Piece) (prev : Option Char) :
    Text.fitsFrom Comment.opensAt prev (join ps) = false := by
  induction ps generalizing prev with
  | nil => rfl
  | cons p ps ih => exact opens_text p ih prev

lemma guardsHashes_join (ps : List Piece) (solid : Bool) :
    Comment.guardsHashes solid (join ps) = true := by
  induction ps generalizing solid with
  | nil => rfl
  | cons p ps ih => exact guardsHashes_text p ih solid

/-- The script of a row of pieces has no comments. -/
lemma mask_join (ps : List Piece) : Comment.mask (join ps) = join ps :=
  Comment.mask_eq_self (opens_join ps none) (guardsHashes_join ps false)

end Piece

end Phrasebook
