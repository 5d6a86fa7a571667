import Mathlib.Tactic.Lemma
import Phrasebook.Mapping.File

/-!
# Reading back what was written as JSON

A character is written as itself or by printable ones (`escapeChar_cases`). Its escape is read as that
character (`stringChar_escapeChar`), so a quoted text is read as that text (`value_quoted`), and an
object of texts laid out over lines as its members (`members_pretty`, `read_pretty`). A text without a
carriage return, and no such text has one, is the same with its line ends folded.
-/

namespace Phrasebook

namespace Json

variable {c : Char} {n fuel start : Nat} {text rest : Text}

/-! ## Escapes -/

lemma mem_hex {width : Nat} (mem : c ∈ Text.hex width n) : ∃ k < 16, Text.hexChar k = c := by
  induction width generalizing n with
  | zero => exact absurd mem List.not_mem_nil
  | succ width ih =>
    rw [Text.hex, List.mem_append, List.mem_singleton] at mem
    rcases mem with front | last
    · exact ih front
    · exact ⟨n % 16, Nat.mod_lt n (by decide), last.symm⟩

/-- The characters of escapes: those of ASCII but for its control characters. -/
def isSign (d : Char) : Bool :=
  0x20 ≤ d.toNat && d.toNat < 0x80

/-- A character is written as itself, or is one of ASCII and written by signs. -/
lemma escapeChar_cases (c : Char) :
    (escapeChar c = [c] ∧ c ≠ '"' ∧ c ≠ '\n' ∧ c ≠ '\r') ∨
      c.toNat < 0x80 ∧ ∀ d ∈ escapeChar c, isSign d = true ∧ (d = '"' → c = '"') := by
  unfold escapeChar
  iterate 7
    split
    · rename_i same
      subst same
      exact .inr (by simp [isSign])
  rename_i quote _ feed ret _ _ _
  split
  · rename_i small
    refine .inr ⟨by omega, ?_⟩
    have digits : ∀ k < 16, isSign (Text.hexChar k) = true ∧ Text.hexChar k ≠ '"' := by decide
    intro d mem
    rw [List.mem_cons, List.mem_cons] at mem
    rcases mem with rfl | rfl | digit
    · simp [isSign]
    · simp [isSign]
    · obtain ⟨k, small, rfl⟩ := mem_hex digit
      exact ⟨(digits k small).1, fun same => absurd same (digits k small).2⟩
  · exact .inl ⟨rfl, quote, feed, ret⟩

/-! ## Strings -/

lemma hexDigit?_hexChar (small : n < 16) : hexDigit? (Text.hexChar n) = some n := by
  revert n
  decide

lemma hexWord?_hex (small : n < 65536) :
    hexWord? (Text.hexChar (n / 16 / 16 / 16 % 16)) (Text.hexChar (n / 16 / 16 % 16))
      (Text.hexChar (n / 16 % 16)) (Text.hexChar (n % 16)) = some n := by
  have digit : ∀ m, hexDigit? (Text.hexChar (m % 16)) = some (m % 16) := fun m =>
    hexDigit?_hexChar (Nat.mod_lt m (by decide))
  simp only [hexWord?, digit, Option.some.injEq]
  omega

/-- An escape by number is read as the character of that number, unless that is half of a pair. -/
lemma stringChar_hex (start : Nat) (small : c.toNat < 0xD800) (more : rest ≠ []) :
    stringChar start ('\\' :: 'u' :: (Text.hex 4 c.toNat ++ rest)) = .ok (some (c, 6)) := by
  have word := hexWord?_hex (n := c.toNat) (by omega)
  have high : isHighSurrogate c.toNat = false := by
    rw [isHighSurrogate, decide_eq_false (by omega), Bool.false_and]
  have low : isLowSurrogate c.toNat = false := by
    rw [isLowSurrogate, decide_eq_false (by omega), Bool.false_and]
  have behind : rest.isEmpty = false := List.isEmpty_eq_false_iff.2 more
  simp only [Text.hex, List.nil_append, List.cons_append, stringChar, word, behind, high,
    low, Bool.false_eq_true, if_false, Char.ofNat_toNat]

lemma stringChar_plain (start : Nat) (quote : c ≠ '"') (slash : c ≠ '\\') (large : ¬c.toNat < 0x20)
    (rest : Text) : stringChar start (c :: rest) = .ok (some (c, 1)) := by
  rw [stringChar.eq_7 start c rest quote (fun _ _ _ _ _ same _ => slash same)
    (fun _ same _ => slash same) (fun same _ => slash same) fun _ _ same _ => slash same]
  exact if_neg (by omega)

/-- The escape of a character is read as that character. -/
lemma stringChar_escapeChar (start : Nat) (c : Char) {rest : Text} (more : rest ≠ []) :
    ∃ d ds, escapeChar c = d :: ds ∧
      stringChar start (d :: (ds ++ rest)) = .ok (some (c, ds.length + 1)) := by
  unfold escapeChar
  split
  · rename_i same
    subst same
    exact ⟨_, _, rfl, rfl⟩
  rename_i quote
  split
  · rename_i same
    subst same
    exact ⟨_, _, rfl, rfl⟩
  rename_i slash
  iterate 5
    split
    · rename_i same
      subst same
      exact ⟨_, _, rfl, rfl⟩
  split
  · rename_i small
    exact ⟨_, _, rfl, stringChar_hex start (by omega) more⟩
  · rename_i large
    exact ⟨_, _, rfl, stringChar_plain start quote slash large rest⟩

lemma stringFrom_skip (start : Nat) (passed rest : Text) :
    stringFrom start passed.length (passed ++ rest) = stringFrom start 0 rest := by
  induction passed with
  | nil => rfl
  | cons d passed ih => exact ih

lemma stringFrom_escaped (start : Nat) (text rest : Text) :
    stringFrom start 0 (text.flatMap escapeChar ++ '"' :: rest) = .ok (text, rest) := by
  induction text with
  | nil => rfl
  | cons c text ih =>
    have more : text.flatMap escapeChar ++ '"' :: rest ≠ [] := by simp
    obtain ⟨d, ds, escaped, first⟩ := stringChar_escapeChar start c more
    rw [List.flatMap_cons, escaped, List.append_assoc, List.cons_append, stringFrom, first]
    simp only [Nat.add_sub_cancel, stringFrom_skip, ih]

lemma stringBody_escaped (start : Nat) (text rest : Text) :
    stringBody start (text.flatMap escapeChar ++ '"' :: rest) = .ok (text, rest) :=
  stringFrom_escaped start text rest

lemma quoted_append (text rest : Text) :
    quoted text ++ rest = '"' :: (text.flatMap escapeChar ++ '"' :: rest) := by
  simp [quoted]

/-- A quoted text is read as that text. -/
lemma value_quoted (fuel : Nat) (text rest : Text) :
    value (fuel + 1) (quoted text ++ rest) = .ok (.str text, rest) := by
  rw [quoted_append, value]
  simp only [stringBody_escaped]

/-! ## Objects of texts -/

/-- The members with given names and texts. -/
def strings (es : List (Text × Text)) : List (Text × Json) :=
  es.map fun e => (e.1, .str e.2)

/-- A member on its line, with what follows. -/
def member (e : Text × Text) (rest : Text) : Text :=
  '\n' :: ' ' :: ' ' :: (quoted e.1 ++ ':' :: ' ' :: (quoted e.2 ++ rest))

/-- What follows a member, down to the closing brace. -/
def remainder : List (Text × Text) → Text
  | [] => ['\n', '\x7d']
  | e :: es => ',' :: member e (remainder es)

lemma prettyMembers_strings (es : List (Text × Text)) :
    prettyMembers 1 (strings es) ++ ['\n', '\x7d'] = remainder es := by
  induction es with
  | nil => rfl
  | cons e es ih =>
    rw [remainder, ← ih]
    simp [member, strings, prettyMembers, pretty, line, newline]

lemma pretty_strings (e : Text × Text) (es : List (Text × Text)) :
    pretty 0 (.obj (strings (e :: es))) = '\x7b' :: member e (remainder es) := by
  rw [← prettyMembers_strings]
  simp [member, strings, pretty, line, newline]

/-- The white space in front of a member ends at its name. -/
lemma dropWhile_member (e : Text × Text) (rest : Text) :
    (member e rest).dropWhile isSpace =
      '"' :: (e.1.flatMap escapeChar ++ '"' :: ':' :: ' ' :: (quoted e.2 ++ rest)) := by
  rw [member, quoted_append]
  rfl

lemma dropWhile_quoted (text rest : Text) :
    (' ' :: (quoted text ++ rest)).dropWhile isSpace = quoted text ++ rest := by
  rw [quoted_append]
  rfl

/-- The last member is read, with the closing brace. -/
lemma members_last (fuel : Nat) (e : Text × Text) :
    members (fuel + 2) ((member e (remainder [])).dropWhile isSpace) = .ok (strings [e], []) := by
  have colon : ∀ t : Text, (':' :: t).dropWhile isSpace = ':' :: t := fun _ => rfl
  have brace : (remainder []).dropWhile isSpace = ['\x7d'] := rfl
  rw [dropWhile_member, members]
  simp only [stringBody_escaped, colon, dropWhile_quoted, value_quoted, brace]
  rfl

/-- A member with a comma behind it is read, and then the others. -/
lemma members_more {e d : Text × Text} {es : List (Text × Text)}
    (others : members (fuel + 1) ((member d (remainder es)).dropWhile isSpace) =
      .ok (strings (d :: es), [])) :
    members (fuel + 2) ((member e (remainder (d :: es))).dropWhile isSpace) =
      .ok (strings (e :: d :: es), []) := by
  have colon : ∀ t : Text, (':' :: t).dropWhile isSpace = ':' :: t := fun _ => rfl
  have comma : (remainder (d :: es)).dropWhile isSpace = ',' :: member d (remainder es) := rfl
  rw [dropWhile_member, members]
  simp only [stringBody_escaped, colon, dropWhile_quoted, value_quoted, comma, others]
  rfl

/-- The members of an object of texts are read up to its end. -/
lemma members_pretty (e : Text × Text) (es : List (Text × Text)) (enough : es.length < fuel) :
    members (fuel + 1) ((member e (remainder es)).dropWhile isSpace) =
      .ok (strings (e :: es), []) := by
  induction es generalizing fuel e with
  | nil =>
    obtain ⟨fuel, rfl⟩ := Nat.exists_eq_add_one.2 enough
    exact members_last fuel e
  | cons d es ih =>
    obtain ⟨fuel, rfl⟩ := Nat.exists_eq_add_one.2 (Nat.zero_lt_of_lt enough)
    apply members_more
    exact ih d (Nat.lt_of_succ_lt_succ enough)

lemma length_remainder (es : List (Text × Text)) : es.length < (remainder es).length := by
  induction es with
  | nil => decide
  | cons e es ih =>
    simp only [remainder, member, List.length_cons, List.length_append]
    omega

lemma value_pretty (e : Text × Text) (es : List (Text × Text)) (enough : es.length < fuel) :
    value (fuel + 2) ('\x7b' :: member e (remainder es)) =
      .ok (.obj (Entries.ofPairs (strings (e :: es))), []) := by
  have inner := members_pretty e es enough
  rw [dropWhile_member] at inner
  rw [value]
  simp only [dropWhile_member]
  split
  · rename_i same
    exact absurd (List.cons.inj same).1 (by decide)
  · rw [inner]

/-- An object of texts is read as its members. -/
lemma read_pretty (es : List (Text × Text)) :
    read (pretty 0 (.obj (strings es))) = .ok (.obj (Entries.ofPairs (strings es))) := by
  cases es with
  | nil => rfl
  | cons e es =>
    have brace : ∀ t : Text, ('\x7b' :: t).dropWhile isSpace = '\x7b' :: t := fun _ => rfl
    have enough : es.length < 2 * ('\x7b' :: member e (remainder es)).length := by
      have := length_remainder es
      simp only [member, List.length_cons, List.length_append]
      omega
    rw [pretty_strings, read, if_neg (by simp), brace, value_pretty e es enough]
    rfl

/-! ## Line ends -/

lemma escapeChar_ne_return (c : Char) : '\r' ∉ escapeChar c := by
  rcases escapeChar_cases c with ⟨itself, -, -, plain⟩ | ⟨-, signs⟩
  · rw [itself, List.mem_singleton]
    exact Ne.symm plain
  · exact fun mem => absurd (signs _ mem).1 (by decide)

lemma quoted_ne_return (text : Text) : '\r' ∉ quoted text := by
  simp only [quoted, List.cons_append, List.mem_cons, List.mem_append, List.mem_flatMap,
    List.not_mem_nil, or_false]
  rintro (first | ⟨c, -, mem⟩ | last)
  · cases first
  · exact escapeChar_ne_return c mem
  · cases last

lemma member_ne_return (e : Text × Text) (clean : '\r' ∉ rest) : '\r' ∉ member e rest := by
  simp [member, quoted_ne_return, clean]

lemma pretty_ne_return (es : List (Text × Text)) : '\r' ∉ pretty 0 (.obj (strings es)) := by
  have behind : ∀ es, '\r' ∉ remainder es := by
    intro es
    induction es with
    | nil => decide
    | cons e es ih => simpa [remainder] using member_ne_return e ih
  cases es with
  | nil => decide
  | cons e es =>
    rw [pretty_strings]
    simpa using member_ne_return e (behind es)

end Json

end Phrasebook
