import Mathlib.Data.List.TakeWhile
import Phrasebook.Json.Reader
import Phrasebook.Proofs.Escapes
import Phrasebook.Proofs.Registrations

/-!
# The string that a literal denotes

A script evaluates a string literal to a string of UTF-16 units. `Literal.value?` reads a literal by
the rules for string literals in modules. A literal that holds the text of a key denotes that key
exactly if the key holds no backslash (`value?_quote_eq_iff`): quotes and line breaks are escaped on
the way in, a backslash is not, and what it escapes is shorter than what stands in the key.
-/

namespace Phrasebook

namespace Text

/-- The UTF-16 units of a code point. -/
def unitsOf (n : Nat) : List Nat :=
  if n < 0x10000 then [n]
  else [0xD800 + (n - 0x10000) / 0x400, 0xDC00 + (n - 0x10000) % 0x400]

/-- The UTF-16 units of a text. -/
def units (t : Text) : List Nat :=
  t.flatMap fun c => unitsOf c.toNat

lemma length_unitsOf (n : Nat) : 1 ≤ (unitsOf n).length ∧ (unitsOf n).length ≤ 2 := by
  unfold unitsOf
  split <;> simp

lemma units_cons (c : Char) (cs : Text) : units (c :: cs) = unitsOf c.toNat ++ units cs :=
  rfl

lemma length_le_length_units (t : Text) : t.length ≤ (units t).length := by
  induction t with
  | nil => exact Nat.le_refl 0
  | cons c cs ih =>
    have one := (length_unitsOf c.toNat).1
    simp only [units_cons, List.length_append, List.length_cons]
    omega

end Text

namespace Literal

open Text (units unitsOf)

/-! ## Reading a literal -/

/-- Whether a character is a hexadecimal digit. -/
def isHexDigit (c : Char) : Bool :=
  (Json.hexDigit? c).isSome

/-- The number that hexadecimal digits write. -/
def hexValue (t : Text) : Nat :=
  t.foldl (fun n c => 16 * n + (Json.hexDigit? c).getD 0) 0

/-- An escape by number with a fixed count of digits. -/
def fixedEscape? (width : Nat) (t : Text) : Option (Nat × List Nat) :=
  let digits := t.take width
  if digits.length = width ∧ digits.all isHexDigit then some (width + 1, [hexValue digits])
  else none

/-- An escape by number with its digits in braces, from behind the opening one. -/
def bracedEscape? (t : Text) : Option (Nat × List Nat) :=
  let digits := t.takeWhile isHexDigit
  if digits ≠ [] ∧ (t.drop digits.length).head? = some '\x7d' ∧ hexValue digits ≤ 0x10FFFF then
    some (digits.length + 3, unitsOf (hexValue digits))
  else none

/-- What one character behind a backslash stands for. A line break goes on on the next line. -/
def simpleEscape (c : Char) : List Nat :=
  if c = 'n' then [0x0A]
  else if c = 't' then [0x09]
  else if c = 'r' then [0x0D]
  else if c = 'b' then [0x08]
  else if c = 'v' then [0x0B]
  else if c = 'f' then [0x0C]
  else if c = '\n' ∨ c = '\r' ∨ c = '\u2028' ∨ c = '\u2029' then []
  else unitsOf c.toNat

/-- The escape at the front of the text behind a backslash: how many characters it takes, and the
units that it stands for. -/
def escape? : Text → Option (Nat × List Nat)
  | [] => none
  | c :: cs =>
    if c = 'x' then fixedEscape? 2 cs
    else if c = 'u' then
      if cs.head? = some '\x7b' then bracedEscape? cs.tail else fixedEscape? 4 cs
    else if c.isDigit then
      if c = '0' ∧ ¬cs.head?.any Char.isDigit then some (1, [0]) else none
    else if c = '\r' ∧ cs.head? = some '\n' then some (2, [])
    else some (1, simpleEscape c)

/-- Reads up to the closing quote `q`, which must come last, first passing over `skip` characters of
an escape. -/
def valueFrom (q : Char) : Nat → Text → Option (List Nat)
  | _, [] => none
  | skip + 1, _ :: cs => valueFrom q skip cs
  | 0, c :: cs =>
    if c = q then if cs = [] then some [] else none
    else if c = '\n' ∨ c = '\r' then none
    else if c = '\\' then
      match escape? cs with
      | some (n, us) => (valueFrom q n cs).map (us ++ ·)
      | none => none
    else (valueFrom q 0 cs).map (unitsOf c.toNat ++ ·)

/-- The string that a literal denotes, if the text is one string literal. -/
def value? : Text → Option (List Nat)
  | [] => none
  | q :: cs => if Prose.isQuote q then valueFrom q 0 cs else none

lemma valueFrom_skip (q : Char) (skipped t : Text) :
    valueFrom q skipped.length (skipped ++ t) = valueFrom q 0 t := by
  induction skipped with
  | nil => rfl
  | cons c cs ih => exact ih

/-! ## What escapes take and give -/

/-- The characters that stand for themselves between single quotes. -/
def IsPlain (c : Char) : Prop :=
  c ≠ '\'' ∧ c ≠ '\\' ∧ c ≠ '\n' ∧ c ≠ '\r'

instance (c : Char) : Decidable (IsPlain c) :=
  inferInstanceAs (Decidable (_ ∧ _))

lemma IsPlain.of_isHexDigit {c : Char} (digit : isHexDigit c = true) : IsPlain c := by
  refine ⟨?_, ?_, ?_, ?_⟩
  all_goals
    rintro rfl
    exact absurd digit (by decide)

/-- An escape that takes `n` characters, namely `c` and plain ones behind it, and stands for no more
units than these have. -/
def Takes (c : Char) (cs : Text) (n : Nat) (us : List Nat) : Prop :=
  ∃ front rest, cs = front ++ rest ∧ n = front.length + 1 ∧ (∀ d ∈ front, IsPlain d) ∧
    us.length ≤ (units (c :: front)).length

lemma takes_of_fixedEscape? {c : Char} {cs : Text} {width n : Nat} {us : List Nat}
    (read : fixedEscape? width cs = some (n, us)) : Takes c cs n us := by
  simp only [fixedEscape?] at read
  split at read
  · rename_i digits
    obtain ⟨rfl, rfl⟩ := Prod.mk.inj (Option.some.inj read)
    refine ⟨_, _, (List.take_append_drop width cs).symm, by rw [digits.1], ?_, ?_⟩
    · exact fun d mem => .of_isHexDigit (List.all_eq_true.1 digits.2 d mem)
    · exact Nat.le_trans (by simp) (Text.length_le_length_units _)
  · cases read

lemma takes_of_bracedEscape? {c : Char} {cs : Text} {n : Nat} {us : List Nat}
    (read : bracedEscape? cs = some (n, us)) : Takes c ('\x7b' :: cs) n us := by
  simp only [bracedEscape?] at read
  split at read
  · rename_i digits
    obtain ⟨rfl, rfl⟩ := Prod.mk.inj (Option.some.inj read)
    obtain ⟨rest, split⟩ := Text.eq_run_append digits.2.1
    refine ⟨'\x7b' :: cs.takeWhile isHexDigit ++ ['\x7d'], rest, by simp [← split], by simp, ?_, ?_⟩
    · intro d mem
      simp only [List.cons_append, List.mem_cons, List.mem_append, List.not_mem_nil, or_false] at mem
      rcases mem with rfl | mem | rfl
      · decide
      · exact .of_isHexDigit (List.mem_takeWhile_imp mem)
      · decide
    · refine Nat.le_trans (Text.length_unitsOf _).2 (Nat.le_trans ?_ (Text.length_le_length_units _))
      simp
  · cases read

lemma length_simpleEscape (c : Char) : (simpleEscape c).length ≤ (unitsOf c.toNat).length := by
  have one := (Text.length_unitsOf c.toNat).1
  unfold simpleEscape
  repeat' split
  all_goals grind

lemma takes_one {c : Char} {us : List Nat} (short : us.length ≤ (unitsOf c.toNat).length)
    (cs : Text) : Takes c cs 1 us :=
  ⟨[], cs, rfl, rfl, nofun, by simpa [units] using short⟩

lemma takes_of_escape? {c : Char} {cs : Text} {n : Nat} {us : List Nat} (notReturn : c ≠ '\r')
    (read : escape? (c :: cs) = some (n, us)) : Takes c cs n us := by
  rw [escape?] at read
  split at read
  · exact takes_of_fixedEscape? read
  · split at read
    · split at read
      · rename_i opens
        obtain ⟨tail, rfl⟩ := List.head?_eq_some_iff.1 opens
        exact takes_of_bracedEscape? read
      · exact takes_of_fixedEscape? read
    · split at read
      · split at read
        · cases read
          exact @takes_one c [0] (Text.length_unitsOf c.toNat).1 cs
        · cases read
      · rw [if_neg fun both => notReturn both.1] at read
        cases read
        exact takes_one (length_simpleEscape c) cs

/-! ## Writing a key and reading the literal -/

/-- What stands in the body of a literal for a character that nothing escapes. -/
def write (c : Char) : Text :=
  if c = '\'' then ['\\', c] else escapeBreak c

lemma body_cons {c : Char} (notSlash : c ≠ '\\') (cs : Text) :
    body (c :: cs) none = write c ++ body cs none := by
  show Text.expand escapeBreak (escapeFrom '\'' false (c :: cs)) = _
  rw [escapeFrom_cons, beq_false_of_ne notSlash, Bool.false_and, Text.expand, List.flatMap_append]
  refine congrArg (· ++ body cs none) ?_
  unfold escapeOne write
  by_cases isQuote : c = '\''
  · subst isQuote
    rfl
  · simp [isQuote]

/-- A backslash and the character behind it are written as they are, a line break apart. -/
lemma body_backslash (c : Char) (cs : Text) :
    body ('\\' :: c :: cs) none = '\\' :: escapeBreak c ++ body cs none := by
  show Text.expand escapeBreak (escapeFrom '\'' false ('\\' :: c :: cs)) = _
  rw [escapeFrom_cons, escapeFrom_cons]
  simp [escapeOne, Text.expand, escapeBreak, body, Quote.delimiter, Quote.char]

lemma write_of_isPlain {c : Char} (plain : IsPlain c) : write c = [c] := by
  rw [write, if_neg plain.1, escapeBreak_eq plain.2.2.2 plain.2.2.1]

/-- A character that is not plain makes a backslash. -/
lemma body_of_not_isPlain {c : Char} (odd : ¬IsPlain c) (cs : Text) :
    ∃ rest, body (c :: cs) none = '\\' :: rest := by
  by_cases slash : c = '\\'
  · subst slash
    cases cs with
    | nil => exact ⟨[], rfl⟩
    | cons d ds => exact ⟨_, body_backslash d ds⟩
  rw [body_cons slash]
  by_cases isQuote : c = '\''
  · subst isQuote
    exact ⟨_, rfl⟩
  by_cases feed : c = '\n'
  · subst feed
    exact ⟨_, rfl⟩
  by_cases ret : c = '\r'
  · subst ret
    exact ⟨_, rfl⟩
  exact absurd ⟨isQuote, slash, feed, ret⟩ odd

/-- A character that nothing escapes is read as it was written. -/
lemma valueFrom_write {c : Char} (notSlash : c ≠ '\\') (t : Text) :
    valueFrom '\'' 0 (write c ++ t) = (valueFrom '\'' 0 t).map (unitsOf c.toNat ++ ·) := by
  by_cases isQuote : c = '\''
  · subst isQuote
    rfl
  by_cases feed : c = '\n'
  · subst feed
    rfl
  by_cases ret : c = '\r'
  · subst ret
    rfl
  rw [write_of_isPlain ⟨isQuote, notSlash, feed, ret⟩, List.singleton_append, valueFrom,
    if_neg isQuote, if_neg (by simp [ret, feed]), if_neg notSlash]

/-- Plain characters at the front of a literal's body are those of its text. -/
lemma plain_of_body {front : Text} (plain : ∀ d ∈ front, IsPlain d) {cs rest : Text}
    (split : body cs none ++ ['\''] = front ++ rest) :
    ∃ cs', cs = front ++ cs' ∧ rest = body cs' none ++ ['\''] := by
  induction front generalizing cs with
  | nil => exact ⟨cs, rfl, split.symm⟩
  | cons d ds ih =>
    have first := plain d List.mem_cons_self
    cases cs with
    | nil => exact absurd (List.cons.inj split).1.symm first.1
    | cons c cs =>
      by_cases same : IsPlain c
      · rw [body_cons same.2.1, write_of_isPlain same] at split
        obtain ⟨rfl, tail⟩ := List.cons.inj split
        obtain ⟨cs', rfl, behind⟩ := ih (fun e mem => plain e (List.mem_cons_of_mem c mem)) tail
        exact ⟨cs', rfl, behind⟩
      · obtain ⟨behind, escaped⟩ := body_of_not_isPlain same cs
        rw [escaped] at split
        exact absurd (List.cons.inj split).1.symm first.2.1

/-- A key without backslashes is read as it was written. -/
lemma valueFrom_body {t : Text} (free : '\\' ∉ t) :
    valueFrom '\'' 0 (body t none ++ ['\'']) = some (units t) := by
  induction t with
  | nil => rfl
  | cons c cs ih =>
    obtain ⟨notSlash, rest⟩ := not_or.1 (List.mem_cons.not.1 free)
    rw [body_cons (Ne.symm notSlash), List.append_assoc, valueFrom_write (Ne.symm notSlash), ih rest]
    rfl

/-- A backslash before a line break escapes the backslash of that break's own escape: it is read as
itself, and the line break as a letter. -/
lemma valueFrom_escaped_break {d : Char} (isBreak : d = '\n' ∨ d = '\r') (t : Text) :
    ∃ letter, letter ≠ d.toNat ∧ valueFrom '\'' 0 ('\\' :: escapeBreak d ++ t) =
      (valueFrom '\'' 0 t).map fun us => '\\'.toNat :: letter :: us := by
  rcases isBreak with rfl | rfl
  · refine ⟨'n'.toNat, by decide, ?_⟩
    show ((valueFrom '\'' 0 t).map _).map _ = _
    rw [Option.map_map]
    rfl
  · refine ⟨'r'.toNat, by decide, ?_⟩
    show ((valueFrom '\'' 0 t).map _).map _ = _
    rw [Option.map_map]
    rfl

/-- Any other escape takes characters of the key as they are, more than it has units. -/
lemma valueFrom_escape {d : Char} (notBreak : ¬(d = '\n' ∨ d = '\r')) {ds : Text} {us : List Nat}
    (read : valueFrom '\'' 0 (body ('\\' :: d :: ds) none ++ ['\'']) = some us) :
    ∃ front rest es vs, ds = front ++ rest ∧ us = es ++ vs ∧
      es.length ≤ (units (d :: front)).length ∧
      valueFrom '\'' 0 (body rest none ++ ['\'']) = some vs := by
  have kept := escapeBreak_eq (fun h => notBreak (.inr h)) (fun h => notBreak (.inl h))
  rw [body_backslash, kept] at read
  simp only [List.cons_append, List.nil_append, valueFrom, Char.reduceEq, if_false, or_self,
    if_true] at read
  split at read
  · rename_i n es escape
    obtain ⟨front, behind, split, rfl, plain, short⟩ :=
      takes_of_escape? (fun h => notBreak (.inr h)) escape
    obtain ⟨rest, rfl, rfl⟩ := plain_of_body plain split
    rw [split] at read
    obtain ⟨vs, later, rfl⟩ := Option.map_eq_some_iff.1 read
    exact ⟨front, rest, es, vs, rfl, rfl, short, (valueFrom_skip '\'' (d :: front) _) ▸ later⟩
  · cases read

/-- What is read is never longer than the key, and differs from a key with a backslash. -/
lemma length_valueFrom_body {t : Text} {us : List Nat}
    (read : valueFrom '\'' 0 (body t none ++ ['\'']) = some us) :
    us.length ≤ (units t).length ∧ ('\\' ∈ t → us ≠ units t) := by
  -- on the length: an escape takes several characters of the key at once
  induction size : t.length using Nat.strong_induction_on generalizing t us with
  | _ n ih =>
    cases t with
    | nil =>
      cases read
      exact ⟨Nat.le_refl _, nofun⟩
    | cons c cs =>
      by_cases slash : c = '\\'
      · subst slash
        cases cs with
        | nil => cases read
        | cons d ds =>
          by_cases isBreak : d = '\n' ∨ d = '\r'
          · obtain ⟨letter, other, reads⟩ :=
              valueFrom_escaped_break isBreak (body ds none ++ ['\''])
            rw [body_backslash, List.append_assoc, reads] at read
            obtain ⟨vs, later, rfl⟩ := Option.map_eq_some_iff.1 read
            have short := (ih ds.length (by simp only [← size, List.length_cons]; omega) later rfl).1
            have one : unitsOf d.toNat = [d.toNat] := by rcases isBreak with rfl | rfl <;> rfl
            have key : units ('\\' :: d :: ds) = '\\'.toNat :: d.toNat :: units ds := by
              rw [Text.units_cons, Text.units_cons, one]
              rfl
            rw [key]
            refine ⟨by simpa using short, fun _ same => ?_⟩
            exact other (List.cons.inj (List.cons.inj same).2).1
          · obtain ⟨front, rest, es, vs, rfl, rfl, short, later⟩ := valueFrom_escape isBreak read
            have tail := (ih rest.length
              (by simp only [← size, List.length_cons, List.length_append]; omega) later rfl).1
            have shorter : (es ++ vs).length < (units ('\\' :: d :: (front ++ rest))).length := by
              have key : units ('\\' :: d :: (front ++ rest)) =
                  '\\'.toNat :: (units (d :: front) ++ units rest) := by
                simp [units, unitsOf]
              rw [key]
              simp only [List.length_cons, List.length_append]
              omega
            exact ⟨Nat.le_of_lt shorter, fun _ same => absurd (same ▸ shorter) (Nat.lt_irrefl _)⟩
      · rw [body_cons slash, List.append_assoc, valueFrom_write slash] at read
        obtain ⟨vs, later, rfl⟩ := Option.map_eq_some_iff.1 read
        obtain ⟨short, differs⟩ := ih cs.length (by simp [← size]) later rfl
        rw [Text.units_cons]
        refine ⟨by simpa using short, fun mem same => ?_⟩
        exact differs ((List.mem_cons.1 mem).resolve_left (Ne.symm slash))
          (List.append_cancel_left same)

/-- The literal of a key denotes the key exactly if the key holds no backslash. -/
lemma value?_quote_eq_iff (key : Text) :
    value? (quote key none) = some (units key) ↔ '\\' ∉ key := by
  have reads : value? (quote key none) = valueFrom '\'' 0 (body key none ++ ['\'']) := rfl
  rw [reads]
  constructor
  · intro read mem
    exact (length_valueFrom_body read).2 mem rfl
  · exact valueFrom_body

end Literal

/-- A quoted literal, template literal or field that the work on a script replaces makes way for a call
on the literal of its key, and at the end the key is registered. The script looks up what the literal
denotes, and this is just the key, exactly if the key holds no backslash. -/
theorem Localize.denotes_registered_key_iff {text method : Text} {registry : Registry}
    {o : Term.Options} {done rest : List Term} {t : Term} {s s' : State}
    (terms : Term.extract text .script o = done ++ t :: rest)
    (reached : localize ⟨.script, method⟩ registry text done = (s, none))
    (quoted : t.isBody = false) (next : step ⟨.script, method⟩ s t = .ok s')
    (replaced : s'.replaced ≠ s.replaced) :
    let result := (localize ⟨.script, method⟩ registry text (Term.extract text .script o)).1
    let literal := Literal.quote t.key none
    ∃ pos behind, Text.slice s.buffer.text pos (pos + t.span.length) = t.span ∧
      s'.buffer = s.buffer.splice pos (pos + t.span.length)
        (fieldLabel t ++ (method ++ '(' :: (literal ++ behind))) ∧
      s'.registry = s.registry.register t.key t.key ∧
      result.registry.contains t.key = true ∧
      (Literal.value? literal = some (Text.units t.key) ↔ '\\' ∉ t.key) := by
  intro result literal
  rcases step_script method s quoted with idle | ⟨pos, -, held, moves⟩
  · rw [idle] at next
    cases next
    exact absurd rfl replaced
  · cases many : t.overflows with
    | true =>
      rw [next, many] at moves
      cases moves
    | false =>
      rw [next, many] at moves
      obtain rfl := Except.ok.inj moves
      obtain ⟨behind, call⟩ := t.call_eq_literal method none
      refine ⟨pos, behind, beq_iff_eq.1 held, ?_, rfl, ?_, Literal.value?_quote_eq_iff t.key⟩
      · rw [← call]
        rfl
      · have whole : result = (run ⟨.script, method⟩ s (t :: rest)).1 := by
          show (run ⟨.script, method⟩ _ (Term.extract text .script o)).1 = _
          rw [terms]
          exact congrArg Prod.fst (run_append reached (t :: rest))
        rw [whole, run, next]
        exact contains_run rest (Registry.contains_register_self _ _ _)

/-- The escape of a line feed is registered as it is written, and the script looks up a line feed. -/
theorem Localize.escaped_line_feed_not_denoted :
    let text := "'第\\n一'".toList
    let t : Term := ⟨text, "第\\n一".toList, .singleQuoted, 0⟩
    let start : State := { buffer := .ofText text, registry := .empty }
    Term.extract text .script {} = [t] ∧
      ∃ after pos behind, step ⟨.script, "$t".toList⟩ start t = .ok after ∧
        after.buffer = start.buffer.splice pos (pos + 6) ("$t(".toList ++ (text ++ behind)) ∧
        after.registry = Registry.empty.register "第\\n一".toList "第\\n一".toList ∧
        Literal.value? text ≠ some (Text.units "第\\n一".toList) := by
  intro text t start
  have terms : Term.extract text .script {} = [] ++ t :: [] := by decide +kernel
  have counted : (step ⟨.script, "$t".toList⟩ start t).toOption.map (·.replaced) = some 1 := by
    decide +kernel
  cases next : step ⟨.script, "$t".toList⟩ start t with
  | error e =>
    rw [next] at counted
    cases counted
  | ok after =>
    rw [next] at counted
    have one : after.replaced = 1 := Option.some.inj counted
    have replaced : after.replaced ≠ start.replaced := by
      rw [one]
      decide
    obtain ⟨pos, behind, -, buffer, registry, -, denotes⟩ :=
      denotes_registered_key_iff terms rfl rfl next replaced
    have key : t.key = "第\\n一".toList := by decide
    have literal : Literal.quote t.key none = text := by decide
    rw [literal] at buffer denotes
    rw [key] at registry denotes
    exact ⟨terms, after, pos, behind, rfl, buffer, registry,
      fun same => absurd (denotes.1 same) (by decide)⟩

end Phrasebook
