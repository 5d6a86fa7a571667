import Mathlib.Data.List.Induction
import Mathlib.Tactic.Lemma
import Phrasebook.Files.Read

/-!
# What reading a file keeps

Bytes that can be read as a text are the bytes of that text (`encode_of_decode`), and the bytes of a
text are read as that text (`decode_encode`). The text of a file then has its line ends folded: every
character keeps its place among the others, but a carriage return becomes a line feed, and one with a
line feed behind it shares the place of that line feed (`getElem?_foldNewlines`, `foldedPlace_lt`).
-/

namespace Phrasebook

namespace Utf8

variable {a b : UInt8} {rest bytes : Bytes} {c : Char} {n : Nat}

lemma toUInt8_eq (same : n = a.toNat) : n.toUInt8 = a := by
  subst same
  exact UInt8.ofNat_toNat

lemma isContinuation_iff : isContinuation b = true ↔ 128 ≤ b.toNat ∧ b.toNat < 192 := by
  simp [isContinuation, UInt8.le_iff_toNat_le, UInt8.lt_iff_toNat_lt]

/-- What the second byte of a longer character leaves for its number. -/
lemma isSecond_bounds (second : isSecond a b = true) :
    128 ≤ b.toNat ∧ b.toNat < 192 ∧ (a.toNat = 0xE0 → 0xA0 ≤ b.toNat) ∧
      (a.toNat = 0xED → b.toNat < 0xA0) ∧ (a.toNat = 0xF0 → 0x90 ≤ b.toNat) ∧
      (a.toNat = 0xF4 → b.toNat < 0x90) := by
  unfold isSecond at second
  obtain ⟨tail, range⟩ := Bool.and_eq_true_iff.1 second
  obtain ⟨low, high⟩ := isContinuation_iff.1 tail
  have number : ∀ k : UInt8, a.toNat = k.toNat → a = k := fun k same => UInt8.toNat_inj.1 same
  refine ⟨low, high, fun e => ?_, fun e => ?_, fun e => ?_, fun e => ?_⟩
  · rw [number 0xE0 e] at range
    simpa [UInt8.le_iff_toNat_le] using range
  · rw [number 0xED e] at range
    simpa [UInt8.lt_iff_toNat_lt] using range
  · rw [number 0xF0 e] at range
    simpa [UInt8.le_iff_toNat_le] using range
  · rw [number 0xF4 e] at range
    simpa [UInt8.lt_iff_toNat_lt] using range

lemma toNat_ofNat (valid : n.isValidChar) : (Char.ofNat n).toNat = n := by
  rw [Char.ofNat, dif_pos valid]
  rfl

lemma encodeChar_one (small : a.toNat < 0x80) : encodeChar (Char.ofNat a.toNat) = [a] := by
  rw [encodeChar, toNat_ofNat (by left; omega), if_pos small, toUInt8_eq rfl]

lemma encodeChar_two (low : 0xC2 ≤ a.toNat) (high : a.toNat < 0xE0)
    (tail : isContinuation b = true) :
    encodeChar (Char.ofNat (a.toNat % 32 * 64 + bits b)) = [a, b] := by
  obtain ⟨least, most⟩ := isContinuation_iff.1 tail
  unfold bits
  rw [encodeChar, toNat_ofNat (by left; omega)]
  rw [if_neg (by omega), if_pos (by omega), toUInt8_eq (a := a) (by omega),
    toUInt8_eq (a := b) (by omega)]

lemma encodeChar_three {d : UInt8} (low : 0xE0 ≤ a.toNat) (high : a.toNat < 0xF0)
    (second : isSecond a b = true) (tail : isContinuation d = true) :
    encodeChar (Char.ofNat ((a.toNat % 16 * 64 + bits b) * 64 + bits d)) = [a, b, d] := by
  obtain ⟨least, most, e0, ed, -, -⟩ := isSecond_bounds second
  obtain ⟨least', most'⟩ := isContinuation_iff.1 tail
  unfold bits
  -- the second byte keeps the number off the surrogates
  have valid : Nat.isValidChar ((a.toNat % 16 * 64 + b.toNat % 64) * 64 + d.toNat % 64) := by
    by_cases before : a.toNat ≤ 0xED
    · left
      omega
    · right
      omega
  rw [encodeChar, toNat_ofNat valid]
  rw [if_neg (by omega), if_neg (by omega), if_pos (by omega), toUInt8_eq (a := a) (by omega),
    toUInt8_eq (a := b) (by omega), toUInt8_eq (a := d) (by omega)]

lemma encodeChar_four {d e : UInt8} (low : 0xF0 ≤ a.toNat) (high : a.toNat < 0xF5)
    (second : isSecond a b = true) (third : isContinuation d = true)
    (fourth : isContinuation e = true) :
    encodeChar (Char.ofNat (((a.toNat % 8 * 64 + bits b) * 64 + bits d) * 64 + bits e)) =
      [a, b, d, e] := by
  obtain ⟨least, most, -, -, f0, f4⟩ := isSecond_bounds second
  obtain ⟨least', most'⟩ := isContinuation_iff.1 third
  obtain ⟨least'', most''⟩ := isContinuation_iff.1 fourth
  unfold bits
  rw [encodeChar, toNat_ofNat (by right; omega)]
  rw [if_neg (by omega), if_neg (by omega), if_neg (by omega), toUInt8_eq (a := a) (by omega),
    toUInt8_eq (a := b) (by omega), toUInt8_eq (a := d) (by omega), toUInt8_eq (a := e) (by omega)]

/-- The bytes of a character that was read are the bytes it was read from. -/
lemma encodeChar_of_charAt (read : charAt (a :: rest) = .ok (c, n)) :
    encodeChar c ++ rest.drop (n - 1) = a :: rest := by
  unfold charAt at read
  simp only [UInt8.lt_iff_toNat_lt, UInt8.reduceToNat] at read
  split at read
  · rename_i small
    cases read
    rw [encodeChar_one small]
    rfl
  · split at read
    · cases read
    · rename_i low
      split at read
      · rename_i high
        cases rest with
        | nil => cases read
        | cons b rest =>
          dsimp only at read
          split at read
          · rename_i tail
            cases read
            rw [encodeChar_two (by omega) high tail]
            rfl
          · cases read
      · rename_i beyond
        split at read
        · rename_i high
          match rest with
          | [] => cases read
          | [b] => cases read
          | b :: d :: rest =>
            dsimp only at read
            split at read
            · cases read
            · rename_i second
              split at read
              · cases read
              · rename_i third
                cases read
                rw [encodeChar_three (by omega) high (by simpa using second) (by simpa using third)]
                rfl
        · rename_i beyond
          split at read
          · rename_i high
            match rest with
            | [] => cases read
            | [b] => cases read
            | [b, d] => cases read
            | b :: d :: e :: rest =>
              dsimp only at read
              split at read
              · cases read
              · rename_i second
                split at read
                · cases read
                · rename_i third
                  split at read
                  · cases read
                  · rename_i fourth
                    cases read
                    rw [encodeChar_four (by omega) high (by simpa using second)
                      (by simpa using third) (by simpa using fourth)]
                    rfl
          · cases read

/-- Behind the bytes of a character, the text of the rest follows. -/
lemma encode_of_decodeFrom {skip pos : Nat} {t : Text} (read : decodeFrom skip pos bytes = .ok t) :
    encode t = bytes.drop skip := by
  induction bytes generalizing skip pos t with
  | nil =>
    unfold decodeFrom at read
    cases read
    rw [List.drop_nil]
    rfl
  | cons a rest ih =>
    cases skip with
    | succ skip =>
      rw [decodeFrom] at read
      exact ih read
    | zero =>
      rw [decodeFrom] at read
      split at read
      · cases read
      · rename_i c n first
        split at read
        · rename_i u later
          cases read
          show encodeChar c ++ encode u = a :: rest
          rw [ih later]
          exact encodeChar_of_charAt first
        · cases read

/-- Bytes that can be read are the bytes of what was read. -/
lemma encode_of_decode {t : Text} (read : decode bytes = .ok t) : encode t = bytes :=
  encode_of_decodeFrom read

/-! ## Reading what was written -/

lemma toNat_toUInt8 (small : n < 256) : n.toUInt8.toNat = n :=
  UInt8.toNat_ofNat_of_lt' small

lemma isContinuation_toUInt8 (small : n < 64) : isContinuation (0x80 + n).toUInt8 = true := by
  rw [isContinuation_iff, toNat_toUInt8 (by omega)]
  omega

lemma bits_toUInt8 (small : n < 64) : bits (0x80 + n).toUInt8 = n := by
  rw [bits, toNat_toUInt8 (by omega)]
  omega

/-- A continuation byte may come second if it keeps the number in range. -/
lemma isSecond_toUInt8 (small : n < 64) (e0 : a.toNat = 0xE0 → 0x20 ≤ n)
    (ed : a.toNat = 0xED → n < 0x20) (f0 : a.toNat = 0xF0 → 0x10 ≤ n)
    (f4 : a.toNat = 0xF4 → n < 0x10) : isSecond a (0x80 + n).toUInt8 = true := by
  have number : (0x80 + n).toUInt8.toNat = 0x80 + n := toNat_toUInt8 (by omega)
  rw [isSecond, isContinuation_toUInt8 small, Bool.true_and]
  simp only [UInt8.le_iff_toNat_le, UInt8.lt_iff_toNat_lt, ← UInt8.toNat_inj, number,
    UInt8.reduceToNat]
  split
  · rename_i same
    exact decide_eq_true (by have := e0 same; omega)
  · split
    · rename_i same
      exact decide_eq_true (by have := ed same; omega)
    · split
      · rename_i same
        exact decide_eq_true (by have := f0 same; omega)
      · split
        · rename_i same
          exact decide_eq_true (by have := f4 same; omega)
        · rfl

lemma charAt_one (small : c.toNat < 0x80) (rest : Bytes) :
    charAt (c.toNat.toUInt8 :: rest) = .ok (c, 1) := by
  have first : c.toNat.toUInt8.toNat = c.toNat := toNat_toUInt8 (by omega)
  simp only [charAt, UInt8.lt_iff_toNat_lt, UInt8.reduceToNat, first, if_pos small, Char.ofNat_toNat]

lemma charAt_two (low : 0x80 ≤ c.toNat) (high : c.toNat < 0x800) (rest : Bytes) :
    charAt ((0xC0 + c.toNat / 64).toUInt8 :: (0x80 + c.toNat % 64).toUInt8 :: rest) = .ok (c, 2) := by
  have first : (0xC0 + c.toNat / 64).toUInt8.toNat = 0xC0 + c.toNat / 64 := toNat_toUInt8 (by omega)
  have number : (0xC0 + c.toNat / 64) % 32 * 64 + c.toNat % 64 = c.toNat := by omega
  have last : c.toNat % 64 < 64 := by omega
  simp only [charAt, UInt8.lt_iff_toNat_lt, UInt8.reduceToNat, first, isContinuation_toUInt8 last,
    bits_toUInt8 last, number, Char.ofNat_toNat]
  rw [if_neg (by omega), if_neg (by omega), if_pos (by omega), if_pos trivial]

lemma charAt_three (low : 0x800 ≤ c.toNat) (high : c.toNat < 0x10000) (rest : Bytes) :
    charAt ((0xE0 + c.toNat / 4096).toUInt8 :: (0x80 + c.toNat / 64 % 64).toUInt8 ::
      (0x80 + c.toNat % 64).toUInt8 :: rest) = .ok (c, 3) := by
  have valid : c.toNat < 0xD800 ∨ 0xDFFF < c.toNat ∧ c.toNat < 0x110000 := c.valid
  have first : (0xE0 + c.toNat / 4096).toUInt8.toNat = 0xE0 + c.toNat / 4096 :=
    toNat_toUInt8 (by omega)
  have middle : c.toNat / 64 % 64 < 64 := by omega
  have last : c.toNat % 64 < 64 := by omega
  -- no character is a surrogate
  have second : isSecond (0xE0 + c.toNat / 4096).toUInt8 (0x80 + c.toNat / 64 % 64).toUInt8 =
      true := by
    apply isSecond_toUInt8 middle
    all_goals omega
  have number : ((0xE0 + c.toNat / 4096) % 16 * 64 + c.toNat / 64 % 64) * 64 + c.toNat % 64 =
      c.toNat := by omega
  simp only [charAt, UInt8.lt_iff_toNat_lt, UInt8.reduceToNat, first, second,
    isContinuation_toUInt8 last, bits_toUInt8 last, bits_toUInt8 middle, number, Char.ofNat_toNat]
  rw [if_neg (by omega), if_neg (by omega), if_neg (by omega), if_pos (by omega)]
  rfl

lemma charAt_four (low : 0x10000 ≤ c.toNat) (rest : Bytes) :
    charAt ((0xF0 + c.toNat / 262144).toUInt8 :: (0x80 + c.toNat / 4096 % 64).toUInt8 ::
      (0x80 + c.toNat / 64 % 64).toUInt8 :: (0x80 + c.toNat % 64).toUInt8 :: rest) = .ok (c, 4) := by
  have valid : c.toNat < 0xD800 ∨ 0xDFFF < c.toNat ∧ c.toNat < 0x110000 := c.valid
  have first : (0xF0 + c.toNat / 262144).toUInt8.toNat = 0xF0 + c.toNat / 262144 :=
    toNat_toUInt8 (by omega)
  have next : c.toNat / 4096 % 64 < 64 := by omega
  have middle : c.toNat / 64 % 64 < 64 := by omega
  have last : c.toNat % 64 < 64 := by omega
  have second : isSecond (0xF0 + c.toNat / 262144).toUInt8 (0x80 + c.toNat / 4096 % 64).toUInt8 =
      true := by
    apply isSecond_toUInt8 next
    all_goals omega
  have number : (((0xF0 + c.toNat / 262144) % 8 * 64 + c.toNat / 4096 % 64) * 64 +
      c.toNat / 64 % 64) * 64 + c.toNat % 64 = c.toNat := by omega
  simp only [charAt, UInt8.lt_iff_toNat_lt, UInt8.reduceToNat, first, second,
    isContinuation_toUInt8 last, isContinuation_toUInt8 middle, bits_toUInt8 last,
    bits_toUInt8 middle, bits_toUInt8 next, number, Char.ofNat_toNat]
  rw [if_neg (by omega), if_neg (by omega), if_neg (by omega), if_neg (by omega), if_pos (by omega)]
  rfl

/-- The bytes of a character are read as that character, whatever follows. -/
lemma charAt_encodeChar (c : Char) (rest : Bytes) :
    ∃ a more, encodeChar c = a :: more ∧
      charAt (a :: (more ++ rest)) = .ok (c, more.length + 1) := by
  unfold encodeChar
  dsimp only
  split
  · rename_i one
    exact ⟨_, [], rfl, charAt_one one rest⟩
  · rename_i above
    split
    · rename_i two
      exact ⟨_, [_], rfl, charAt_two (by omega) two rest⟩
    · rename_i above
      split
      · rename_i three
        exact ⟨_, [_, _], rfl, charAt_three (by omega) three rest⟩
      · rename_i above
        exact ⟨_, [_, _, _], rfl, charAt_four (by omega) rest⟩

lemma decodeFrom_skip (pos : Nat) (passed rest : Bytes) :
    decodeFrom passed.length pos (passed ++ rest) = decodeFrom 0 (pos + passed.length) rest := by
  induction passed generalizing pos with
  | nil => rfl
  | cons a passed ih =>
    rw [List.length_cons, List.cons_append, decodeFrom, ih, Nat.add_assoc, Nat.add_comm 1]

/-- The bytes of a text are read as that text. -/
lemma decode_encode (t : Text) : decode (encode t) = .ok t := by
  have behind : ∀ pos, decodeFrom 0 pos (encode t) = .ok t := by
    induction t with
    | nil => exact fun pos => rfl
    | cons c t ih =>
      intro pos
      obtain ⟨a, more, bytes, first⟩ := charAt_encodeChar c (encode t)
      have whole : encode (c :: t) = a :: (more ++ encode t) := by
        show encodeChar c ++ encode t = _
        rw [bytes, List.cons_append]
      rw [whole, decodeFrom, first]
      simp only [Nat.add_sub_cancel, decodeFrom_skip, ih]
  exact behind 0

end Utf8

namespace Text

variable {t : Text} {i j : Nat}

/-- What a character is once line ends are folded, apart from a line feed behind a carriage return. -/
def foldNewline (c : Char) : Char :=
  if c = '\r' then '\n' else c

/-- Where a character of a text stands once its line ends are folded. -/
def foldedPlace (t : Text) (i : Nat) : Nat :=
  (foldNewlines (t.take (i + 1))).length - 1

lemma foldNewlines_cons {c : Char} {rest : Text} (apart : c = '\r' → rest.head? ≠ some '\n') :
    foldNewlines (c :: rest) = foldNewline c :: foldNewlines rest := by
  by_cases feed : c = '\r'
  · subst feed
    cases rest with
    | nil => rfl
    | cons d ds =>
      have other : d ≠ '\n' := by
        rintro rfl
        exact apart rfl rfl
      rw [foldNewlines.eq_3 _ (by rintro r ⟨⟩; exact other rfl)]
      rfl
  · rw [foldNewlines.eq_4 _ _ (by rintro _ rfl; exact absurd rfl feed) feed, foldNewline, if_neg feed]

lemma foldNewlines_eq_self (clean : '\r' ∉ t) : foldNewlines t = t := by
  induction t with
  | nil => rfl
  | cons c t ih =>
    rw [List.mem_cons, not_or] at clean
    rw [foldNewlines_cons fun feed => absurd feed.symm clean.1, ih clean.2, foldNewline,
      if_neg (Ne.symm clean.1)]

/-- A further character is one more, unless it is a line feed behind a carriage return. -/
lemma foldNewlines_concat (t : Text) (c : Char) :
    foldNewlines (t ++ [c]) =
      if c = '\n' ∧ t.getLast? = some '\r' then foldNewlines t
      else foldNewlines t ++ [foldNewline c] := by
  have single : foldNewlines [c] = [foldNewline c] := foldNewlines_cons (by simp)
  induction t using foldNewlines.induct with
  | case1 => simpa [foldNewlines] using single
  | case2 rest ih =>
    show '\n' :: foldNewlines (rest ++ [c]) = _
    rw [ih, foldNewlines]
    cases rest with
    | nil => simp
    | cons d ds =>
      rw [List.getLast?_cons_cons, List.getLast?_cons_cons]
      split <;> rfl
  | case3 rest apart ih =>
    cases rest with
    | nil =>
      by_cases feed : c = '\n'
      · simp [feed, foldNewlines]
      · rw [List.singleton_append, foldNewlines_cons (by simpa using feed), single]
        simp [feed, foldNewlines, foldNewline]
    | cons d ds =>
      have other : d ≠ '\n' := by
        rintro rfl
        exact apart ds rfl
      rw [List.cons_append, foldNewlines_cons (by simpa using other),
        foldNewlines_cons (by simpa using other), ih, List.getLast?_cons_cons]
      split <;> rfl
  | case4 d rest pair other ih =>
    have plain : d ≠ '\r' := other
    rw [List.cons_append, foldNewlines_cons fun feed => absurd feed plain,
      foldNewlines_cons fun feed => absurd feed plain, ih]
    cases rest with
    | nil => simp [plain]
    | cons e es =>
      rw [List.getLast?_cons_cons]
      split <;> rfl

lemma getLast?_foldNewlines_concat (t : Text) (c : Char) :
    (foldNewlines (t ++ [c])).getLast? = some (foldNewline c) := by
  rw [foldNewlines_concat]
  split
  · rename_i both
    obtain ⟨rfl, last⟩ := both
    -- the carriage return before it has become the same line feed
    obtain ⟨front, rfl⟩ := List.getLast?_eq_some_iff.1 last
    rw [foldNewlines_concat, if_neg (by simp), List.getLast?_concat]
    rfl
  · exact List.getLast?_concat

lemma foldNewlines_prefix (t u : Text) : foldNewlines t <+: foldNewlines (t ++ u) := by
  induction u using List.reverseRecOn with
  | nil => exact (List.append_nil t).symm ▸ List.prefix_rfl
  | append_singleton u c ih =>
    rw [← List.append_assoc, foldNewlines_concat]
    split
    · exact ih
    · exact ih.trans (List.prefix_append _ _)

/-- With its line ends folded, a text has each character at its place, but line feeds for carriage
returns. -/
lemma getElem?_foldNewlines {c : Char} (stands : t[i]? = some c) :
    (foldNewlines t)[foldedPlace t i]? = some (foldNewline c) := by
  obtain ⟨inside, rfl⟩ := List.getElem?_eq_some_iff.1 stands
  have front : t.take (i + 1) = t.take i ++ [t[i]] := List.take_succ_eq_append_getElem inside
  have last := getLast?_foldNewlines_concat (t.take i) t[i]
  rw [← front, List.getLast?_eq_getElem?] at last
  obtain ⟨rest, split⟩ := foldNewlines_prefix (t.take (i + 1)) (t.drop (i + 1))
  rw [List.take_append_drop] at split
  have within := (List.getElem?_eq_some_iff.1 last).1
  rw [← split, foldedPlace, List.getElem?_append_left within]
  exact last

/-- Later characters have later places, except for a line feed right behind a carriage return. -/
lemma foldedPlace_lt (order : i < j) (inside : j < t.length) (plain : t[i]? ≠ some '\r') :
    foldedPlace t i < foldedPlace t j := by
  have next : t.take (i + 2) = t.take (i + 1) ++ [t[i + 1]] :=
    List.take_succ_eq_append_getElem (by omega)
  have last : (t.take (i + 1)).getLast? = t[i]? := by
    rw [List.take_succ_eq_append_getElem (by omega), List.getLast?_concat,
      List.getElem?_eq_getElem (by omega)]
  have longer : (foldNewlines (t.take (i + 2))).length =
      (foldNewlines (t.take (i + 1))).length + 1 := by
    rw [next, foldNewlines_concat, if_neg, List.length_append, List.length_singleton]
    rintro ⟨-, feed⟩
    exact plain (last ▸ feed)
  have grows : (foldNewlines (t.take (i + 2))).length ≤ (foldNewlines (t.take (j + 1))).length := by
    have front := foldNewlines_prefix ((t.take (j + 1)).take (i + 2)) ((t.take (j + 1)).drop (i + 2))
    rw [List.take_append_drop, List.take_take, Nat.min_eq_left (by omega)] at front
    exact front.length_le
  have pos : 0 < (foldNewlines (t.take (i + 1))).length := by
    rw [List.length_pos_iff]
    intro empty
    have end? := getLast?_foldNewlines_concat (t.take i) t[i]
    rw [← List.take_succ_eq_append_getElem, empty] at end?
    cases end?
  unfold foldedPlace
  omega

end Text

end Phrasebook
