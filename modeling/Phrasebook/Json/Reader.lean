import Phrasebook.Json.Basic
import Phrasebook.Text.Digit

/-!
# Reading JSON

A reader that takes a value off the front of a text and returns the rest. A fault says why reading
stopped and how much of the text was left there, from which its place follows. An integer may have
no more digits than any other number. Half a surrogate pair is no character, so a text that escapes
one without the other is refused.
-/

namespace Phrasebook.Json

/-- Why a text is not JSON. -/
inductive Reason where
  | expectingValue
  | expectingName
  | expectingColon
  | expectingComma
  | extraData
  | unterminatedString
  | controlCharacter
  | invalidEscape
  | invalidUnicodeEscape
  /-- An escape by number writes half a surrogate pair, without the other half. -/
  | loneSurrogate
  | byteOrderMark
  /-- An integer has more digits than a number may have. -/
  | longInteger (digits : Nat)
  deriving Repr, DecidableEq

/-- The wording of a reason. -/
def Reason.wording : Reason → Text
  | expectingValue => "Expecting value".toList
  | expectingName => "Expecting property name enclosed in double quotes".toList
  | expectingColon => "Expecting ':' delimiter".toList
  | expectingComma => "Expecting ',' delimiter".toList
  | extraData => "Extra data".toList
  | unterminatedString => "Unterminated string starting at".toList
  | controlCharacter => "Invalid control character at".toList
  | invalidEscape => "Invalid \\escape".toList
  | invalidUnicodeEscape => "Invalid \\uXXXX escape".toList
  | loneSurrogate => "Unpaired surrogate escape".toList
  | byteOrderMark => "Unexpected UTF-8 BOM (decode using utf-8-sig)".toList
  | longInteger digits =>
    "Exceeds the limit (".toList ++ Text.ofNat Text.digitLimit ++
      " digits) for integer string conversion: value has ".toList ++ Text.ofNat digits ++
      " digits; use sys.set_int_max_str_digits() to increase the limit".toList

/-- Whether the place is told with a reason. -/
def Reason.isPlaced : Reason → Bool
  | longInteger _ => false
  | _ => true

/-- A reason together with the number of characters from the faulty place to the end. -/
structure Fault where
  /-- Why reading stopped. -/
  reason : Reason
  /-- How many characters were left there. -/
  remaining : Nat
  deriving Repr, DecidableEq

/-- The place of a fault found in the text `t`: its line, column and offset. -/
def Fault.place (f : Fault) (t : Text) : Text :=
  let pos := t.length - f.remaining
  let before := t.take pos
  let line := before.count '\n' + 1
  let column := (before.reverse.takeWhile (· != '\n')).length + 1
  "line ".toList ++ Text.ofNat line ++ " column ".toList ++ Text.ofNat column ++ " (char ".toList ++
    Text.ofNat pos ++ ")".toList

/-- The message of a fault found in the text `t`. -/
def Fault.message (f : Fault) (t : Text) : Text :=
  if f.reason.isPlaced then f.reason.wording ++ ": ".toList ++ f.place t else f.reason.wording

/-- The four characters that may stand between tokens. -/
def isSpace (c : Char) : Bool :=
  c == ' ' || c == '\t' || c == '\n' || c == '\r'

/-- The value of a hexadecimal digit. -/
def hexDigit? (c : Char) : Option Nat :=
  if '0' ≤ c && c ≤ '9' then some (c.toNat - '0'.toNat)
  else if 'a' ≤ c && c ≤ 'f' then some (c.toNat - 'a'.toNat + 10)
  else if 'A' ≤ c && c ≤ 'F' then some (c.toNat - 'A'.toNat + 10)
  else none

/-- The number that four hexadecimal digits write. -/
def hexWord? (a b c d : Char) : Option Nat :=
  match hexDigit? a, hexDigit? b, hexDigit? c, hexDigit? d with
  | some a, some b, some c, some d => some (((a * 16 + b) * 16 + c) * 16 + d)
  | _, _, _, _ => none

/-- Whether a number is the first half of a surrogate pair. -/
def isHighSurrogate (n : Nat) : Bool :=
  0xD800 ≤ n && n ≤ 0xDBFF

/-- Whether a number is the second half of a surrogate pair. -/
def isLowSurrogate (n : Nat) : Bool :=
  0xDC00 ≤ n && n ≤ 0xDFFF

/-- The character that a pair of surrogates writes. -/
def joinSurrogates (high low : Nat) : Char :=
  Char.ofNat (0x10000 + (high - 0xD800) * 0x400 + (low - 0xDC00))

/-- The character that a one-letter escape stands for. -/
def simpleEscape? : Char → Option Char
  | '"' => some '"'
  | '\\' => some '\\'
  | '/' => some '/'
  | 'b' => some '\x08'
  | 'f' => some '\x0c'
  | 'n' => some '\n'
  | 'r' => some '\r'
  | 't' => some '\t'
  | _ => none

/-- The character that the second half of a surrogate pair, written next, completes with the first
half `high`. -/
def lowHalf (high : Nat) : Text → Except Fault (Option Char)
  | '\\' :: 'u' :: a :: b :: c :: d :: rest =>
    if rest.isEmpty then .ok none
    else
      match hexWord? a b c d with
      | none => .error ⟨.invalidUnicodeEscape, rest.length + 5⟩
      | some low => .ok (if isLowSurrogate low then some (joinSurrogates high low) else none)
  | _ => .ok none

/-- Reads one character of a string and the number of characters that write it, or nothing at the
closing quote; `start` characters were left before the opening quote. An escape by number needs a
character behind its digits. -/
def stringChar (start : Nat) : Text → Except Fault (Option (Char × Nat))
  | [] => .error ⟨.unterminatedString, start⟩
  | '"' :: _ => .ok none
  | '\\' :: 'u' :: a :: b :: c :: d :: rest =>
    match hexWord? a b c d with
    | none => .error ⟨.invalidUnicodeEscape, rest.length + 5⟩
    | some n =>
      if rest.isEmpty then .error ⟨.invalidUnicodeEscape, 5⟩
      else if isHighSurrogate n then
        match lowHalf n rest with
        | .error f => .error f
        | .ok (some joined) => .ok (some (joined, 12))
        | .ok none => .error ⟨.loneSurrogate, rest.length + 6⟩
      else if isLowSurrogate n then .error ⟨.loneSurrogate, rest.length + 6⟩
      else .ok (some (Char.ofNat n, 6))
  | '\\' :: 'u' :: rest => .error ⟨.invalidUnicodeEscape, rest.length + 1⟩
  | ['\\'] => .error ⟨.unterminatedString, start⟩
  | '\\' :: c :: rest =>
    match simpleEscape? c with
    | some d => .ok (some (d, 2))
    | none => .error ⟨.invalidEscape, rest.length + 2⟩
  | c :: rest =>
    if c.toNat ≤ 0x1F then .error ⟨.controlCharacter, rest.length + 1⟩ else .ok (some (c, 1))

/-- Reads the rest of a string up to its closing quote, first passing over `skip` characters that
belong to the character read last. -/
def stringFrom (start : Nat) : Nat → Text → Except Fault (Text × Text)
  | _, [] => .error ⟨.unterminatedString, start⟩
  | skip + 1, _ :: cs => stringFrom start skip cs
  | 0, c :: cs =>
    match stringChar start (c :: cs) with
    | .error f => .error f
    | .ok none => .ok ([], cs)
    | .ok (some (d, n)) =>
      match stringFrom start (n - 1) cs with
      | .ok (s, rest) => .ok (d :: s, rest)
      | .error f => .error f

/-- Reads a string from behind its opening quote. -/
def stringBody (start : Nat) (t : Text) : Except Fault (Text × Text) :=
  stringFrom start 0 t

/-- The fraction at the front of a text: a point and at least one digit. -/
def takeFraction : Text → Text × Text
  | '.' :: rest =>
    let ds := rest.takeWhile Char.isDigit
    if ds.isEmpty then ([], '.' :: rest) else ('.' :: ds, rest.dropWhile Char.isDigit)
  | t => ([], t)

/-- The exponent at the front of a text: its letter, an optional sign and at least one digit. -/
def takeExponent : Text → Text × Text
  | e :: rest =>
    if e == 'e' || e == 'E' then
      let sign := match rest with
        | s :: _ => if s == '+' || s == '-' then [s] else []
        | [] => []
      let behind := rest.drop sign.length
      let ds := behind.takeWhile Char.isDigit
      if ds.isEmpty then ([], e :: rest)
      else (e :: sign ++ ds, behind.dropWhile Char.isDigit)
    else ([], e :: rest)
  | [] => ([], [])

/-- The digits of an integer at the front of a text: a zero, or a run that starts with none. -/
def takeInteger : Text → Text × Text
  | '0' :: rest => (['0'], rest)
  | t => (t.takeWhile Char.isDigit, t.dropWhile Char.isDigit)

/-- Reads a number. -/
def number (t : Text) : Except Fault (Json × Text) :=
  let sign := match t with
    | '-' :: _ => ['-']
    | _ => []
  let (digits, rest) := takeInteger (t.drop sign.length)
  if digits.isEmpty then .error ⟨.expectingValue, t.length⟩
  else
    let (fraction, rest) := takeFraction rest
    let (exponent, rest) := takeExponent rest
    if fraction.isEmpty && exponent.isEmpty then
      if Text.digitLimit < digits.length then .error ⟨.longInteger digits.length, t.length⟩
      else
        let n : Int := natOfDigits digits
        .ok (.int (if sign.isEmpty then n else -n), rest)
    else .ok (.decimal (sign ++ digits ++ fraction ++ exponent), rest)

/-- The values that are written as a word. -/
def constants : List (String × Json) :=
  [("null", .null), ("true", .bool true), ("false", .bool false),
    ("NaN", .decimal "NaN".toList), ("Infinity", .decimal "Infinity".toList),
    ("-Infinity", .decimal "-Infinity".toList)]

/-- Reads a word or a number. -/
def scalar (t : Text) : Except Fault (Json × Text) :=
  match constants.find? fun p => p.1.toList.isPrefixOf t with
  | some (word, v) => .ok (v, t.drop word.toList.length)
  | none => number t

mutual

/-- Reads one value, starting at its first character. -/
def value : Nat → Text → Except Fault (Json × Text)
  | 0, t => .error ⟨.expectingValue, t.length⟩
  | fuel + 1, t =>
    match t with
    | '"' :: rest =>
      match stringBody t.length rest with
      | .ok (s, rest) => .ok (.str s, rest)
      | .error f => .error f
    | '\x7b' :: rest =>
      match rest.dropWhile isSpace with
      | '\x7d' :: rest => .ok (.obj [], rest)
      | rest =>
        match members fuel rest with
        | .ok (ms, rest) => .ok (.obj (Entries.ofPairs ms), rest)
        | .error f => .error f
    | '[' :: rest =>
      match rest.dropWhile isSpace with
      | ']' :: rest => .ok (.arr [], rest)
      | rest =>
        match elements fuel rest with
        | .ok (vs, rest) => .ok (.arr vs, rest)
        | .error f => .error f
    | t => scalar t

/-- Reads the members of an object from the first name to the closing brace. -/
def members : Nat → Text → Except Fault (List (Text × Json) × Text)
  | 0, t => .error ⟨.expectingName, t.length⟩
  | fuel + 1, t =>
    match t with
    | '"' :: rest =>
      match stringBody t.length rest with
      | .error f => .error f
      | .ok (name, rest) =>
        match rest.dropWhile isSpace with
        | ':' :: rest =>
          match value fuel (rest.dropWhile isSpace) with
          | .error f => .error f
          | .ok (v, rest) =>
            match rest.dropWhile isSpace with
            | '\x7d' :: rest => .ok ([(name, v)], rest)
            | ',' :: rest =>
              match members fuel (rest.dropWhile isSpace) with
              | .ok (ms, rest) => .ok ((name, v) :: ms, rest)
              | .error f => .error f
            | rest => .error ⟨.expectingComma, rest.length⟩
        | rest => .error ⟨.expectingColon, rest.length⟩
    | t => .error ⟨.expectingName, t.length⟩

/-- Reads the items of an array from the first one to the closing bracket. -/
def elements : Nat → Text → Except Fault (List Json × Text)
  | 0, t => .error ⟨.expectingValue, t.length⟩
  | fuel + 1, t =>
    match value fuel t with
    | .error f => .error f
    | .ok (v, rest) =>
      match rest.dropWhile isSpace with
      | ']' :: rest => .ok ([v], rest)
      | ',' :: rest =>
        match elements fuel (rest.dropWhile isSpace) with
        | .ok (vs, rest) => .ok (v :: vs, rest)
        | .error f => .error f
      | rest => .error ⟨.expectingComma, rest.length⟩

end

/-- Reads a text that holds one value, with white space around it. Every nested call comes behind a
character of its own or starts a list that a bracket opened, so the fuel does not run out. -/
def read (t : Text) : Except Fault Json :=
  if t.head? = some '﻿' then .error ⟨.byteOrderMark, t.length⟩
  else
    match value (2 * t.length + 2) (t.dropWhile isSpace) with
    | .error f => .error f
    | .ok (v, rest) =>
      match rest.dropWhile isSpace with
      | [] => .ok v
      | rest => .error ⟨.extraData, rest.length⟩

end Phrasebook.Json
