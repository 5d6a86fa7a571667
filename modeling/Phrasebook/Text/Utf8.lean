import Phrasebook.Text.Hex

/-!
# UTF-8

Files hold bytes. Reading them as text stops at the first byte sequence that is not well formed and
says which bytes are at fault and why.
-/

namespace Phrasebook

/-- The content of a file. -/
abbrev Bytes := List UInt8

namespace Utf8

/-- Why bytes are not well formed. -/
inductive Reason where
  | invalidStart
  | invalidContinuation
  | unexpectedEnd
  deriving Repr, DecidableEq

/-- The wording of a reason. -/
def Reason.wording : Reason → String
  | invalidStart => "invalid start byte"
  | invalidContinuation => "invalid continuation byte"
  | unexpectedEnd => "unexpected end of data"

/-- The bytes at fault. -/
structure Fault where
  /-- Why they are at fault. -/
  reason : Reason
  /-- The offset of the first one. -/
  start : Nat
  /-- How many they are. -/
  length : Nat
  /-- The first one. -/
  byte : UInt8
  deriving Repr, DecidableEq

/-- The message of a fault. -/
def Fault.message (f : Fault) : Text :=
  let what : Text :=
    if f.length = 1 then
      "byte 0x".toList ++ Text.hex 2 f.byte.toNat ++ " in position ".toList ++ Text.ofNat f.start
    else
      "bytes in position ".toList ++ Text.ofNat f.start ++ '-' ::
        Text.ofNat (f.start + f.length - 1)
  "'utf-8' codec can't decode ".toList ++ what ++ ": ".toList ++ f.reason.wording.toList

/-- Whether a byte continues a character. -/
def isContinuation (b : UInt8) : Bool :=
  0x80 ≤ b && b < 0xC0

/-- Whether a byte may follow the first byte `a` of a character of three or four bytes: neither too
small a number, nor a surrogate, nor a number past the last code point may result. -/
def isSecond (a b : UInt8) : Bool :=
  isContinuation b &&
    if a = 0xE0 then 0xA0 ≤ b
    else if a = 0xED then b < 0xA0
    else if a = 0xF0 then 0x90 ≤ b
    else if a = 0xF4 then b < 0x90
    else true

/-- The low six bits of a continuation byte. -/
def bits (b : UInt8) : Nat :=
  b.toNat % 64

/-- Reads the first character of some bytes and says how many bytes it takes, or why it cannot be
read and how many bytes are at fault. -/
def charAt : Bytes → Except (Reason × Nat) (Char × Nat)
  | [] => .error (.unexpectedEnd, 0)
  | a :: rest =>
    if a < 0x80 then .ok (Char.ofNat a.toNat, 1)
    else if a < 0xC2 then .error (.invalidStart, 1)
    else if a < 0xE0 then
      match rest with
      | [] => .error (.unexpectedEnd, 1)
      | b :: _ =>
        if isContinuation b then .ok (Char.ofNat (a.toNat % 32 * 64 + bits b), 2)
        else .error (.invalidContinuation, 1)
    else if a < 0xF0 then
      match rest with
      | [] => .error (.unexpectedEnd, 1)
      | [b] => .error (if isSecond a b then (.unexpectedEnd, 2) else (.invalidContinuation, 1))
      | b :: c :: _ =>
        if !isSecond a b then .error (.invalidContinuation, 1)
        else if !isContinuation c then .error (.invalidContinuation, 2)
        else .ok (Char.ofNat ((a.toNat % 16 * 64 + bits b) * 64 + bits c), 3)
    else if a < 0xF5 then
      match rest with
      | [] => .error (.unexpectedEnd, 1)
      | [b] => .error (if isSecond a b then (.unexpectedEnd, 2) else (.invalidContinuation, 1))
      | [b, c] =>
        .error (
          if !isSecond a b then (.invalidContinuation, 1)
          else if !isContinuation c then (.invalidContinuation, 2)
          else (.unexpectedEnd, 3))
      | b :: c :: d :: _ =>
        if !isSecond a b then .error (.invalidContinuation, 1)
        else if !isContinuation c then .error (.invalidContinuation, 2)
        else if !isContinuation d then .error (.invalidContinuation, 3)
        else .ok (Char.ofNat (((a.toNat % 8 * 64 + bits b) * 64 + bits c) * 64 + bits d), 4)
    else .error (.invalidStart, 1)

/-- Decodes from offset `pos` on, first passing over `skip` bytes of the last character. -/
def decodeFrom : Nat → Nat → Bytes → Except Fault Text
  | _, _, [] => .ok []
  | skip + 1, pos, _ :: rest => decodeFrom skip (pos + 1) rest
  | 0, pos, a :: rest =>
    match charAt (a :: rest) with
    | .error (reason, length) => .error ⟨reason, pos, length, a⟩
    | .ok (c, n) =>
      match decodeFrom (n - 1) (pos + 1) rest with
      | .ok t => .ok (c :: t)
      | .error f => .error f

/-- The text that bytes encode. -/
def decode (bytes : Bytes) : Except Fault Text :=
  decodeFrom 0 0 bytes

/-- The bytes of a character. -/
def encodeChar (c : Char) : Bytes :=
  let n := c.toNat
  if n < 0x80 then [n.toUInt8]
  else if n < 0x800 then [(0xC0 + n / 64).toUInt8, (0x80 + n % 64).toUInt8]
  else if n < 0x10000 then
    [(0xE0 + n / 4096).toUInt8, (0x80 + n / 64 % 64).toUInt8, (0x80 + n % 64).toUInt8]
  else
    [(0xF0 + n / 262144).toUInt8, (0x80 + n / 4096 % 64).toUInt8, (0x80 + n / 64 % 64).toUInt8,
      (0x80 + n % 64).toUInt8]

/-- The bytes of a text. -/
def encode (t : Text) : Bytes :=
  t.flatMap encodeChar

end Utf8

end Phrasebook
