import Phrasebook.Text.Utf8

/-!
# SHA-1 digests

Backups are named for the SHA-1 digest of the text they keep.
-/

namespace Phrasebook.Digest

/-- The five words of a digest under way. -/
structure State where
  a : UInt32
  b : UInt32
  c : UInt32
  d : UInt32
  e : UInt32
  deriving Repr, DecidableEq

/-- The words that every digest starts from. -/
def initial : State :=
  ⟨0x67452301, 0xEFCDAB89, 0x98BADCFE, 0x10325476, 0xC3D2E1F0⟩

/-- Turns the bits of a word to the left. -/
def rotate (x : UInt32) (n : UInt32) : UInt32 :=
  (x <<< n) ||| (x >>> (32 - n))

/-- The `n` bytes of a number, the most significant first. -/
def bigEndian : Nat → Nat → Bytes
  | 0, _ => []
  | n + 1, x => bigEndian n (x / 256) ++ [(x % 256).toUInt8]

/-- The message with its padding: one bit, zeros up to a multiple of 64 bytes less eight, and the
number of bits in eight bytes. -/
def padded (message : Bytes) : Bytes :=
  let n := message.length
  message ++ 0x80 :: List.replicate ((119 - n % 64) % 64) 0 ++ bigEndian 8 (8 * n)

/-- The words of a list of bytes, four bytes each. -/
def words : Bytes → List UInt32
  | a :: b :: c :: d :: rest =>
    ((a.toUInt32 <<< 24) ||| (b.toUInt32 <<< 16) ||| (c.toUInt32 <<< 8) ||| d.toUInt32) ::
      words rest
  | _ => []

/-- Extends the words of a block by `n` more; `recent` holds the last words, the newest first. -/
def extend : Nat → List UInt32 → List UInt32
  | 0, _ => []
  | n + 1, recent =>
    let ago := fun k => recent.getD (k - 1) 0
    let w := rotate (ago 3 ^^^ ago 8 ^^^ ago 14 ^^^ ago 16) 1
    w :: extend n (w :: recent.take 15)

/-- The eighty words that a block of sixteen gives. -/
def schedule (block : List UInt32) : List UInt32 :=
  block ++ extend 64 block.reverse

/-- The mixing function and the constant of a round. -/
def mix (round : Nat) (b c d : UInt32) : UInt32 × UInt32 :=
  if round < 20 then ((b &&& c) ||| (~~~b &&& d), 0x5A827999)
  else if round < 40 then (b ^^^ c ^^^ d, 0x6ED9EBA1)
  else if round < 60 then ((b &&& c) ||| (b &&& d) ||| (c &&& d), 0x8F1BBCDC)
  else (b ^^^ c ^^^ d, 0xCA62C1D6)

/-- The rounds from number `round` on. -/
def rounds : Nat → State → List UInt32 → State
  | _, s, [] => s
  | round, s, w :: ws =>
    let (f, k) := mix round s.b s.c s.d
    rounds (round + 1) ⟨rotate s.a 5 + f + s.e + k + w, s.a, rotate s.b 30, s.c, s.d⟩ ws

/-- Takes a block of sixteen words into the digest. -/
def absorb (s : State) (block : List UInt32) : State :=
  let r := rounds 0 s (schedule block)
  ⟨s.a + r.a, s.b + r.b, s.c + r.c, s.d + r.d, s.e + r.e⟩

/-- Takes up to `n` blocks into the digest. -/
def absorbAll : Nat → State → List UInt32 → State
  | 0, s, _ => s
  | n + 1, s, ws =>
    if ws.isEmpty then s else absorbAll n (absorb s (ws.take 16)) (ws.drop 16)

/-- The digest of a message as forty hexadecimal digits. -/
def sha1 (message : Bytes) : Text :=
  let ws := words (padded message)
  let s := absorbAll (ws.length / 16) initial ws
  [s.a, s.b, s.c, s.d, s.e].flatMap fun w => Text.hex 8 w.toNat

end Phrasebook.Digest
