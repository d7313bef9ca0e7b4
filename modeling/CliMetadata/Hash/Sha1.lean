import CliMetadata.Hash.Block

/-!
# SHA-1

The digest of twenty bytes that identifies a public key by default.
-/

namespace CliMetadata.Hash.Sha1

/-- The five chaining words. -/
structure State where
  a : UInt32
  b : UInt32
  c : UInt32
  d : UInt32
  e : UInt32
deriving Repr, DecidableEq

/-- The words before the first block. -/
def start : State := ⟨0x67452301, 0xEFCDAB89, 0x98BADCFE, 0x10325476, 0xC3D2E1F0⟩

/-- The mixing function and the constant of a round. -/
def mix (round : Nat) (b c d : UInt32) : UInt32 × UInt32 :=
  if round < 20 then ((b &&& c) ||| (~~~b &&& d), 0x5A827999)
  else if round < 40 then (b ^^^ c ^^^ d, 0x6ED9EBA1)
  else if round < 60 then ((b &&& c) ||| (b &&& d) ||| (c &&& d), 0x8F1BBCDC)
  else (b ^^^ c ^^^ d, 0xCA62C1D6)

/-- The word that follows sixteen words of the schedule. -/
def nextWord (window : List UInt32) : UInt32 :=
  rotl (window.getD 13 0 ^^^ window.getD 8 0 ^^^ window.getD 2 0 ^^^ window.getD 0 0) 1

/-- `fuel` rounds, the first of them number `round`.  The window holds this
round's word and the fifteen after it. -/
def rounds : (fuel : Nat) → (round : Nat) → (window : List UInt32) → State → State
  | 0, _, _, s => s
  | n + 1, round, window, s =>
    let (f, k) := mix round s.b s.c s.d
    let t := rotl s.a 5 + f + s.e + k + window.getD 0 0
    rounds n (round + 1) (window.tail ++ [nextWord window]) ⟨t, s.a, rotl s.b 30, s.c, s.d⟩

/-- One block. -/
def block (s : State) (words : List UInt32) : State :=
  let r := rounds 80 0 words s
  ⟨s.a + r.a, s.b + r.b, s.c + r.c, s.d + r.d, s.e + r.e⟩

/-- The digest of a message. -/
def digest (message : List UInt8) : List UInt8 :=
  let s := overBlocks .big block start message
  [s.a, s.b, s.c, s.d, s.e].flatMap fun w => Endian.big.bytes 4 w.toNat

end CliMetadata.Hash.Sha1
