import CliMetadata.Hash.Block

/-!
# MD5

The digest of sixteen bytes that identifies a public key where an assembly names
it as its hash algorithm.
-/

namespace CliMetadata.Hash.Md5

/-- The four chaining words. -/
structure State where
  a : UInt32
  b : UInt32
  c : UInt32
  d : UInt32
deriving Repr, DecidableEq

/-- The words before the first block. -/
def start : State := ⟨0x67452301, 0xEFCDAB89, 0x98BADCFE, 0x10325476⟩

/-- The constant of each round: the first 32 bits after the point of its sine. -/
def sines : List UInt32 :=
  [
    0xd76aa478, 0xe8c7b756, 0x242070db, 0xc1bdceee, 0xf57c0faf, 0x4787c62a,
    0xa8304613, 0xfd469501, 0x698098d8, 0x8b44f7af, 0xffff5bb1, 0x895cd7be,
    0x6b901122, 0xfd987193, 0xa679438e, 0x49b40821, 0xf61e2562, 0xc040b340,
    0x265e5a51, 0xe9b6c7aa, 0xd62f105d, 0x02441453, 0xd8a1e681, 0xe7d3fbc8,
    0x21e1cde6, 0xc33707d6, 0xf4d50d87, 0x455a14ed, 0xa9e3e905, 0xfcefa3f8,
    0x676f02d9, 0x8d2a4c8a, 0xfffa3942, 0x8771f681, 0x6d9d6122, 0xfde5380c,
    0xa4beea44, 0x4bdecfa9, 0xf6bb4b60, 0xbebfbc70, 0x289b7ec6, 0xeaa127fa,
    0xd4ef3085, 0x04881d05, 0xd9d4d039, 0xe6db99e5, 0x1fa27cf8, 0xc4ac5665,
    0xf4292244, 0x432aff97, 0xab9423a7, 0xfc93a039, 0x655b59c3, 0x8f0ccc92,
    0xffeff47d, 0x85845dd1, 0x6fa87e4f, 0xfe2ce6e0, 0xa3014314, 0x4e0811a1,
    0xf7537e82, 0xbd3af235, 0x2ad7d2bb, 0xeb86d391]

/-- How far a round turns its sum. -/
def turns (round : Nat) : Nat :=
  let row := match round / 16 with
    | 0 => [7, 12, 17, 22]
    | 1 => [5, 9, 14, 20]
    | 2 => [4, 11, 16, 23]
    | _ => [6, 10, 15, 21]
  row.getD (round % 4) 0

/-- The mixing function of a round and the word it takes. -/
def mix (round : Nat) (b c d : UInt32) : UInt32 × Nat :=
  match round / 16 with
  | 0 => ((b &&& c) ||| (~~~b &&& d), round)
  | 1 => ((d &&& b) ||| (~~~d &&& c), (5 * round + 1) % 16)
  | 2 => (b ^^^ c ^^^ d, (3 * round + 5) % 16)
  | _ => (c ^^^ (b ||| ~~~d), (7 * round) % 16)

/-- The rounds whose constants are given, the first of them number `round`. -/
def rounds (words : List UInt32) : List UInt32 → (round : Nat) → State → State
  | [], _, s => s
  | k :: ks, round, s =>
    let (f, g) := mix round s.b s.c s.d
    let sum := s.a + f + k + words.getD g 0
    rounds words ks (round + 1) ⟨s.d, s.b + rotl sum (turns round), s.b, s.c⟩

/-- One block. -/
def block (s : State) (words : List UInt32) : State :=
  let r := rounds words sines 0 s
  ⟨s.a + r.a, s.b + r.b, s.c + r.c, s.d + r.d⟩

/-- The digest of a message. -/
def digest (message : List UInt8) : List UInt8 :=
  let s := overBlocks .little block start message
  [s.a, s.b, s.c, s.d].flatMap fun w => Endian.little.bytes 4 w.toNat

end CliMetadata.Hash.Md5
