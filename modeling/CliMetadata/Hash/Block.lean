/-!
# Blocks of a padded message

MD5 and SHA-1 cut a message the same way: one bit, zeros, and the length in bits
as eight bytes fill it up to whole blocks of sixty-four bytes.  They differ in
the order of the bytes inside a word (`Endian`).
-/

namespace CliMetadata.Hash

/-- The order of the bytes in a word. -/
inductive Endian where
  | little | big
deriving Repr, DecidableEq

/-- The lowest `width` bytes of a number, least first. -/
def leastFirst : (width : Nat) → Nat → List UInt8
  | 0, _ => []
  | w + 1, n => UInt8.ofNat (n % 256) :: leastFirst w (n / 256)

/-- A number as `width` bytes. -/
def Endian.bytes (e : Endian) (width n : Nat) : List UInt8 :=
  match e with
  | .little => leastFirst width n
  | .big => (leastFirst width n).reverse

/-- The number four bytes stand for. -/
def Endian.word (e : Endian) (a b c d : UInt8) : UInt32 :=
  match e with
  | .little => UInt32.ofNat (a.toNat + 256 * (b.toNat + 256 * (c.toNat + 256 * d.toNat)))
  | .big => UInt32.ofNat (d.toNat + 256 * (c.toNat + 256 * (b.toNat + 256 * a.toNat)))

/-- The words of a run of bytes; fewer than four bytes at the end are left out. -/
def Endian.words (e : Endian) : List UInt8 → List UInt32
  | a :: b :: c :: d :: rest => e.word a b c d :: e.words rest
  | _ => []

/-- A message filled up to whole blocks. -/
def padded (e : Endian) (message : List UInt8) : List UInt8 :=
  let zeros := (119 - message.length % 64) % 64
  message ++ [0x80] ++ List.replicate zeros 0 ++ e.bytes 8 (8 * message.length)

/-- Folds a step over the blocks of sixteen words that `count` says there are. -/
def foldBlocks {σ : Type} (step : σ → List UInt32 → σ) : (count : Nat) → σ → List UInt32 → σ
  | 0, s, _ => s
  | n + 1, s, ws => foldBlocks step n (step s (ws.take 16)) (ws.drop 16)

/-- Runs a step over the blocks of a message. -/
def overBlocks {σ : Type} (e : Endian) (step : σ → List UInt32 → σ) (start : σ)
    (message : List UInt8) : σ :=
  let ws := e.words (padded e message)
  foldBlocks step (ws.length / 16) start ws

/-- A word turned left by `n` bits. -/
def rotl (x : UInt32) (n : Nat) : UInt32 :=
  (x <<< UInt32.ofNat n) ||| (x >>> UInt32.ofNat (32 - n))

end CliMetadata.Hash
