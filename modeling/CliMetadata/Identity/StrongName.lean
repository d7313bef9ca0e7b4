import CliMetadata.Hash.Md5
import CliMetadata.Hash.Sha1

/-!
# Strong names

A strong name is a public key or the token of one: the last eight bytes of the
key's digest.  Two strong names match when their tokens under SHA-1 agree.
-/

namespace CliMetadata

/-- The eight bytes that stand for a public key. -/
abbrev KeyToken := { bytes : List UInt8 // bytes.length = 8 }

namespace KeyToken

/-- The token made of given bytes, where they are eight. -/
def ofBytes? (bs : List UInt8) : Option KeyToken :=
  if h : bs.length = 8 then some ⟨bs, h⟩ else none

/-- The last eight bytes of a digest; one that is too short counts as preceded
by zeros. -/
def lastOf (digest : List UInt8) : KeyToken :=
  ⟨((digest.reverse ++ List.replicate 8 0).take 8).reverse, by simp⟩

/-- The token whose bytes, least first, make up a number. -/
def ofNat (n : Nat) : KeyToken :=
  ⟨[0, 1, 2, 3, 4, 5, 6, 7].map fun i => UInt8.ofNat (n / Nat.pow 256 i % 256), rfl⟩

end KeyToken

/-- The hash algorithms that an assembly may name. -/
abbrev HashAlgorithm := Nat

namespace HashAlgorithm

/-- No algorithm. -/
def none : HashAlgorithm := 0

/-- MD5. -/
def md5 : HashAlgorithm := 0x8003

/-- SHA-1. -/
def sha1 : HashAlgorithm := 0x8004

end HashAlgorithm

/-- What identifies the publisher of an assembly. -/
inductive StrongName where
  | publicKey (key : List UInt8)
  | token (token : KeyToken)
deriving Repr, DecidableEq

namespace StrongName

/-- The strong name that stored bytes stand for: a key, or a token of exactly
eight bytes.  No bytes mean no strong name. -/
def ofStored? (data : List UInt8) (isKey : Bool) : Option StrongName :=
  if data.isEmpty then none
  else if isKey then some (publicKey data)
  else (KeyToken.ofBytes? data).map token

/-- Whether a strong name is a key in full. -/
def isKey : StrongName → Bool
  | publicKey _ => true
  | token _ => false

/-- The token of a strong name.  Every algorithm but MD5 means SHA-1. -/
def toToken (s : StrongName) (algorithm : HashAlgorithm) : KeyToken :=
  match s with
  | publicKey key =>
    KeyToken.lastOf (if algorithm == HashAlgorithm.md5 then Hash.Md5.digest key
      else Hash.Sha1.digest key)
  | token t => t

/-- Whether two strong names stand for the same key. -/
def agrees (a b : StrongName) : Bool :=
  a.toToken HashAlgorithm.sha1 == b.toToken HashAlgorithm.sha1

end StrongName
end CliMetadata
