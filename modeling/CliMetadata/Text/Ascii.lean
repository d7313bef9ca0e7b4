/-!
# Letter case of ASCII

Only the letters A to Z have a case here; every other byte or character is
itself.  Texts that agree up to this case are what assembly names, cultures and
module names count as equal.
-/

namespace CliMetadata.Text.Ascii

/-- A byte in lower case. -/
def lowerByte (b : UInt8) : UInt8 := if 65 ≤ b ∧ b ≤ 90 then b + 32 else b

/-- A character in lower case. -/
def lowerChar (c : Char) : Char :=
  if 65 ≤ c.toNat ∧ c.toNat ≤ 90 then Char.ofNat (c.toNat + 32) else c

/-- A text in lower case. -/
def lower (s : String) : String := String.ofList (s.toList.map lowerChar)

/-- Equal up to case. -/
def sameText (a b : String) : Bool := a.toList.map lowerChar == b.toList.map lowerChar

/-- A text in lower case stands for all that are equal to it up to case. -/
theorem lower_eq_iff {a b : String} : lower a = lower b ↔ sameText a b = true := by
  rw [lower, lower, sameText, String.ofList_inj, beq_iff_eq]

/-- Bytes equal up to case. -/
def sameBytes (a b : List UInt8) : Bool := a.map lowerByte == b.map lowerByte

end CliMetadata.Text.Ascii
