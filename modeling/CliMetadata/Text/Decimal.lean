/-!
# Decimal numerals

`digits?` reads a numeral of ASCII digits, with any number of leading zeros and
at least one digit.
-/

namespace CliMetadata.Text.Decimal

/-- The value of an ASCII digit. -/
def value? (c : Char) : Option Nat :=
  if 48 ≤ c.toNat ∧ c.toNat ≤ 57 then some (c.toNat - 48) else none

/-- Reads digits onto a number that was read before them. -/
def extend? (n : Nat) : List Char → Option Nat
  | [] => some n
  | c :: rest => (value? c).bind fun d => extend? (10 * n + d) rest

/-- The number that one or more digits spell. -/
def digits? : List Char → Option Nat
  | [] => none
  | cs => extend? 0 cs

end CliMetadata.Text.Decimal
