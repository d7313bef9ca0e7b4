/-!
# Hexadecimal text

Digits are lower case when written.  A number is written big end first, with a
least width (`padded`) or without padding (`ofNat`); bytes are written as two
digits each, in order (`ofBytes`).  Reading accepts both cases.
-/

namespace CliMetadata.Text.Hex

/-- The digit for a value below sixteen. -/
def digit (n : Nat) : Char :=
  if n < 10 then Char.ofNat (48 + n) else Char.ofNat (87 + n)

/-- The value of a digit of either case. -/
def value? (c : Char) : Option Nat :=
  let n := c.toNat
  if 48 ≤ n ∧ n ≤ 57 then some (n - 48)
  else if 97 ≤ n ∧ n ≤ 102 then some (n - 87)
  else if 65 ≤ n ∧ n ≤ 70 then some (n - 55)
  else none

/-- The last `width` digits of a number, big end first. -/
def digits : (width : Nat) → Nat → List Char
  | 0, _ => []
  | w + 1, n => digits w (n / 16) ++ [digit (n % 16)]

/-- How many digits a number has; zero has one. -/
def width (n : Nat) : Nat :=
  if n < 16 then 1 else width (n / 16) + 1

/-- A number with exactly `w` digits. -/
def padded (w n : Nat) : String := String.ofList (digits w n)

/-- A number without padding. -/
def ofNat (n : Nat) : String := String.ofList (digits (width n) n)

/-- One byte as two digits, high half first. -/
def pair (b : UInt8) : List Char := [digit (b.toNat / 16), digit (b.toNat % 16)]

/-- Bytes in order, two digits each. -/
def ofBytes (bs : List UInt8) : String := String.ofList (bs.flatMap pair)

/-- The byte two digits spell. -/
def byte? (high low : Char) : Option UInt8 := do
  let h ← value? high
  let l ← value? low
  return UInt8.ofNat (16 * h + l)

/-- The bytes a text spells: an even number of digits and nothing else. -/
def toBytes? : List Char → Option (List UInt8)
  | [] => some []
  | [_] => none
  | high :: low :: rest => do
    let b ← byte? high low
    let bs ← toBytes? rest
    return b :: bs

/-- The number that digits spell, big end first. -/
def toNat? (cs : List Char) : Option Nat :=
  cs.foldl (fun acc c => do return 16 * (← acc) + (← value? c)) (some 0)

end CliMetadata.Text.Hex
