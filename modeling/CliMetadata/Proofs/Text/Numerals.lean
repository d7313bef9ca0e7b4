import CliMetadata.Text.Decimal
import CliMetadata.Text.Hex
import Mathlib.Data.Nat.Digits.Lemmas

/-!
# Numerals are read as they are written

A number is written in decimal digits and read from them (`Decimal.digits?_toDigits`), and a
byte is written as two hexadecimal digits and read from them (`Hex.byte?_pair`).
-/

namespace CliMetadata.Text

/-! ## Decimal numerals -/

namespace Decimal

theorem isDigit_iff {c : Char} : c.isDigit = true ↔ 48 ≤ c.toNat ∧ c.toNat ≤ 57 := by
  rw [Char.isDigit, Bool.and_eq_true, decide_eq_true_eq, decide_eq_true_eq]
  exact and_congr UInt32.le_iff_toNat_le UInt32.le_iff_toNat_le

theorem value?_eq_some {c : Char} (h : c.isDigit = true) : value? c = some (c.toNat - 48) :=
  if_pos (isDigit_iff.mp h)

/-- Digits are read one after the other. -/
theorem extend?_eq_some {cs : List Char} (h : ∀ c ∈ cs, c.isDigit = true) (n : Nat) :
    extend? n cs = some (Nat.ofDigitChars 10 cs n) := by
  induction cs generalizing n with
  | nil => rfl
  | cons c cs ih =>
    rw [extend?, value?_eq_some (h c List.mem_cons_self), Option.bind_some,
      ih fun d hd => h d (List.mem_cons_of_mem _ hd), Nat.ofDigitChars_cons]
    rfl

theorem isDigit_of_mem {c : Char} {n : Nat} (h : c ∈ Nat.toDigits 10 n) : c.isDigit = true :=
  Nat.isDigit_of_mem_toDigits (by decide) (by decide) h

theorem not_mem_toDigits {c : Char} (h : c.isDigit = false) (n : Nat) : c ∉ Nat.toDigits 10 n :=
  fun hc => Bool.false_ne_true (h ▸ isDigit_of_mem hc)

/-- **A number is read from its decimal digits.** -/
theorem digits?_toDigits (n : Nat) : digits? (Nat.toDigits 10 n) = some n := by
  have hdigits : ∀ c ∈ Nat.toDigits 10 n, c.isDigit = true := fun _ => isDigit_of_mem
  have hread := extend?_eq_some hdigits 0
  rw [Nat.ofDigitChars_ten_toDigits] at hread
  unfold digits?
  split
  · next hnil => exact absurd hnil Nat.toDigits_ne_nil
  · exact hread

end Decimal

/-! ## Hexadecimal digits -/

namespace Hex

theorem value?_digit {n : Nat} (h : n < 16) : value? (digit n) = some n := by
  interval_cases n <;> rfl

/-- **A byte is read from its two digits.** -/
theorem byte?_pair (b : UInt8) : byte? (digit (b.toNat / 16)) (digit (b.toNat % 16)) = some b := by
  have hb := b.toNat_lt
  rw [byte?, value?_digit (by omega), value?_digit (by omega)]
  simp only [Option.pure_def, Option.bind_eq_bind, Option.bind_some]
  rw [Nat.div_add_mod, UInt8.ofNat_toNat]

/-- A digit is a figure or a letter from a to f. -/
theorem digit_range {n : Nat} (h : n < 16) :
    48 ≤ (digit n).toNat ∧ (digit n).toNat ≤ 57 ∨ 97 ≤ (digit n).toNat ∧ (digit n).toNat ≤ 102 := by
  interval_cases n <;> decide

theorem length_ofBytes (bs : List UInt8) : (bs.flatMap pair).length = 2 * bs.length := by
  induction bs with
  | nil => rfl
  | cons b bs ih =>
    rw [List.flatMap_cons, List.length_append, ih]
    simp only [pair, List.length_cons, List.length_nil]
    omega

theorem mem_ofBytes {bs : List UInt8} {c : Char} (h : c ∈ bs.flatMap pair) :
    48 ≤ c.toNat ∧ c.toNat ≤ 57 ∨ 97 ≤ c.toNat ∧ c.toNat ≤ 102 := by
  obtain ⟨b, -, hc⟩ := List.mem_flatMap.mp h
  have hb := b.toNat_lt
  simp only [pair, List.mem_cons, List.not_mem_nil, or_false] at hc
  rcases hc with rfl | rfl
  · exact digit_range (by omega)
  · exact digit_range (by omega)

end Hex
end CliMetadata.Text
