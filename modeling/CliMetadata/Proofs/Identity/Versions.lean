import CliMetadata.Proofs.Identity.DisplayNames

/-!
# Which texts are versions

A version is written as one to four parts between dots.  A part is digits, after a plus sign or
not, with any number of zeros before them, and its value fits in sixteen bits
(`AssemblyVersion.Component`).  **A text is read as a version exactly if it is written like this**,
and as the version that has these values in order and zero for each part that is missing
(`AssemblyVersion.parse_iff_components`).  No part has a dot in it, so a text is cut in one way only.
-/

namespace CliMetadata

/-! ## Digits -/

namespace Text.Decimal

theorem isDigit_of_value? {c : Char} {d : Nat} (h : value? c = some d) : c.isDigit = true := by
  rw [value?] at h
  split at h
  · next hrange => exact isDigit_iff.mpr hrange
  · cases h

theorem isDigit_of_extend? {cs : List Char} {n m : Nat} (h : extend? n cs = some m) :
    ∀ c ∈ cs, c.isDigit = true := by
  induction cs generalizing n with
  | nil => exact nofun
  | cons c cs ih =>
    rw [extend?] at h
    obtain ⟨d, hd, hrest⟩ := Option.bind_eq_some_iff.mp h
    exact List.forall_mem_cons.mpr ⟨isDigit_of_value? hd, ih hrest⟩

/-- **What is read as a number is one or more digits**, and the number is their value. -/
theorem digits?_eq_some_iff {cs : List Char} {n : Nat} :
    digits? cs = some n ↔
      cs ≠ [] ∧ (∀ c ∈ cs, c.isDigit = true) ∧ Nat.ofDigitChars 10 cs 0 = n := by
  cases cs with
  | nil => simp [digits?]
  | cons c cs =>
    show extend? 0 (c :: cs) = some n ↔ _
    constructor
    · intro h
      have hdigits := isDigit_of_extend? h
      rw [extend?_eq_some hdigits] at h
      exact ⟨nofun, hdigits, Option.some.inj h⟩
    · rintro ⟨-, hdigits, rfl⟩
      exact extend?_eq_some hdigits 0

end Text.Decimal

namespace AssemblyVersion

open Text

variable {part digits : List Char} {parts : List (List Char)} {n : UInt16} {ns : List UInt16}
  {v : AssemblyVersion}

/-! ## Parts -/

/-- Digits that spell a number of sixteen bits. -/
structure Numeral (digits : List Char) (n : UInt16) : Prop where
  ne_nil : digits ≠ []
  isDigit : ∀ c ∈ digits, c.isDigit = true
  value : Nat.ofDigitChars 10 digits 0 = n.toNat

/-- A part of a version: digits, after a plus sign or not. -/
inductive Component : List Char → UInt16 → Prop
  | plain {digits : List Char} {n : UInt16} (h : Numeral digits n) : Component digits n
  | signed {digits : List Char} {n : UInt16} (h : Numeral digits n) : Component ('+' :: digits) n

theorem numeral_iff : Numeral digits n ↔ Decimal.digits? digits = some n.toNat := by
  rw [Decimal.digits?_eq_some_iff]
  exact ⟨fun h => ⟨h.ne_nil, h.isDigit, h.value⟩, fun h => ⟨h.1, h.2.1, h.2.2⟩⟩

/-- A sign is no digit. -/
theorem Numeral.not_signed (h : Numeral ('+' :: digits) n) : False :=
  Bool.false_ne_true (h.isDigit '+' List.mem_cons_self)

/-- **A part is read exactly if it is written like one.** -/
theorem component?_eq_some_iff : component? part = some n ↔ Component part n := by
  have read : ∀ ds : List Char, (do
      let m ← Decimal.digits? ds
      if m < 65536 then some (UInt16.ofNat m) else none) = some n ↔ Numeral ds n := by
    intro ds
    rw [numeral_iff]
    constructor
    · intro h
      obtain ⟨m, hm, hn⟩ := Option.bind_eq_some_iff.mp h
      split at hn
      · next hlt =>
        obtain rfl := Option.some.inj hn
        rw [hm, UInt16.toNat_ofNat_of_lt' hlt]
      · cases hn
    · intro h
      simp [h, n.toNat_lt, UInt16.ofNat_toNat]
  unfold component?
  split
  · next rest =>
    refine (read rest).trans ⟨.signed, fun h => ?_⟩
    cases h with
    | plain h => exact h.not_signed.elim
    | signed h => exact h
  · next hsign =>
    refine (read part).trans ⟨.plain, fun h => ?_⟩
    cases h with
    | plain h => exact h
    | signed h => exact (hsign _ rfl).elim

theorem Component.not_mem_dot (h : Component part n) : '.' ∉ part := by
  have digits : ∀ {ds : List Char}, Numeral ds n → '.' ∉ ds :=
    fun h hdot => Bool.false_ne_true (h.isDigit '.' hdot)
  cases h with
  | plain h => exact digits h
  | signed h => simpa using digits h

/-- **Parts are read exactly if all of them are written like parts.** -/
theorem components_eq_ok_iff : components parts = .ok ns ↔ List.Forall₂ Component parts ns := by
  induction parts generalizing ns with
  | nil =>
    rw [components, List.forall₂_nil_left_iff]
    exact ⟨fun h => (Except.ok.inj h).symm, fun h => congrArg _ h.symm⟩
  | cons part parts ih =>
    rw [components, List.forall₂_cons_left_iff]
    cases hpart : component? part with
    | none =>
      constructor
      · intro h
        cases h
      · rintro ⟨n, rest, hn, -⟩
        rw [component?_eq_some_iff.mpr hn] at hpart
        cases hpart
    | some n =>
      have hn := component?_eq_some_iff.mp hpart
      constructor
      · intro h
        obtain ⟨rest, hrest, rfl⟩ := AssemblyIdentity.map_eq_ok h
        exact ⟨n, rest, hn, ih.mp hrest, rfl⟩
      · rintro ⟨m, rest, hm, hrest, rfl⟩
        obtain rfl : n = m :=
          Option.some.inj (hpart.symm.trans (component?_eq_some_iff.mpr hm))
        rw [ih.mpr hrest]
        rfl

/-! ## Versions -/

/-- The numbers of a version are those that are given, and zero after them. -/
theorem numbers_eq_iff (h : ns.length ≤ 4) :
    (⟨ns.getD 0 0, ns.getD 1 0, ns.getD 2 0, ns.getD 3 0⟩ : AssemblyVersion) = v ↔
      [v.major, v.minor, v.build, v.revision] = ns ++ List.replicate (4 - ns.length) 0 := by
  obtain ⟨major, minor, build, revision⟩ := v
  match ns, h with
  | [], _ | [_], _ | [_, _], _ | [_, _, _], _ | [_, _, _, _], _ => simp [eq_comm]

/-- **Which texts are versions.**  A text is read as a version exactly if it is one to four parts
between dots, and the version has their values in order, and zero for what is missing.  What a
version is written as is read as that version. -/
theorem parse_iff_components :
    (∀ (text : List Char) (v : AssemblyVersion), parse text = .ok v ↔
      ∃ parts ns, text = ['.'].intercalate parts ∧ 1 ≤ parts.length ∧ parts.length ≤ 4 ∧
        List.Forall₂ Component parts ns ∧
          [v.major, v.minor, v.build, v.revision] = ns ++ List.replicate (4 - ns.length) 0) ∧
    ∀ v : AssemblyVersion, parse v.display.toList = .ok v := by
  refine ⟨fun text v => ⟨fun h => ?_, ?_⟩, parse_display⟩
  · rw [parse] at h
    split at h
    · cases h
    · next hlength =>
      obtain ⟨ns, hns, hv⟩ := AssemblyIdentity.map_eq_ok h
      have hparts := components_eq_ok_iff.mp hns
      have hjoined : ['.'].intercalate (split '.' text) = text := by
        rw [split_eq_splitOn]
        exact List.intercalate_splitOn '.'
      refine ⟨split '.' text, ns, hjoined.symm, ?_, by omega, hparts, ?_⟩
      · exact List.length_pos_iff.mpr (split_ne_nil '.' text)
      · exact (numbers_eq_iff (by rw [← hparts.length_eq]; omega)).mp hv
  · rintro ⟨parts, ns, rfl, hpos, hlength, hparts, hv⟩
    have hdots : ∀ part ∈ parts, '.' ∉ part :=
      ((List.forall₂_and_left _ _).mp (hparts.imp fun _ _ h => ⟨h.not_mem_dot, h⟩)).1
    -- the text is cut at the dots that joined it, and at no other
    have hcut : split '.' (['.'].intercalate parts) = parts :=
      split_join hdots (List.length_pos_iff.mp hpos)
    rw [parse]
    simp only [hcut]
    rw [if_neg (by omega), components_eq_ok_iff.mpr hparts]
    exact congrArg _ ((numbers_eq_iff (hparts.length_eq ▸ hlength)).mpr hv)

example : parse "1.+002".toList = .ok ⟨1, 2, 0, 0⟩ := by rfl

end AssemblyVersion
end CliMetadata
