import CliMetadata.Proofs.Identity.DisplayNames

/-!
# Which key tokens a display name is read with

A part `PublicKeyToken=value` of a display name says nothing if the value is empty or `null`.  Any
other value is read as eight pairs of characters, each of which spells a byte.  A pair spells a byte
if it is two hexadecimal digits, **and also if it is a plus sign and one digit** (`Spells`), so that
`+1+2+3+4+5+6+7+8` is read as a token too.  Values without a plus sign are read exactly if they are
sixteen hexadecimal digits (`spells_iff_digits`).

A value that spells no token makes the reading fail, whatever the other parts are.  One that does
never makes it fail: the name is read as without the part, but for the strong name, which is the
token unless a later part gives another (`ofParts_spelled`).
-/

namespace CliMetadata

/-! ## Hexadecimal digits -/

namespace Text.Hex

/-- A hexadecimal digit of either case. -/
def IsDigit (c : Char) : Prop := c ∈ "0123456789abcdefABCDEF".toList

instance (c : Char) : Decidable (IsDigit c) :=
  inferInstanceAs (Decidable (c ∈ "0123456789abcdefABCDEF".toList))

theorem isDigit_iff {c : Char} : IsDigit c ↔ (value? c).isSome := by
  constructor
  · intro h
    have hall : ("0123456789abcdefABCDEF".toList.all fun d => (value? d).isSome) = true := by decide
    exact List.all_eq_true.mp hall c h
  · intro h
    have hrange : 48 ≤ c.toNat ∧ c.toNat ≤ 57 ∨ 97 ≤ c.toNat ∧ c.toNat ≤ 102 ∨
        65 ≤ c.toNat ∧ c.toNat ≤ 70 := by
      unfold value? at h
      grind
    have hall : ∀ n < 103, (48 ≤ n ∧ n ≤ 57 ∨ 97 ≤ n ∧ n ≤ 102 ∨ 65 ≤ n ∧ n ≤ 70) →
        IsDigit (Char.ofNat n) := by decide
    rw [← Char.ofNat_toNat c]
    exact hall c.toNat (by omega) hrange

end Text.Hex

namespace AssemblyIdentity

open Text

/-! ## Pairs that spell bytes -/

/-- The bytes that pairs of characters spell: a pair is two hexadecimal digits, or a plus sign and
one. -/
inductive Spells : List Char → List UInt8 → Prop
  | nil : Spells [] []
  | digits {high low : Char} {h l : Nat} {rest : List Char} {bs : List UInt8} :
    Hex.value? high = some h → Hex.value? low = some l → Spells rest bs →
      Spells (high :: low :: rest) (UInt8.ofNat (16 * h + l) :: bs)
  | plus {low : Char} {l : Nat} {rest : List Char} {bs : List UInt8} :
    Hex.value? low = some l → Spells rest bs → Spells ('+' :: low :: rest) (UInt8.ofNat l :: bs)

theorem tokenByte?_eq_some_iff {high low : Char} {b : UInt8} :
    tokenByte? high low = some b ↔
      (∃ h l, Hex.value? high = some h ∧ Hex.value? low = some l ∧ b = UInt8.ofNat (16 * h + l)) ∨
        high = '+' ∧ ∃ l, Hex.value? low = some l ∧ b = UInt8.ofNat l := by
  have hsign : Hex.value? '+' = none := by decide
  by_cases hplus : high = '+'
  · subst hplus
    simp [tokenByte?, hsign, eq_comm]
  · rw [tokenByte?, if_neg hplus, Hex.byte?]
    cases Hex.value? high <;> cases Hex.value? low <;> simp [hplus, eq_comm]

/-- **A value is read as the bytes that its pairs spell.** -/
theorem tokenBytes?_eq_some_iff {cs : List Char} {bs : List UInt8} :
    tokenBytes? cs = some bs ↔ Spells cs bs := by
  constructor
  · intro h
    induction cs using tokenBytes?.induct generalizing bs with
    | case1 =>
      obtain rfl : [] = bs := by simpa [tokenBytes?] using h
      exact .nil
    | case2 => simp [tokenBytes?] at h
    | case3 high low rest ih =>
      simp only [tokenBytes?, Option.bind_eq_bind, Option.bind_eq_some_iff] at h
      obtain ⟨b, hb, more, hmore, hbs⟩ := h
      obtain rfl : b :: more = bs := Option.some.inj hbs
      rcases tokenByte?_eq_some_iff.mp hb with ⟨h, l, hh, hl, rfl⟩ | ⟨rfl, l, hl, rfl⟩
      · exact .digits hh hl (ih hmore)
      · exact .plus hl (ih hmore)
  · intro h
    induction h with
    | nil => rfl
    | digits hh hl _ ih =>
      rw [tokenBytes?, tokenByte?_eq_some_iff.mpr (.inl ⟨_, _, hh, hl, rfl⟩), ih]
      rfl
    | plus hl _ ih =>
      rw [tokenBytes?, tokenByte?_eq_some_iff.mpr (.inr ⟨rfl, _, hl, rfl⟩), ih]
      rfl

theorem Spells.length {cs : List Char} {bs : List UInt8} (h : Spells cs bs) :
    cs.length = 2 * bs.length := by
  induction h with
  | nil => rfl
  | digits _ _ _ ih => simp only [List.length_cons, ih]; omega
  | plus _ _ ih => simp only [List.length_cons, ih]; omega

/-- What stands in pairs that spell bytes. -/
theorem Spells.mem {cs : List Char} {bs : List UInt8} (h : Spells cs bs) {c : Char} (hc : c ∈ cs) :
    c = '+' ∨ Hex.IsDigit c := by
  induction h with
  | nil => cases hc
  | digits hh hl _ ih =>
    rcases List.mem_cons.mp hc with rfl | hc
    · exact .inr (Hex.isDigit_iff.mpr (by rw [hh]; rfl))
    rcases List.mem_cons.mp hc with rfl | hc
    · exact .inr (Hex.isDigit_iff.mpr (by rw [hl]; rfl))
    · exact ih hc
  | plus hl _ ih =>
    rcases List.mem_cons.mp hc with rfl | hc
    · exact .inl rfl
    rcases List.mem_cons.mp hc with rfl | hc
    · exact .inr (Hex.isDigit_iff.mpr (by rw [hl]; rfl))
    · exact ih hc

/-- Digits that are even in number spell bytes. -/
theorem exists_spells {cs : List Char} (hdigits : ∀ c ∈ cs, Hex.IsDigit c) {n : Nat}
    (hlength : cs.length = 2 * n) : ∃ bs, Spells cs bs := by
  induction n generalizing cs with
  | zero =>
    obtain rfl : cs = [] := List.length_eq_zero_iff.mp hlength
    exact ⟨[], .nil⟩
  | succ n ih =>
    obtain ⟨high, low, rest, rfl⟩ : ∃ high low rest, cs = high :: low :: rest := by
      match cs, hlength with
      | high :: low :: rest, _ => exact ⟨high, low, rest, rfl⟩
    simp only [List.forall_mem_cons] at hdigits
    obtain ⟨hhigh, hlow, hrest⟩ := hdigits
    obtain ⟨h, hh⟩ := Option.isSome_iff_exists.mp (Hex.isDigit_iff.mp hhigh)
    obtain ⟨l, hl⟩ := Option.isSome_iff_exists.mp (Hex.isDigit_iff.mp hlow)
    obtain ⟨bs, hbs⟩ := ih hrest (by simpa [Nat.mul_succ] using hlength)
    exact ⟨_, .digits hh hl hbs⟩

/-- **A value without a plus sign spells a token exactly if it is sixteen hexadecimal digits.** -/
theorem spells_iff_digits {value : List Char} (hplus : '+' ∉ value) :
    (∃ token : KeyToken, Spells value token.val) ↔
      value.length = 16 ∧ ∀ c ∈ value, Hex.IsDigit c := by
  constructor
  · rintro ⟨token, hspells⟩
    refine ⟨by rw [hspells.length, token.property], fun c hc => ?_⟩
    exact (hspells.mem hc).resolve_left fun hsign => hplus (hsign ▸ hc)
  · rintro ⟨hlength, hdigits⟩
    obtain ⟨bs, hspells⟩ := exists_spells hdigits (n := 8) hlength
    exact ⟨⟨bs, by have := hspells.length; omega⟩, hspells⟩

/-- **A value is read as a token exactly if it spells the token's bytes.** -/
theorem parseToken_eq_ok_iff {value : List Char} {token : KeyToken} :
    parseToken value = .ok token ↔ Spells value token.val := by
  constructor
  · intro h
    rw [parseToken] at h
    split at h
    · split at h
      · next t ht =>
        obtain ⟨bs, hbs, ht⟩ := Option.bind_eq_some_iff.mp ht
        obtain rfl := Except.ok.inj h
        rw [KeyToken.ofBytes?] at ht
        split at ht
        · obtain rfl := Option.some.inj ht
          exact tokenBytes?_eq_some_iff.mp hbs
        · cases ht
      · cases h
    · cases h
  · intro h
    have hascii : value.all (fun c => c.toNat < 128) = true := by
      have hall : ("0123456789abcdefABCDEF".toList.all fun d => d.toNat < 128) = true := by decide
      rw [List.all_eq_true]
      intro c hc
      rcases h.mem hc with rfl | hdigit
      · decide
      · exact List.all_eq_true.mp hall c hdigit
    have hbytes : KeyToken.ofBytes? token.val = some token := dif_pos token.property
    rw [parseToken, if_pos ⟨by rw [h.length, token.property], hascii⟩,
      tokenBytes?_eq_some_iff.mpr h, Option.bind_some, hbytes]

/-! ## Parts that give a token -/

/-- A part that gives a token, if the value is one. -/
def GivesToken (part : List Char) : Prop :=
  ∃ value, part = "PublicKeyToken=".toList ++ value ∧ value ≠ "null".toList ∧ value ≠ []

/-- How a part that gives a token is read. -/
theorem parsePart_value (acc : AssemblyIdentity) {value : List Char}
    (hnull : value ≠ "null".toList) (hne : value ≠ []) :
    parsePart acc ("PublicKeyToken=".toList ++ value) =
      (parseToken value).map fun token => { acc with strongName := some (.token token) } := by
  have hversion : after? "Version=".toList ("PublicKeyToken=".toList ++ value) = none := by
    simp [after?]
  have hculture : after? "Culture=".toList ("PublicKeyToken=".toList ++ value) = none := by
    simp [after?]
  rw [parsePart, hversion, hculture, after?_eq_some_iff.mpr rfl]
  simp only [if_neg (not_or.mpr ⟨hnull, hne⟩)]

section Reading

variable {part : List Char} {parts before after : List (List Char)}

/-- A part that gives a token is read alike whatever the strong name was. -/
theorem parsePart_given (hpart : GivesToken part) (acc : AssemblyIdentity)
    (s : Option StrongName) :
    parsePart { acc with strongName := s } part = parsePart acc part := by
  obtain ⟨value, rfl, hnull, hne⟩ := hpart
  rw [parsePart_value _ hnull hne, parsePart_value _ hnull hne]

/-- Any other part leaves the strong name alone. -/
theorem parsePart_kept (hpart : ¬ GivesToken part) (acc : AssemblyIdentity)
    (s : Option StrongName) :
    parsePart { acc with strongName := s } part =
      (parsePart acc part).map ({ · with strongName := s }) := by
  unfold parsePart
  split
  · next v _ => cases AssemblyVersion.parse v <;> rfl
  · split
    · rfl
    · split
      · next value hvalue =>
        have hnothing : value = "null".toList ∨ value = [] := by
          by_contra h
          exact hpart ⟨value, after?_eq_some_iff.mp hvalue, not_or.mp h⟩
        rw [if_pos hnothing, if_pos hnothing]
        rfl
      · rfl

theorem parseParts_append (acc : AssemblyIdentity) :
    parseParts acc (before ++ after) = (parseParts acc before).bind (parseParts · after) := by
  induction before generalizing acc with
  | nil => rfl
  | cons part before ih =>
    rw [List.cons_append, parseParts, parseParts]
    cases parsePart acc part with
    | error e => rfl
    | ok acc' => exact ih acc'

/-- **The last part that gives a token decides**: without one the strong name stays what it was. -/
theorem parseParts_strongName (acc : AssemblyIdentity) (s : Option StrongName) :
    ((∃ part ∈ parts, GivesToken part) →
      parseParts { acc with strongName := s } parts = parseParts acc parts) ∧
    ((∀ part ∈ parts, ¬ GivesToken part) →
      parseParts { acc with strongName := s } parts =
        (parseParts acc parts).map ({ · with strongName := s })) := by
  induction parts generalizing acc with
  | nil => exact ⟨nofun, fun _ => rfl⟩
  | cons part parts ih =>
    by_cases hpart : GivesToken part
    · rw [parseParts, parseParts, parsePart_given hpart]
      exact ⟨fun _ => rfl, fun hnone => absurd hpart (hnone part List.mem_cons_self)⟩
    · rw [parseParts, parseParts, parsePart_kept hpart]
      cases parsePart acc part with
      | error e => exact ⟨fun _ => rfl, fun _ => rfl⟩
      | ok acc' =>
        refine ⟨?_, fun hnone => (ih acc').2 fun p hp => hnone p (List.mem_cons_of_mem _ hp)⟩
        rintro ⟨p, hp, hgives⟩
        rcases List.mem_cons.mp hp with rfl | hp
        · exact absurd hgives hpart
        · exact (ih acc').1 ⟨p, hp, hgives⟩

/-! ## Names with a token -/

/-- Parts that have been cut from a text and trimmed come back from being joined. -/
theorem parts_join {text : String} {name : List Char}
    (hparts : (split ',' text.toList).map Blank.trim = parts) (hname : name ∈ parts)
    (hkept : before ⊆ parts) :
    (split ',' (String.ofList ([','].intercalate (name :: before))).toList).map Blank.trim =
      name :: before := by
  subst hparts
  have hplain : ∀ part ∈ name :: before, ',' ∉ part ∧ Blank.trim part = part := by
    intro part hpart
    have hmem : part ∈ (split ',' text.toList).map Blank.trim := by
      rcases List.mem_cons.mp hpart with rfl | hpart
      · exact hname
      · exact hkept hpart
    obtain ⟨whole, hwhole, rfl⟩ := List.mem_map.mp hmem
    exact ⟨fun hcomma => not_mem_of_mem_split hwhole (Blank.trim_subset whole hcomma),
      Blank.trim_eq_self_iff.mpr (Blank.trimmed_trim whole)⟩
  rw [String.toList_ofList, split_join (fun part hpart => (hplain part hpart).1) (by simp)]
  exact (List.map_congr_left fun part hpart => (hplain part hpart).2).trans (List.map_id' _)

/-- The identity that the parts of a name say. -/
def ofParts (name : List Char) (parts : List (List Char)) : Except Malformed AssemblyIdentity :=
  if name = [] then .error .emptyAssemblyName
  else (parseParts ⟨String.ofList name, .unknown, none, none⟩ parts).map fun acc =>
    make acc.name acc.version acc.culture acc.strongName

theorem parse_eq_ofParts {text : String} {name : List Char}
    (hparts : (split ',' text.toList).map Blank.trim = name :: parts) :
    parse text = ofParts name parts := by
  rw [parse, hparts, ofParts]

/-- Parts one of which gives no token after all cannot be read. -/
theorem ofParts_unspelled (name : List Char) {value : List Char}
    (hnull : value ≠ "null".toList) (hne : value ≠ [])
    (hunspelled : ¬ ∃ token : KeyToken, Spells value token.val) :
    ∃ e, ofParts name (before ++ ("PublicKeyToken=".toList ++ value) :: after) = .error e := by
  obtain ⟨e, he⟩ : ∃ e, parseToken value = .error e := by
    cases h : parseToken value with
    | error e => exact ⟨e, rfl⟩
    | ok token => exact absurd ⟨token, parseToken_eq_ok_iff.mp h⟩ hunspelled
  have hpart : ∀ acc, parsePart acc ("PublicKeyToken=".toList ++ value) = .error e := by
    intro acc
    rw [parsePart_value acc hnull hne, he]
    rfl
  rw [ofParts]
  split
  · exact ⟨_, rfl⟩
  · rw [parseParts_append]
    cases parseParts ⟨String.ofList name, .unknown, none, none⟩ before with
    | error e' => exact ⟨e', rfl⟩
    | ok acc =>
      refine ⟨e, ?_⟩
      rw [Except.bind, parseParts, hpart acc]
      rfl

/-- Parts one of which gives a token are read like the others alone, but for the strong name. -/
theorem ofParts_spelled (name : List Char) {value : List Char}
    (hnull : value ≠ "null".toList) (hne : value ≠ []) {token : KeyToken}
    (hspells : Spells value token.val) :
    let read := ofParts name (before ++ ("PublicKeyToken=".toList ++ value) :: after)
    ((∃ part ∈ after, GivesToken part) → read = ofParts name (before ++ after)) ∧
    ((∀ part ∈ after, ¬ GivesToken part) → read =
      (ofParts name (before ++ after)).map ({ · with strongName := some (.token token) })) := by
  have hpart : ∀ acc, parsePart acc ("PublicKeyToken=".toList ++ value) =
      .ok { acc with strongName := some (.token token) } := by
    intro acc
    rw [parsePart_value acc hnull hne, parseToken_eq_ok_iff.mpr hspells]
    rfl
  simp only [ofParts, parseParts_append]
  by_cases hname : name = []
  · subst hname
    exact ⟨fun _ => rfl, fun _ => rfl⟩
  simp only [if_neg hname]
  cases parseParts ⟨String.ofList name, .unknown, none, none⟩ before with
  | error e => exact ⟨fun _ => rfl, fun _ => rfl⟩
  | ok acc =>
    obtain ⟨hlater, hlast⟩ := @parseParts_strongName after acc (some (.token token))
    simp only [Except.bind, parseParts, hpart acc]
    refine ⟨fun h => by rw [hlater h], fun h => ?_⟩
    rw [hlast h]
    cases parseParts acc after <;> rfl

end Reading

/-- **Which values of a `PublicKeyToken` part a display name is read with.**  A value that is
neither empty nor `null` and spells no token makes the reading fail.  One that spells a token never
does: the name is read as without the part, with the token as its strong name if no later part gives
one.  A value without a plus sign spells a token exactly if it is sixteen hexadecimal digits. -/
theorem parse_keyToken {text : String} {name value : List Char} {before after : List (List Char)}
    (hparts : (split ',' text.toList).map Blank.trim =
      name :: (before ++ ("PublicKeyToken=".toList ++ value) :: after))
    (hnull : value ≠ "null".toList) (hne : value ≠ []) :
    ((¬ ∃ token : KeyToken, Spells value token.val) → ∃ e, parse text = .error e) ∧
    (∀ token : KeyToken, Spells value token.val →
      let without := String.ofList ([','].intercalate (name :: (before ++ after)))
      ((∃ part ∈ after, GivesToken part) → parse text = parse without) ∧
      ((∀ part ∈ after, ¬ GivesToken part) →
        parse text = (parse without).map ({ · with strongName := some (.token token) }))) ∧
    ('+' ∉ value → ((∃ token : KeyToken, Spells value token.val) ↔
      value.length = 16 ∧ ∀ c ∈ value, Hex.IsDigit c)) := by
  have hkept : before ++ after ⊆
      name :: (before ++ ("PublicKeyToken=".toList ++ value) :: after) := by
    intro part hpart
    rcases List.mem_append.mp hpart with hpart | hpart <;> simp [hpart]
  have hwithout := parse_eq_ofParts (parts_join hparts List.mem_cons_self hkept)
  refine ⟨fun hunspelled => ?_, fun token hspells => ?_, spells_iff_digits⟩
  · rw [parse_eq_ofParts hparts]
    exact ofParts_unspelled name hnull hne hunspelled
  · dsimp only
    rw [hwithout, parse_eq_ofParts hparts]
    exact ofParts_spelled name hnull hne hspells

/-- Digits of both cases before a part that says nothing. -/
theorem parse_keyToken_digits :
    parse "Lib , PublicKeyToken=B77a5c561934e089, PublicKeyToken=null" =
      .ok ⟨"Lib", .unknown, none,
        some (.token ⟨[0xb7, 0x7a, 0x5c, 0x56, 0x19, 0x34, 0xe0, 0x89], rfl⟩)⟩ := by
  have hparts : (split ',' "Lib , PublicKeyToken=B77a5c561934e089, PublicKeyToken=null".toList).map
      Blank.trim = "Lib".toList :: ([] ++ ("PublicKeyToken=".toList ++ "B77a5c561934e089".toList) ::
        ["PublicKeyToken=null".toList]) := by
    decide
  have hspells : Spells "B77a5c561934e089".toList
      [0xb7, 0x7a, 0x5c, 0x56, 0x19, 0x34, 0xe0, 0x89] := tokenBytes?_eq_some_iff.mp (by decide)
  have hlast : ∀ part ∈ ["PublicKeyToken=null".toList], ¬ GivesToken part := by
    rintro _ hpart ⟨value, hvalue, hnull, -⟩
    rw [List.mem_singleton.mp hpart] at hvalue
    exact hnull (List.append_cancel_left hvalue.symm)
  have hread := (parse_keyToken hparts (by decide) (by decide)).2.1 ⟨_, rfl⟩ hspells
  rw [hread.2 hlast]
  rfl

/-- **A plus sign and a digit pass for two digits**: what is read is a token although the value is
not sixteen hexadecimal digits. -/
theorem parse_plusPairs :
    let value := "+1+2+3+4+5+6+7+8".toList
    (split ',' ("A, PublicKeyToken=+1+2+3+4+5+6+7+8").toList).map Blank.trim =
        ["A".toList, "PublicKeyToken=".toList ++ value] ∧
      ¬ (value.length = 16 ∧ ∀ c ∈ value, Hex.IsDigit c) ∧
      parse "A, PublicKeyToken=+1+2+3+4+5+6+7+8" =
        .ok ⟨"A", .unknown, none, some (.token ⟨[1, 2, 3, 4, 5, 6, 7, 8], rfl⟩)⟩ := by
  refine ⟨by decide, fun h => ?_, by rfl⟩
  exact absurd (h.2 '+' (by decide)) (by decide)

end AssemblyIdentity
end CliMetadata
