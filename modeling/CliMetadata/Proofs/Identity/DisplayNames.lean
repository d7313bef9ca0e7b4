import CliMetadata.Identity.Assembly
import CliMetadata.Proofs.Text.Numerals
import CliMetadata.Proofs.Text.Parts

/-!
# Display names are read as they are written

A display name has four parts between commas: the name, and one labelled part each for the
version, the culture and the token of the strong name.  What reading it depends on is that
the parts keep apart and are not changed by trimming.  So **an identity comes back from its
display name if its name and its culture have no comma and no white space where they could
lose it** (`AssemblyIdentity.Displayable`), but for a public key, of which the token comes
back (`AssemblyIdentity.display_roundTrip`).

What has been read is such an identity itself, with a token at most.  So reading, writing and
reading again gives what the first reading gave.
-/

namespace CliMetadata

/-! ## Versions -/

namespace AssemblyVersion

open Text

theorem component?_toDigits (n : UInt16) : component? (Nat.toDigits 10 n.toNat) = some n := by
  have hn : n.toNat < 65536 := n.toNat_lt
  have hplus : '+' ∉ Nat.toDigits 10 n.toNat := Decimal.not_mem_toDigits (by decide) _
  unfold component?
  split
  · next rest hrest =>
    rw [hrest] at hplus
    exact absurd List.mem_cons_self hplus
  · simp [Decimal.digits?_toDigits, hn, UInt16.ofNat_toNat]

theorem components_toDigits (ns : List UInt16) :
    components (ns.map fun n => Nat.toDigits 10 n.toNat) = .ok ns := by
  induction ns with
  | nil => rfl
  | cons n ns ih =>
    rw [List.map_cons, components, component?_toDigits]
    simp only [ih]
    rfl

/-- The numerals of a version. -/
def numerals (v : AssemblyVersion) : List (List Char) :=
  [v.major, v.minor, v.build, v.revision].map fun n => Nat.toDigits 10 n.toNat

theorem display_toList (v : AssemblyVersion) : v.display.toList = ['.'].intercalate v.numerals := by
  simp [display, numerals, String.toList_append, List.intercalate]

theorem mem_display {v : AssemblyVersion} {c : Char} (h : c ∈ v.display.toList) :
    c = '.' ∨ c.isDigit = true := by
  rw [display_toList] at h
  rcases mem_join h with hdot | ⟨numeral, hnumeral, hc⟩
  · exact .inl hdot
  · obtain ⟨n, -, rfl⟩ := List.mem_map.mp hnumeral
    exact .inr (Decimal.isDigit_of_mem hc)

/-- **A version is read as it is written.** -/
theorem parse_display (v : AssemblyVersion) : parse v.display.toList = .ok v := by
  have hparts : split '.' v.display.toList = v.numerals := by
    rw [display_toList]
    refine split_join (fun part hpart => ?_) (by simp [numerals])
    obtain ⟨n, -, rfl⟩ := List.mem_map.mp hpart
    exact Decimal.not_mem_toDigits (by decide) _
  rw [parse]
  rw [hparts, numerals, components_toDigits]
  rfl

end AssemblyVersion

/-! ## Tokens -/

namespace AssemblyIdentity

open Text

theorem tokenByte?_pair (b : UInt8) :
    tokenByte? (Hex.digit (b.toNat / 16)) (Hex.digit (b.toNat % 16)) = some b := by
  have hb := b.toNat_lt
  have hplus : Hex.digit (b.toNat / 16) ≠ '+' := by
    intro h
    have hrange := Hex.digit_range (show b.toNat / 16 < 16 by omega)
    rw [h] at hrange
    revert hrange
    decide
  rw [tokenByte?, if_neg hplus, Hex.byte?_pair]

theorem tokenBytes?_pairs (bs : List UInt8) : tokenBytes? (bs.flatMap Hex.pair) = some bs := by
  induction bs with
  | nil => rfl
  | cons b bs ih =>
    rw [List.flatMap_cons, Hex.pair, List.cons_append, List.cons_append, List.nil_append,
      tokenBytes?, tokenByte?_pair, ih]
    rfl

/-- **A token is read as it is written.** -/
theorem parseToken_pairs (t : KeyToken) : parseToken (t.val.flatMap Hex.pair) = .ok t := by
  have hlength : (t.val.flatMap Hex.pair).length = 16 := by rw [Hex.length_ofBytes, t.property]
  have hascii : (t.val.flatMap Hex.pair).all (fun c => c.toNat < 128) = true := by
    rw [List.all_eq_true]
    intro c hc
    have hrange := Hex.mem_ofBytes hc
    rw [decide_eq_true_eq]
    omega
  have hbytes : KeyToken.ofBytes? t.val = some t := dif_pos t.property
  rw [parseToken, if_pos ⟨hlength, hascii⟩, tokenBytes?_pairs, Option.bind_some, hbytes]

/-! ## What a display name keeps -/

/-- A culture that an identity is made with does not name the neutral one. -/
theorem mem_make {name : String} {version : AssemblyVersion} {culture : Option String}
    {strongName : Option StrongName} {c : String}
    (h : c ∈ (make name version culture strongName).culture) :
    c ∈ culture ∧ isNeutral c = false := by
  obtain ⟨hmem, hkept⟩ := Option.filter_eq_some_iff.mp h
  exact ⟨hmem, by simpa using hkept⟩

/-- What an identity has to be like to come back from its display name. -/
structure Displayable (i : AssemblyIdentity) : Prop where
  name_ne : i.name ≠ ""
  name_comma : ',' ∉ i.name.toList
  name_trimmed : Blank.Trimmed i.name.toList
  culture_comma : ∀ c ∈ i.culture, ',' ∉ c.toList
  culture_last : ∀ c ∈ i.culture, ∀ x ∈ c.toList.getLast?, Blank.isBlank x = false

/-- An identity with the token in place of a public key. -/
def withToken (i : AssemblyIdentity) : AssemblyIdentity :=
  { i with strongName := i.strongName.map fun s => .token (s.toToken HashAlgorithm.sha1) }

/-- How a strong name is written. -/
def tokenText : Option StrongName → List Char
  | some s => (s.toToken HashAlgorithm.sha1).val.flatMap Hex.pair
  | none => "null".toList

/-- The labelled parts of a display name. -/
def labelled (i : AssemblyIdentity) : List (List Char) :=
  ["Version=".toList ++ i.version.display.toList,
    "Culture=".toList ++ (i.culture.getD "neutral").toList,
    "PublicKeyToken=".toList ++ tokenText i.strongName]

theorem display_toList (i : AssemblyIdentity) :
    i.display.toList = [','].intercalate (i.name.toList :: i.labelled.map (' ' :: ·)) := by
  obtain ⟨name, version, culture, strongName⟩ := i
  cases strongName <;>
    simp [display, labelled, tokenText, Hex.ofBytes, String.toList_append, List.intercalate]

section Parts

variable {i : AssemblyIdentity}

theorem mem_tokenText {s : Option StrongName} {c : Char} (h : c ∈ tokenText s) :
    48 ≤ c.toNat ∧ c.toNat ≤ 57 ∨ 97 ≤ c.toNat ∧ c.toNat ≤ 122 := by
  cases s with
  | none =>
    have hnull : tokenText none = ['n', 'u', 'l', 'l'] := rfl
    simp only [hnull, List.mem_cons, List.not_mem_nil, or_false] at h
    rcases h with rfl | rfl | rfl | rfl <;> decide
  | some s =>
    have hrange := Hex.mem_ofBytes h
    omega

theorem comma_labelled (hi : i.Displayable) {part : List Char} (h : part ∈ i.labelled) :
    ',' ∉ part := by
  simp only [labelled, List.mem_cons, List.not_mem_nil, or_false] at h
  rcases h with rfl | rfl | rfl <;> rw [List.mem_append, not_or]
  · refine ⟨by decide, fun hc => ?_⟩
    rcases AssemblyVersion.mem_display hc with hc | hc <;> revert hc <;> decide
  · refine ⟨by decide, ?_⟩
    cases hculture : i.culture with
    | none => decide
    | some c => exact hi.culture_comma c hculture
  · refine ⟨by decide, fun hc => ?_⟩
    have hrange := mem_tokenText hc
    revert hrange
    decide

theorem trimmed_labelled (hi : i.Displayable) {part : List Char} (h : part ∈ i.labelled) :
    Blank.Trimmed part := by
  simp only [labelled, List.mem_cons, List.not_mem_nil, or_false] at h
  rcases h with rfl | rfl | rfl
  · refine .append (by decide) (by decide) fun c hc => ?_
    rcases AssemblyVersion.mem_display (List.mem_of_mem_getLast? hc) with rfl | hc
    · decide
    · obtain ⟨hlow, hhigh⟩ := Decimal.isDigit_iff.mp hc
      exact Blank.isBlank_of_lt (by omega) (by omega)
  · refine .append (by decide) (by decide) ?_
    cases hculture : i.culture with
    | none =>
      rintro _ ⟨⟩
      decide
    | some c => exact hi.culture_last c hculture
  · refine .append (by decide) (by decide) fun c hc => ?_
    have hrange := mem_tokenText (List.mem_of_mem_getLast? hc)
    exact Blank.isBlank_of_lt (by omega) (by omega)

/-- **The parts of a display name are those that it was written with.** -/
theorem trimmed_parts (hi : i.Displayable) :
    (split ',' i.display.toList).map Blank.trim = i.name.toList :: i.labelled := by
  have hparts : split ',' i.display.toList = i.name.toList :: i.labelled.map (' ' :: ·) := by
    rw [display_toList]
    refine split_join (fun part hpart => ?_) (by simp)
    rcases List.mem_cons.mp hpart with rfl | hpart
    · exact hi.name_comma
    · obtain ⟨label, hlabel, rfl⟩ := List.mem_map.mp hpart
      simpa using comma_labelled hi hlabel
  have htrim : ∀ part ∈ i.labelled, Blank.trim (' ' :: part) = part := fun part hpart => by
    rw [Blank.trim_cons (by decide), Blank.trim_eq_self_iff.mpr (trimmed_labelled hi hpart)]
  rw [hparts, List.map_cons, Blank.trim_eq_self_iff.mpr hi.name_trimmed, List.map_map]
  exact congrArg _ (List.map_congr_left htrim |>.trans (List.map_id' _))

end Parts

/-! ## Reading what was written -/

theorem parsePart_version (acc : AssemblyIdentity) (v : AssemblyVersion) :
    parsePart acc ("Version=".toList ++ v.display.toList) = .ok { acc with version := v } := by
  rw [parsePart, after?_eq_some_iff.mpr rfl]
  simp only [AssemblyVersion.parse_display]
  rfl

theorem parsePart_culture (acc : AssemblyIdentity) (c : List Char) :
    parsePart acc ("Culture=".toList ++ c) =
      .ok { acc with culture := some (String.ofList c) } := by
  have hversion : after? "Version=".toList ("Culture=".toList ++ c) = none := by simp [after?]
  rw [parsePart, hversion, after?_eq_some_iff.mpr rfl]

theorem parsePart_token (acc : AssemblyIdentity) (h : acc.strongName = none)
    (s : Option StrongName) :
    parsePart acc ("PublicKeyToken=".toList ++ tokenText s) =
      .ok { acc with strongName := s.map fun s => .token (s.toToken HashAlgorithm.sha1) } := by
  have hversion : after? "Version=".toList ("PublicKeyToken=".toList ++ tokenText s) = none := by
    simp [after?]
  have hculture : after? "Culture=".toList ("PublicKeyToken=".toList ++ tokenText s) = none := by
    simp [after?]
  rw [parsePart, hversion, hculture, after?_eq_some_iff.mpr rfl]
  cases s with
  | none =>
    simp only [if_pos (show tokenText none = "null".toList ∨ tokenText none = [] from .inl rfl)]
    rw [Option.map_none, ← h]
  | some s =>
    have hlength : (tokenText (some s)).length = 16 := by
      rw [tokenText, Hex.length_ofBytes, (s.toToken HashAlgorithm.sha1).property]
    have hwritten : ¬(tokenText (some s) = "null".toList ∨ tokenText (some s) = []) := by
      rintro (h | h) <;> rw [h] at hlength <;> revert hlength <;> decide
    simp only [if_neg hwritten]
    rw [tokenText, parseToken_pairs]
    rfl

/-- The parts say what the identity was. -/
theorem parseParts_labelled (i : AssemblyIdentity) :
    parseParts ⟨i.name, .unknown, none, none⟩ i.labelled =
      .ok { i.withToken with culture := some (i.culture.getD "neutral") } := by
  rw [labelled, parseParts, parsePart_version]
  dsimp only
  rw [parseParts, parsePart_culture]
  dsimp only
  rw [parseParts, parsePart_token _ rfl]
  dsimp only
  rw [parseParts, String.ofList_toList]
  rfl

/-- An identity whose culture is not written like the neutral one comes back, with the token
in place of a public key. -/
theorem parse_written {i : AssemblyIdentity} (hi : i.Displayable)
    (hculture : ∀ c ∈ i.culture, isNeutral c = false) : parse i.display = .ok i.withToken := by
  have hname : i.name.toList ≠ [] := by simpa using hi.name_ne
  rw [parse, trimmed_parts hi]
  dsimp only
  rw [if_neg hname, String.ofList_toList, parseParts_labelled]
  have hneutral : (some (i.culture.getD "neutral")).filter (fun c => !isNeutral c) = i.culture := by
    cases hi : i.culture with
    | none => decide
    | some c => simp [hculture c hi]
  simp only [Except.map, make, hneutral]
  rfl

/-! ## What has been read -/

theorem map_eq_ok {ε α β : Type} {x : Except ε α} {f : α → β} {b : β} (h : x.map f = .ok b) :
    ∃ a, x = .ok a ∧ f a = b := by
  cases x with
  | error e => cases h
  | ok a => exact ⟨a, rfl, Except.ok.inj h⟩

/-- What the parts that have been read leave in an identity. -/
structure Legible (acc : AssemblyIdentity) : Prop where
  culture_comma : ∀ c ∈ acc.culture, ',' ∉ c.toList
  culture_last : ∀ c ∈ acc.culture, ∀ x ∈ c.toList.getLast?, Blank.isBlank x = false
  token : ∀ s ∈ acc.strongName, ∃ t, s = .token t

section Reading

variable {acc acc' i : AssemblyIdentity} {part : List Char} {parts : List (List Char)}

theorem parsePart_legible (hcomma : ',' ∉ part) (htrimmed : Blank.Trimmed part) (h : acc.Legible)
    (hread : parsePart acc part = .ok acc') : acc'.Legible ∧ acc'.name = acc.name := by
  rw [parsePart] at hread
  split at hread
  · obtain ⟨version, -, rfl⟩ := map_eq_ok hread
    exact ⟨⟨h.culture_comma, h.culture_last, h.token⟩, rfl⟩
  · split at hread
    · next c hc =>
      obtain rfl := after?_eq_some_iff.mp hc
      cases hread
      refine ⟨⟨?_, ?_, h.token⟩, rfl⟩
      · rintro _ ⟨⟩
        rw [String.toList_ofList]
        exact fun hmem => hcomma (List.mem_append_right _ hmem)
      · rintro _ ⟨⟩ x hx
        rw [String.toList_ofList] at hx
        refine htrimmed.last x ?_
        rw [List.getLast?_append, hx]
        rfl
    · split at hread
      · split at hread
        · cases hread
          exact ⟨h, rfl⟩
        · obtain ⟨token, -, rfl⟩ := map_eq_ok hread
          refine ⟨⟨h.culture_comma, h.culture_last, ?_⟩, rfl⟩
          rintro _ ⟨⟩
          exact ⟨token, rfl⟩
      · cases hread
        exact ⟨h, rfl⟩

theorem parseParts_legible (hcomma : ∀ part ∈ parts, ',' ∉ part)
    (htrimmed : ∀ part ∈ parts, Blank.Trimmed part) (h : acc.Legible)
    (hread : parseParts acc parts = .ok acc') : acc'.Legible ∧ acc'.name = acc.name := by
  induction parts generalizing acc with
  | nil =>
    cases hread
    exact ⟨h, rfl⟩
  | cons part parts ih =>
    rw [parseParts] at hread
    cases hpart : parsePart acc part with
    | error e =>
      rw [hpart] at hread
      cases hread
    | ok acc₁ =>
      rw [hpart] at hread
      obtain ⟨hfirst, hname⟩ := parsePart_legible (hcomma part List.mem_cons_self)
        (htrimmed part List.mem_cons_self) h hpart
      obtain ⟨hrest, hname'⟩ := ih (fun p hp => hcomma p (List.mem_cons_of_mem _ hp))
        (fun p hp => htrimmed p (List.mem_cons_of_mem _ hp)) hfirst hread
      exact ⟨hrest, hname'.trans hname⟩

/-- What a reading that succeeded has read. -/
theorem parse_eq_ok {text : String} (h : parse text = .ok i) : ∃ name parts acc,
    (split ',' text.toList).map Blank.trim = name :: parts ∧ name ≠ [] ∧
      parseParts ⟨String.ofList name, .unknown, none, none⟩ parts = .ok acc ∧
      make acc.name acc.version acc.culture acc.strongName = i := by
  rw [parse] at h
  split at h
  · cases h
  · next name parts hparts =>
    split at h
    · cases h
    · next hname =>
      obtain ⟨acc, hread, hmade⟩ := map_eq_ok h
      exact ⟨name, parts, acc, hparts, hname, hread, hmade⟩

/-- What has been read has all that an identity needs to come back, and no public key. -/
theorem parse_displayable {text : String} (h : parse text = .ok i) :
    i.Displayable ∧ (∀ c ∈ i.culture, isNeutral c = false) ∧ i.withToken = i := by
  obtain ⟨name, parts, acc, hparts, hname, hread, rfl⟩ := parse_eq_ok h
  have hcomma : ∀ part ∈ name :: parts, ',' ∉ part := by
    rw [← hparts]
    intro part hpart
    obtain ⟨whole, hwhole, rfl⟩ := List.mem_map.mp hpart
    exact fun hmem => not_mem_of_mem_split hwhole (Blank.trim_subset whole hmem)
  have htrimmed : ∀ part ∈ name :: parts, Blank.Trimmed part := by
    rw [← hparts]
    intro part hpart
    obtain ⟨whole, -, rfl⟩ := List.mem_map.mp hpart
    exact Blank.trimmed_trim whole
  obtain ⟨hnameComma, hcommas⟩ := List.forall_mem_cons.mp hcomma
  obtain ⟨hnameTrimmed, htrimmeds⟩ := List.forall_mem_cons.mp htrimmed
  have hnothing : Legible ⟨String.ofList name, .unknown, none, none⟩ := ⟨nofun, nofun, nofun⟩
  obtain ⟨hacc, haccName⟩ := parseParts_legible hcommas htrimmeds hnothing hread
  refine ⟨⟨?_, ?_, ?_, fun c hc => ?_, fun c hc => ?_⟩, fun c hc => (mem_make hc).2, ?_⟩
  · show acc.name ≠ ""
    rw [haccName]
    simpa using hname
  · show ',' ∉ acc.name.toList
    rwa [haccName, String.toList_ofList]
  · show Blank.Trimmed acc.name.toList
    rwa [haccName, String.toList_ofList]
  · exact hacc.culture_comma c (mem_make hc).1
  · exact hacc.culture_last c (mem_make hc).1
  · obtain ⟨accName, version, culture, strongName⟩ := acc
    cases strongName with
    | none => rfl
    | some s =>
      obtain ⟨t, rfl⟩ := hacc.token s rfl
      rfl

end Reading

/-! ## The round trip -/

/-- **Display names are read as they are written.**  An identity whose name is not empty, has
no comma and has no white space at its ends, and whose culture has no comma and no white space
at its end, comes back from its display name with its name, version and culture, and with
the token of its strong name.  So what has been read from any text comes back as it is. -/
theorem display_roundTrip :
    (∀ (name : String) (version : AssemblyVersion) (culture : Option String)
      (strongName : Option StrongName), (make name version culture strongName).Displayable →
      parse (make name version culture strongName).display =
        .ok { make name version culture strongName with
          strongName := strongName.map fun s => .token (s.toToken HashAlgorithm.sha1) }) ∧
    ∀ (text : String) (i : AssemblyIdentity), parse text = .ok i → parse i.display = .ok i := by
  constructor
  · intro name version culture strongName h
    exact parse_written h fun c hc => (mem_make hc).2
  · intro text i h
    obtain ⟨hi, hculture, htoken⟩ := parse_displayable h
    rw [parse_written hi hculture, htoken]

/-- A name like a labelled part, a culture behind a space and a public key; and a text with
its parts in another order. -/
theorem roundTrip_labelLike :
    let i := make "Version=9" ⟨4, 0, 0, 65535⟩ (some " de") (some (.publicKey [7]))
    let read : AssemblyIdentity := ⟨"Lib", ⟨1, 0, 0, 0⟩, none, none⟩
    i.Displayable ∧ parse i.display = .ok i.withToken ∧
      parse " Lib , Culture=NEUTRAL,Version=+01" = .ok read ∧ parse read.display = .ok read := by
  intro i read
  have hi : i.Displayable :=
    ⟨by decide, by decide, by decide, by rintro _ ⟨⟩; decide, by rintro _ ⟨⟩ _ ⟨⟩; decide⟩
  have hread : parse " Lib , Culture=NEUTRAL,Version=+01" = .ok read := by rfl
  exact ⟨hi, display_roundTrip.1 _ _ _ _ hi, hread, display_roundTrip.2 _ _ hread⟩

end AssemblyIdentity
end CliMetadata
