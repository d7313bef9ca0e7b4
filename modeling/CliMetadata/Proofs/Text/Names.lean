import CliMetadata.Name

/-!
# Names that are text

Bytes are read as text by a machine that never fails: what is no UTF-8 becomes
replacement characters.  **What a text is written as is read as that text again**
(`Text.Utf8.decodeLossy_encode`), so a name is text, `Name.text?`, exactly when it is what
some text is written as (`Name.isSome_text?_iff`), and only then does it come back from
being read as text and written again (`Name.ofString_lossy_iff`).

What agrees with a text up to the case of ASCII letters is text as well
(`Name.isSome_text?_of_same`): the bytes of the characters that are not ASCII have no case.
-/

namespace CliMetadata

namespace Text.Utf8

/-! ## What the machine does with one byte -/

section Steps

variable {b x owed low high code : Nat} {p : Pending} {rest : List UInt8}

theorem toNat_byte (h : b < 256) : (UInt8.ofNat b).toNat = b := UInt8.toNat_ofNat_of_lt' h

/-- A byte that begins a character of several. -/
theorem run_begun (hb : b < 256) (h : lead b = ([], some p)) :
    run none (UInt8.ofNat b :: rest) = run (some p) rest := by
  rw [run, step, toNat_byte hb, h]
  rfl

/-- A byte inside a character: six bits, in the range that is left for it. -/
theorem run_continued (hrange : low ≤ x % 0x40 + 0x80 ∧ x % 0x40 + 0x80 ≤ high) :
    run (some ⟨owed + 2, low, high, code⟩) (UInt8.ofNat (x % 0x40 + 0x80) :: rest) =
      run (some ⟨owed + 1, 0x80, 0xBF, 64 * code + x % 0x40⟩) rest := by
  rw [run, step, toNat_byte (by omega), if_pos hrange,
    show (x % 0x40 + 0x80) % 64 = x % 0x40 by omega]
  rfl

/-- The last byte of a character. -/
theorem run_ended :
    run (some ⟨1, 0x80, 0xBF, code⟩) (UInt8.ofNat (x % 0x40 + 0x80) :: rest) =
      Char.ofNat (64 * code + x % 0x40) :: run none rest := by
  have hrange : 0x80 ≤ x % 0x40 + 0x80 ∧ x % 0x40 + 0x80 ≤ 0xBF := by omega
  rw [run, step, toNat_byte (by omega), if_pos hrange,
    show (x % 0x40 + 0x80) % 64 = x % 0x40 by omega]
  rfl

end Steps

/-! ## Characters of two, three and four bytes -/

section Characters

variable {v : Nat} {rest : List UInt8}

theorem lead_two (hlow : 0x7F < v) (hhigh : v ≤ 0x7FF) :
    lead (v / 64 % 0x20 + 0xC0) = ([], some ⟨1, 0x80, 0xBF, v / 64⟩) := by
  unfold lead
  rw [if_neg (by omega), if_neg (by omega), if_pos (by omega)]
  rw [show (v / 64 % 0x20 + 0xC0) % 32 = v / 64 by omega]

/-- The second byte is in the range that the first leaves: no code point is written with
more bytes than it needs, and none is a surrogate. -/
theorem lead_three (hlow : 0x7FF < v) (hhigh : v ≤ 0xFFFF) (hvalid : v < 0xD800 ∨ 0xDFFF < v) :
    ∃ low high, lead (v / 4096 % 0x10 + 0xE0) = ([], some ⟨2, low, high, v / 4096⟩) ∧
      low ≤ v / 64 % 0x40 + 0x80 ∧ v / 64 % 0x40 + 0x80 ≤ high := by
  unfold lead
  rw [if_neg (by omega), if_neg (by omega), if_neg (by omega)]
  split
  · exact ⟨_, _, by rw [show v / 4096 = 0 by omega], by omega, by omega⟩
  · split
    · exact ⟨_, _, by rw [show v / 4096 = 0xD by omega], by omega, by omega⟩
    · rw [if_pos (by omega), show (v / 4096 % 0x10 + 0xE0) % 16 = v / 4096 by omega]
      exact ⟨_, _, rfl, by omega, by omega⟩

/-- So it is for four bytes: none is too long, and none is beyond the last plane. -/
theorem lead_four (hlow : 0xFFFF < v) (hhigh : v < 0x110000) :
    ∃ low high, lead (v / 262144 % 0x08 + 0xF0) = ([], some ⟨3, low, high, v / 262144⟩) ∧
      low ≤ v / 4096 % 0x40 + 0x80 ∧ v / 4096 % 0x40 + 0x80 ≤ high := by
  unfold lead
  rw [if_neg (by omega), if_neg (by omega), if_neg (by omega), if_neg (by omega),
    if_neg (by omega), if_neg (by omega)]
  split
  · exact ⟨_, _, by rw [show v / 262144 = 0 by omega], by omega, by omega⟩
  · split
    · rw [show (v / 262144 % 0x08 + 0xF0) % 8 = v / 262144 by omega]
      exact ⟨_, _, rfl, by omega, by omega⟩
    · rw [if_pos (by omega)]
      exact ⟨_, _, by rw [show v / 262144 = 4 by omega], by omega, by omega⟩

end Characters

/-- **The bytes of a character are read as that character.** -/
theorem run_char (c : Char) (rest : List UInt8) :
    run none (String.utf8EncodeChar c ++ rest) = c :: run none rest := by
  have hvalid : c.toNat < 0xD800 ∨ 0xDFFF < c.toNat ∧ c.toNat < 0x110000 := c.valid
  have hchar : Char.ofNat c.toNat = c := Char.ofNat_toNat c
  have htoNat : c.val.toNat = c.toNat := rfl
  unfold String.utf8EncodeChar
  simp only [htoNat]
  generalize c.toNat = v at hvalid hchar
  split
  · next h =>
    rw [List.singleton_append, run, step, toNat_byte (by omega), lead, if_pos h, hchar]
    rfl
  · split
    · rw [List.cons_append, List.singleton_append,
        run_begun (by omega) (lead_two (by omega) (by omega)), run_ended,
        show 64 * (v / 64) + v % 0x40 = v by omega, hchar]
    · split
      · obtain ⟨low, high, hlead, hsecond⟩ := lead_three (v := v) (by omega) (by omega) (by omega)
        rw [List.cons_append, List.cons_append, List.singleton_append, run_begun (by omega) hlead,
          run_continued hsecond, run_ended,
          show 64 * (64 * (v / 4096) + v / 64 % 0x40) + v % 0x40 = v by omega, hchar]
      · obtain ⟨low, high, hlead, hsecond⟩ := lead_four (v := v) (by omega) (by omega)
        rw [List.cons_append, List.cons_append, List.cons_append, List.singleton_append,
          run_begun (by omega) hlead, run_continued hsecond, run_continued (by omega), run_ended,
          show 64 * (64 * (64 * (v / 262144) + v / 4096 % 0x40) + v / 64 % 0x40) + v % 0x40 = v by
            omega, hchar]

/-- **What characters are written as is read as these characters.** -/
theorem decodeLossy_encode (cs : List Char) : decodeLossy (encode cs) = cs := by
  induction cs with
  | nil => rfl
  | cons c cs ih =>
    rw [decodeLossy, encode, List.flatMap_cons, run_char]
    exact congrArg (c :: ·) ih

/-- The bytes of a character that is not ASCII are not ASCII either. -/
theorem bytes_high {c : Char} (h : 0x7F < c.toNat) : ∀ b ∈ String.utf8EncodeChar c, 0x80 ≤ b.toNat := by
  have htoNat : c.val.toNat = c.toNat := rfl
  unfold String.utf8EncodeChar
  simp only [htoNat]
  generalize c.toNat = v at h
  rw [if_neg (by omega)]
  split
  · simp only [List.forall_mem_cons]
    rw [toNat_byte (by omega), toNat_byte (by omega)]
    exact ⟨by omega, by omega, nofun⟩
  · split
    · simp only [List.forall_mem_cons]
      rw [toNat_byte (by omega), toNat_byte (by omega), toNat_byte (by omega)]
      exact ⟨by omega, by omega, by omega, nofun⟩
    · simp only [List.forall_mem_cons]
      rw [toNat_byte (by omega), toNat_byte (by omega), toNat_byte (by omega),
        toNat_byte (by omega)]
      exact ⟨by omega, by omega, by omega, by omega, nofun⟩

/-- An ASCII character is one byte. -/
theorem char_ascii {b : UInt8} (h : b.toNat < 0x80) :
    String.utf8EncodeChar (Char.ofNat b.toNat) = [b] := by
  have hvalid : b.toNat.isValidChar := Or.inl (by omega)
  have hchar : (Char.ofNat b.toNat).val.toNat = b.toNat := by
    rw [Char.ofNat, dif_pos hvalid]
    rfl
  unfold String.utf8EncodeChar
  simp only [hchar]
  rw [if_pos (by omega), UInt8.ofNat_toNat]

end Text.Utf8

/-! ## Case -/

namespace Text.Ascii

open Utf8

theorem toNat_lowerByte (b : UInt8) :
    (lowerByte b).toNat = if 65 ≤ b.toNat ∧ b.toNat ≤ 90 then b.toNat + 32 else b.toNat := by
  have hletter : 65 ≤ b ∧ b ≤ 90 ↔ 65 ≤ b.toNat ∧ b.toNat ≤ 90 :=
    and_congr UInt8.le_iff_toNat_le UInt8.le_iff_toNat_le
  have hsum : (b + 32).toNat = (b.toNat + 32) % 256 := UInt8.toNat_add b 32
  unfold lowerByte
  by_cases h : 65 ≤ b ∧ b ≤ 90
  · have hrange := hletter.mp h
    rw [if_pos h, if_pos hrange, hsum]
    omega
  · rw [if_neg h, if_neg (mt hletter.mpr h)]

/-- Bytes that are not ASCII are equal up to case only to themselves. -/
theorem eq_of_same_high : ∀ {as bs : List UInt8}, (∀ b ∈ bs, 0x80 ≤ b.toNat) →
    as.map lowerByte = bs.map lowerByte → as = bs
  | [], [], _, _ => rfl
  | a :: as, b :: bs, hhigh, h => by
    obtain ⟨hhead, htail⟩ := List.cons.inj h
    have hb := hhigh b List.mem_cons_self
    have hsame : a.toNat = b.toNat := by
      have heq := congrArg UInt8.toNat hhead
      rw [toNat_lowerByte, toNat_lowerByte] at heq
      split at heq <;> split at heq <;> omega
    rw [UInt8.toNat_inj.mp hsame,
      eq_of_same_high (fun x hx => hhigh x (List.mem_cons_of_mem _ hx)) htail]

/-- What agrees with a character up to case is a character. -/
theorem char_of_same {bs : List UInt8} {c : Char}
    (h : bs.map lowerByte = (String.utf8EncodeChar c).map lowerByte) :
    ∃ c', bs = String.utf8EncodeChar c' := by
  by_cases hc : 0x7F < c.toNat
  · exact ⟨c, eq_of_same_high (bytes_high hc) h⟩
  · have hchar : String.utf8EncodeChar c = [UInt8.ofNat c.toNat] := if_pos (Nat.not_lt.mp hc)
    rw [hchar] at h
    obtain ⟨b, rfl, hb⟩ := List.map_eq_singleton_iff.mp h
    refine ⟨Char.ofNat b.toNat, (char_ascii ?_).symm⟩
    have heq := congrArg UInt8.toNat hb
    rw [toNat_lowerByte, toNat_lowerByte, toNat_byte (by omega)] at heq
    split at heq <;> split at heq <;> omega

/-- **What agrees with a text up to case is text.** -/
theorem text_of_same : ∀ {cs : List Char} {bs : List UInt8}, sameBytes bs (encode cs) = true →
    ∃ cs', bs = encode cs'
  | [], bs, h => by
    simp only [sameBytes, beq_iff_eq, encode, List.flatMap_nil, List.map_nil, List.map_eq_nil_iff] at h
    exact ⟨[], h⟩
  | c :: cs, bs, h => by
    simp only [sameBytes, beq_iff_eq, encode, List.flatMap_cons, List.map_append] at h
    obtain ⟨first, rest, rfl, hfirst, hrest⟩ := List.map_eq_append_iff.mp h
    obtain ⟨c', rfl⟩ := char_of_same hfirst
    have hrest : sameBytes rest (encode cs) = true := beq_iff_eq.mpr hrest
    obtain ⟨cs', rfl⟩ := text_of_same hrest
    exact ⟨c' :: cs', List.flatMap_cons.symm⟩

end Text.Ascii

/-! ## Names -/

namespace Name

variable {n m : Name} {s : String}

theorem isText_iff : n.isText s = true ↔ n = ofString s := beq_iff_eq

@[simp] theorem lossy_ofString (s : String) : (ofString s).lossy = s := by
  rw [lossy, ofString, Text.Utf8.decodeLossy_encode, String.ofList_toList]

/-- A name is text where it comes back from being read as text and written again. -/
theorem ofString_lossy_iff : ofString n.lossy = n ↔ n.text?.isSome := by
  have hbytes : ofString n.lossy = n ↔
      Text.Utf8.encode (Text.Utf8.decodeLossy n.bytes) = n.bytes := by
    rw [ofString, lossy, String.toList_ofList]
    exact ⟨congrArg bytes, congrArg mk⟩
  rw [hbytes, text?, Option.isSome_map, Text.Utf8.decode?]
  split
  · next h => simp [h]
  · next h => simp [h]

/-- **A name is text where some text is written as it.** -/
theorem isSome_text?_iff : n.text?.isSome ↔ ∃ s, n = ofString s := by
  rw [← ofString_lossy_iff]
  refine ⟨fun h => ⟨n.lossy, h.symm⟩, ?_⟩
  rintro ⟨s, rfl⟩
  rw [lossy_ofString]

/-- What agrees with a text up to case is text. -/
theorem isSome_text?_of_same (h : n.sameIgnoringCase (ofString s) = true) : n.text?.isSome := by
  obtain ⟨cs, hcs⟩ := Text.Ascii.text_of_same h
  refine isSome_text?_iff.mpr ⟨String.ofList cs, ?_⟩
  rw [ofString, String.toList_ofList, ← hcs]

theorem sameIgnoringCase_symm (h : n.sameIgnoringCase m = true) : m.sameIgnoringCase n = true := by
  simp only [sameIgnoringCase, Text.Ascii.sameBytes, beq_iff_eq] at h ⊢
  exact h.symm

theorem sameIgnoringCase_trans {k : Name} (h : n.sameIgnoringCase m = true)
    (h' : m.sameIgnoringCase k = true) : n.sameIgnoringCase k = true := by
  simp only [sameIgnoringCase, Text.Ascii.sameBytes, beq_iff_eq] at h h' ⊢
  exact h.trans h'

end Name
end CliMetadata
