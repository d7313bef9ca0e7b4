import CliMetadata.Proofs.Text.Names
import CliMetadata.StringHeap

/-!
# Names in a growing string heap

A string heap is **closed** (`StringHeap.Closed`) if it begins with the empty name and ends with a
NUL, as it does from the start on.  In a closed heap every offset names the bytes up to a NUL that
is there already.  So a name that has been stored is read back as the bytes before its first NUL
(`Closed.get?_add_suffix`, which reads it from any place in it), and **what an offset names stays
the same while names are added behind it** (`Closed.get?_grown`), in every heap that names have been
added to (`Closed.addAll`).  A text without NUL is stored whole (`cut_encode`).
-/

namespace CliMetadata

namespace StringHeap

variable {h h' : StringHeap} {offset : Nat}

/-- A heap that begins with the empty name and ends with a NUL. -/
structure Closed (h : StringHeap) : Prop where
  first : h.bytes.head? = some 0
  last : h.bytes.getLast? = some 0

theorem closed_empty : empty.Closed := ⟨rfl, rfl⟩

theorem Closed.length_pos (hc : h.Closed) : 0 < h.bytes.length := by
  cases hb : h.bytes with
  | nil => exact nomatch hb ▸ hc.first
  | cons b bs => exact Nat.succ_pos _

/-- Bytes behind a NUL are not looked at. -/
theorem cut_append {bs : List UInt8} (hbs : (0 : UInt8) ∈ bs) (more : List UInt8) :
    cut (bs ++ more) = cut bs := by
  induction bs with
  | nil => cases hbs
  | cons b bs ih =>
    by_cases hb : b = 0
    · subst hb
      rfl
    · have hmem : (0 : UInt8) ∈ bs := (List.mem_cons.mp hbs).resolve_left (Ne.symm hb)
      simp [cut, hb] at ih ⊢
      exact ih hmem

/-- Bytes without a NUL are stored whole. -/
theorem cut_eq_self {bs : List UInt8} (hbs : (0 : UInt8) ∉ bs) : cut bs = bs := by
  induction bs with
  | nil => rfl
  | cons b bs ih =>
    obtain ⟨hb, hrest⟩ := not_or.mp (mt List.mem_cons.mpr hbs)
    have hne : (b != 0) = true := bne_iff_ne.mpr (Ne.symm hb)
    rw [cut, List.takeWhile_cons, if_pos hne]
    exact congrArg (b :: ·) (ih hrest)

theorem zero_not_mem_cut (bs : List UInt8) : (0 : UInt8) ∉ cut bs := by
  induction bs with
  | nil => exact List.not_mem_nil
  | cons b bs ih =>
    rw [cut, List.takeWhile_cons]
    split
    · next hne =>
      rw [List.mem_cons, not_or]
      exact ⟨Ne.symm (bne_iff_ne.mp hne), ih⟩
    · exact List.not_mem_nil

/-- A name ends at the NUL that is put behind it. -/
theorem cut_closed {bs : List UInt8} (hbs : (0 : UInt8) ∉ bs) : cut (bs ++ [0]) = bs := by
  induction bs with
  | nil => rfl
  | cons b bs ih =>
    obtain ⟨hb, hrest⟩ := not_or.mp (mt List.mem_cons.mpr hbs)
    have hne : (b != 0) = true := bne_iff_ne.mpr (Ne.symm hb)
    rw [cut, List.cons_append, List.takeWhile_cons, if_pos hne]
    exact congrArg (b :: ·) (ih hrest)

/-- Bytes with a NUL name what stands before it, bytes without one name nothing. -/
theorem untilNul?_eq (bs : List UInt8) :
    untilNul? bs = if (0 : UInt8) ∈ bs then some (cut bs) else none := by
  induction bs with
  | nil => rfl
  | cons b bs ih =>
    by_cases hb : b = 0
    · simp [untilNul?, hb, cut]
    · simp only [untilNul?, hb, ih, if_false, List.mem_cons, Ne.symm hb, false_or]
      split <;> simp [cut, hb]

/-- There is a NUL behind every offset of a closed heap. -/
theorem Closed.zero_mem_drop (hc : h.Closed) (ho : offset < h.bytes.length) :
    (0 : UInt8) ∈ h.bytes.drop offset := by
  refine List.mem_of_getLast? ?_
  rw [List.getLast?_drop, if_neg (Nat.not_le.mpr ho), hc.last]

/-- What an offset with a NUL behind it names. -/
theorem get?_of_mem (hmem : (0 : UInt8) ∈ h.bytes.drop offset) :
    h.get? offset = some ⟨cut (h.bytes.drop offset)⟩ := by
  have ho : offset < h.bytes.length := Nat.lt_of_not_le fun hle =>
    List.not_mem_nil (List.drop_eq_nil_of_le hle ▸ hmem)
  rw [get?, if_pos ho, untilNul?_eq, if_pos hmem, Option.map_some]

/-- **What an offset names stays the same** while the heap grows. -/
theorem Closed.get?_grown (hc : h.Closed) (hg : h.bytes <+: h'.bytes)
    (ho : offset < h.bytes.length) : h'.get? offset = h.get? offset := by
  obtain ⟨more, hmore⟩ := hg
  have hmem := hc.zero_mem_drop ho
  have hdrop : h'.bytes.drop offset = h.bytes.drop offset ++ more := by
    rw [← hmore, List.drop_append_of_le_length (Nat.le_of_lt ho)]
  have hmem' : (0 : UInt8) ∈ h'.bytes.drop offset := by
    rw [hdrop]
    exact List.mem_append_left _ hmem
  rw [get?_of_mem hmem', get?_of_mem hmem, hdrop, cut_append hmem]

/-- **In a closed heap exactly the offsets within it name something.** -/
theorem Closed.get?_isSome (hc : h.Closed) : (h.get? offset).isSome ↔ offset < h.size := by
  constructor
  · intro hsome
    refine Decidable.byContradiction fun (hout : ¬ offset < h.bytes.length) => ?_
    rw [get?, if_neg hout] at hsome
    exact nomatch hsome
  · intro ho
    rw [get?_of_mem (hc.zero_mem_drop ho)]
    rfl

/-- The empty name is at offset zero. -/
theorem Closed.get?_zero (hc : h.Closed) : h.get? 0 = some .empty := by
  have hfirst := hc.first
  rw [get?_of_mem (hc.zero_mem_drop hc.length_pos), List.drop_zero]
  cases hb : h.bytes with
  | nil => exact nomatch hb ▸ hfirst
  | cons b bs =>
    rw [hb] at hfirst
    obtain rfl : b = 0 := Option.some.inj hfirst
    rfl

/-- **A name that is stored is read back** up to its first NUL. -/
theorem Closed.add (hc : h.Closed) (value : List UInt8) :
    (h.add value).2.Closed ∧ h.bytes <+: (h.add value).2.bytes ∧
      (h.add value).1 < (h.add value).2.bytes.length ∧
      (h.add value).2.get? (h.add value).1 = some ⟨cut value⟩ := by
  cases hcut : cut value with
  | nil =>
    have hadd : h.add value = (0, h) := by rw [StringHeap.add, hcut]
    rw [hadd]
    exact ⟨hc, List.prefix_refl _, hc.length_pos, hc.get?_zero⟩
  | cons b bs =>
    have hadd : h.add value = (h.bytes.length, ⟨h.bytes ++ (b :: bs) ++ [0]⟩) := by
      rw [StringHeap.add, hcut]
    have hlength : h.bytes.length < (h.bytes ++ (b :: bs) ++ [0]).length := by
      simp only [List.length_append, List.length_cons]
      omega
    have hzero : (0 : UInt8) ∉ b :: bs := hcut ▸ zero_not_mem_cut value
    rw [hadd]
    refine ⟨⟨?_, ?_⟩, ?_, hlength, ?_⟩
    · simp [List.head?_append, hc.first]
    · rw [List.getLast?_append]
      rfl
    · exact ⟨b :: bs ++ [0], by simp⟩
    · have hdrop : (h.bytes ++ (b :: bs) ++ [0]).drop h.bytes.length = b :: bs ++ [0] := by
        rw [List.append_assoc, List.drop_left]
      rw [get?_of_mem (by rw [hdrop]; exact List.mem_append_right _ (List.mem_singleton_self 0)),
        hdrop, cut_closed hzero]

/-! ## Heaps that names are added to -/

/-- Stores names one after the other. -/
def addAll (h : StringHeap) (values : List (List UInt8)) : StringHeap :=
  values.foldl (fun h value => (h.add value).2) h

theorem addAll_cons (h : StringHeap) (value : List UInt8) (values : List (List UInt8)) :
    h.addAll (value :: values) = (h.add value).2.addAll values := rfl

theorem Closed.addAll (hc : h.Closed) (values : List (List UInt8)) :
    (h.addAll values).Closed ∧ h.bytes <+: (h.addAll values).bytes := by
  induction values generalizing h with
  | nil => exact ⟨hc, List.prefix_refl _⟩
  | cons value values ih =>
    obtain ⟨hadded, hgrown, -, -⟩ := hc.add value
    obtain ⟨hall, hprefix⟩ := ih hadded
    rw [addAll_cons]
    exact ⟨hall, hgrown.trans hprefix⟩

/-- **What an offset has once named it names from then on.** -/
theorem Closed.get?_addAll (hc : h.Closed) (values : List (List UInt8)) {name : Name}
    (hget : h.get? offset = some name) : (h.addAll values).get? offset = some name := by
  have ho : offset < h.bytes.length := hc.get?_isSome.mp (by rw [hget]; rfl)
  rw [hc.get?_grown (hc.addAll values).2 ho, hget]

/-- A name that is not empty is put behind all that the heap holds. -/
theorem add_offset {value : List UInt8} (hvalue : cut value ≠ []) :
    (h.add value).1 = h.size ∧ (h.add value).2.bytes = h.bytes ++ cut value ++ [0] := by
  cases hcut : cut value with
  | nil => exact absurd hcut hvalue
  | cons b bs =>
    rw [StringHeap.add, hcut]
    exact ⟨rfl, rfl⟩

/-- **An offset within a stored name names what is left of it.** -/
theorem Closed.get?_add_suffix (hc : h.Closed) (value : List UInt8) {k : Nat}
    (hk : k ≤ (cut value).length) :
    (h.add value).2.get? ((h.add value).1 + k) = some ⟨(cut value).drop k⟩ := by
  by_cases hvalue : cut value = []
  · obtain rfl : k = 0 := by simpa [hvalue] using hk
    exact (hc.add value).2.2.2
  · obtain ⟨hoffset, hbytes⟩ := add_offset (h := h) hvalue
    have hdrop : (h.add value).2.bytes.drop ((h.add value).1 + k) = (cut value).drop k ++ [0] := by
      rw [hbytes, hoffset, List.append_assoc, StringHeap.size, List.drop_length_add_append,
        List.drop_append_of_le_length hk]
    have hzero : (0 : UInt8) ∉ (cut value).drop k :=
      fun hmem => zero_not_mem_cut value (List.mem_of_mem_drop hmem)
    rw [get?_of_mem (by rw [hdrop]; exact List.mem_append_right _ (List.mem_singleton_self 0)),
      hdrop, cut_closed hzero]

/-- **A name that is not empty is put at an offset that no name was given before.** -/
theorem Closed.add_ne_add (hc : h.Closed) (value : List UInt8) {other : List UInt8}
    (hother : cut other ≠ []) (between : List (List UInt8)) :
    (((h.add value).2.addAll between).add other).1 ≠ (h.add value).1 := by
  have hadded := hc.add value
  have hlength := (hadded.1.addAll between).2.length_le
  rw [(add_offset hother).1]
  exact Nat.ne_of_gt (Nat.lt_of_lt_of_le hadded.2.2.1 hlength)

/-- **A heap that names are added to keeps each of them.**  Exactly the offsets below its size name
something, and what an offset names it names after every further name too.  The offset of an added
name is below the size, so it fits in 32 bits as long as the heap does; there, and at each place
further on in the name, the heap gives what is left of the bytes before the first NUL, at once and
later on.  A name that is not empty never shares the offset of a name added before it. -/
theorem empty_addAll_keeps (before : List (List UInt8)) :
    let h : StringHeap := StringHeap.empty.addAll before
    (∀ offset, (h.get? offset).isSome ↔ offset < h.size) ∧
      (∀ offset name after, h.get? offset = some name →
        (h.addAll after).get? offset = some name) ∧
      ∀ value,
        let added := h.add value
        added.1 < added.2.size ∧
          (∀ k after, k ≤ (cut value).length →
            (added.2.addAll after).get? (added.1 + k) = some ⟨(cut value).drop k⟩) ∧
          ∀ between other, cut other ≠ [] → ((added.2.addAll between).add other).1 ≠ added.1 := by
  intro h
  have hc : h.Closed := (closed_empty.addAll before).1
  refine ⟨fun _ => hc.get?_isSome, fun _ _ after => hc.get?_addAll after, fun value => ?_⟩
  have hadded := hc.add value
  exact ⟨hadded.2.2.1,
    fun _ after hk => hadded.1.get?_addAll after (hc.get?_add_suffix value hk),
    fun between _ hother => hc.add_ne_add value hother between⟩

/-- Two names, of which the second has a NUL in it. -/
theorem empty_addAll_keeps_two :
    let h := empty.addAll [[65, 66]]
    h.get? 2 = some ⟨[66]⟩ ∧ (h.addAll [[67, 0, 68]]).get? 2 = some ⟨[66]⟩ ∧
      ((h.add [67, 0, 68]).2.addAll [[69]]).get? 4 = some ⟨[67]⟩ ∧
      (((h.add [67, 0, 68]).2.addAll [[69]]).add [67]).1 ≠ (h.add [67, 0, 68]).1 := by
  obtain ⟨-, hstays, hadd⟩ := empty_addAll_keeps [[65, 66]]
  obtain ⟨-, hreads, hdiffer⟩ := hadd [67, 0, 68]
  exact ⟨by decide, hstays 2 ⟨[66]⟩ [[67, 0, 68]] (by decide), hreads 0 [[69]] (by decide),
    hdiffer [[69]] [67] (by decide)⟩

end StringHeap

namespace Text.Utf8

/-- A text without NUL is written without a zero byte. -/
theorem zero_not_mem_encode {cs : List Char} (h : '\x00' ∉ cs) : (0 : UInt8) ∉ encode cs := by
  intro hmem
  obtain ⟨c, hc, hbyte⟩ := List.mem_flatMap.mp hmem
  by_cases hascii : c.toNat < 0x80
  · have hone := char_ascii (b := UInt8.ofNat c.toNat) (by rw [toNat_byte (by omega)]; exact hascii)
    rw [toNat_byte (by omega), Char.ofNat_toNat] at hone
    rw [hone, List.mem_singleton] at hbyte
    have hzero : c.toNat = 0 := by
      have hnat := congrArg UInt8.toNat hbyte
      rw [toNat_byte (by omega)] at hnat
      exact hnat.symm
    have hnul : c = '\x00' := by rw [← Char.ofNat_toNat c, hzero]
    exact h (hnul ▸ hc)
  · exact absurd (bytes_high (c := c) (by omega) 0 hbyte) (by decide)

end Text.Utf8

/-- A text without NUL is stored whole. -/
theorem StringHeap.cut_encode {text : String} (h : '\x00' ∉ text.toList) :
    cut (Name.ofString text).bytes = (Name.ofString text).bytes :=
  cut_eq_self (Text.Utf8.zero_not_mem_encode h)

end CliMetadata
