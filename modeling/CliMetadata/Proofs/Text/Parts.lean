import CliMetadata.Text.Blank
import CliMetadata.Text.Split
import Mathlib.Data.List.DropRight

/-!
# Parts of a text

A text is cut at a separator into the parts that give it back when they are joined
(`split_eq_splitOn`), so no part has the separator in it (`not_mem_of_mem_split`), and parts
without it come back from being joined (`split_join`).  Trimming leaves a text alone exactly
if it has no white space at its ends (`trim_eq_self_iff`), as it has none after trimming
(`trimmed_trim`).
-/

namespace CliMetadata.Text

variable {sep : Char} {cs part rest : List Char} {parts : List (List Char)}

/-! ## Separators -/

theorem split_eq_splitOn (sep : Char) (cs : List Char) : split sep cs = cs.splitOn sep := by
  induction cs with
  | nil => rfl
  | cons c cs ih =>
    rw [split, List.splitOn_eq_splitOnP, List.splitOnP_cons_eq_if_modifyHead,
      ← List.splitOn_eq_splitOnP, ← ih]
    by_cases hc : c = sep
    · rw [if_pos hc, if_pos (by simpa using hc)]
    · rw [if_neg hc, if_neg (by simpa using hc)]
      cases hsplit : split sep cs with
      | nil => exact absurd (ih.symm.trans hsplit) (List.splitOn_ne_nil sep cs)
      | cons part parts => rfl

theorem split_ne_nil (sep : Char) (cs : List Char) : split sep cs ≠ [] := by
  rw [split_eq_splitOn]
  exact List.splitOn_ne_nil sep cs

/-- Parts that do not have the separator in them come back from being joined. -/
theorem split_join (hparts : ∀ part ∈ parts, sep ∉ part) (hne : parts ≠ []) :
    split sep ([sep].intercalate parts) = parts := by
  rw [split_eq_splitOn]
  exact List.splitOn_intercalate sep hparts hne

/-- What stands in joined parts is the separator or stands in one of them. -/
theorem mem_join {c : Char} (h : c ∈ [sep].intercalate parts) :
    c = sep ∨ ∃ part ∈ parts, c ∈ part := by
  induction parts with
  | nil => cases h
  | cons part parts ih =>
    cases parts with
    | nil => exact .inr ⟨part, List.mem_singleton_self part, by simpa [List.intercalate] using h⟩
    | cons next others =>
      have hc : c ∈ part ∨ c = sep ∨ c ∈ [sep].intercalate (next :: others) := by
        simpa [List.intercalate] using h
      rcases hc with hc | hc | hc
      · exact .inr ⟨part, List.mem_cons_self, hc⟩
      · exact .inl hc
      · rcases ih hc with hsep | ⟨p, hp, hc⟩
        · exact .inl hsep
        · exact .inr ⟨p, List.mem_cons_of_mem _ hp, hc⟩

theorem not_mem_of_mem_split (h : part ∈ split sep cs) : sep ∉ part := by
  induction cs generalizing part with
  | nil =>
    obtain rfl := List.mem_singleton.mp h
    exact List.not_mem_nil
  | cons c cs ih =>
    rw [split] at h
    split at h
    · rcases List.mem_cons.mp h with rfl | h
      · exact List.not_mem_nil
      · exact ih h
    · next hc =>
      split at h
      · next hnil => exact absurd hnil (split_ne_nil sep cs)
      · next first others hsplit =>
        rw [hsplit] at ih
        rcases List.mem_cons.mp h with rfl | h
        · have hfirst := ih List.mem_cons_self
          simpa [Ne.symm hc] using hfirst
        · exact ih (List.mem_cons_of_mem _ h)

/-! ## Beginnings -/

theorem after?_eq_some_iff {beginning : List Char} :
    after? beginning cs = some rest ↔ cs = beginning ++ rest := by
  induction beginning generalizing cs with
  | nil => simp [after?]
  | cons b bs ih =>
    cases cs with
    | nil => simp [after?]
    | cons c cs =>
      rw [after?]
      by_cases h : b = c
      · subst h
        simp [ih]
      · simp [h, Ne.symm h]

/-! ## White space at the ends -/

namespace Blank

/-- What is printed in ASCII is no white space. -/
theorem isBlank_of_lt {c : Char} (hlow : 0x20 < c.toNat) (hhigh : c.toNat < 0x85) :
    isBlank c = false := by
  rw [isBlank, List.any_eq_false]
  intro range hrange
  simp only [ranges, List.mem_cons, List.not_mem_nil, or_false] at hrange
  rcases hrange with rfl | rfl | rfl | rfl | rfl | rfl | rfl | rfl | rfl | rfl
  all_goals
    simp only [Bool.and_eq_true, decide_eq_true_eq, not_and, Nat.not_le]
    omega

/-- A text without white space at either end. -/
structure Trimmed (cs : List Char) : Prop where
  head : ∀ c ∈ cs.head?, isBlank c = false
  last : ∀ c ∈ cs.getLast?, isBlank c = false

theorem trim_eq (cs : List Char) : trim cs = (cs.dropWhile isBlank).rdropWhile isBlank := rfl

theorem trimmed_trim (cs : List Char) : Trimmed (trim cs) where
  head c hc := by
    obtain ⟨dropped, hdropped⟩ := List.rdropWhile_prefix isBlank (cs.dropWhile isBlank)
    have hhead : (cs.dropWhile isBlank).head? = some c := by
      rw [← hdropped, List.head?_append, ← trim_eq, hc]
      rfl
    have hblank := List.head?_dropWhile_not isBlank cs
    rwa [hhead] at hblank
  last c hc := by
    obtain ⟨hne, rfl⟩ := List.mem_getLast?_eq_getLast hc
    exact Bool.eq_false_iff.mpr (List.rdropWhile_last_not isBlank _ hne)

theorem trim_eq_self_iff : trim cs = cs ↔ Trimmed cs := by
  refine ⟨fun h => h ▸ trimmed_trim cs, fun h => ?_⟩
  have hhead : cs.dropWhile isBlank = cs := by
    cases cs with
    | nil => rfl
    | cons c cs => exact List.dropWhile_cons_of_neg (Bool.eq_false_iff.mp (h.head c rfl))
  rw [trim_eq, hhead, List.rdropWhile_eq_self_iff]
  intro hne
  exact Bool.eq_false_iff.mp (h.last _ (List.getLast?_eq_some_getLast hne))

instance (cs : List Char) : Decidable (Trimmed cs) := decidable_of_iff _ trim_eq_self_iff

/-- A label does not let white space in at the beginning. -/
theorem Trimmed.append {label value : List Char} (h : Trimmed label) (hne : label ≠ [])
    (hvalue : ∀ c ∈ value.getLast?, isBlank c = false) : Trimmed (label ++ value) where
  head c hc := by
    rw [List.head?_append_of_ne_nil _ hne] at hc
    exact h.head c hc
  last c hc := by
    rw [List.getLast?_append] at hc
    cases hlast : value.getLast? with
    | none =>
      rw [hlast] at hc
      exact h.last c hc
    | some d =>
      rw [hlast] at hc
      exact hvalue c (hlast ▸ hc)

theorem trim_subset (cs : List Char) : trim cs ⊆ cs := by
  rw [trim_eq]
  exact fun _ h => (List.dropWhile_suffix _).subset ((List.rdropWhile_prefix _ _).subset h)

theorem trim_cons {c : Char} (hc : isBlank c = true) (cs : List Char) :
    trim (c :: cs) = trim cs := by
  rw [trim, List.dropWhile_cons_of_pos hc, trim]

end Blank
end CliMetadata.Text
