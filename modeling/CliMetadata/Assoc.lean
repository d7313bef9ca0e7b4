/-!
# Finite maps

`Assoc κ α` holds at most one value for a key, in the order in which the keys
were first set.  Each operation has one lemma about look-up (`get?_set`,
`get?_erase`).  Where all entries are gone through, that they are exactly what is
found (`mem_entries_iff`) is all that counts, and nothing else needs to know how
they are kept.
-/

namespace CliMetadata

/-- A finite map. -/
structure Assoc (κ α : Type) where
  entries : List (κ × α)
deriving Repr

namespace Assoc

variable {κ α : Type} [DecidableEq κ]

/-- The map without keys. -/
def empty : Assoc κ α := ⟨[]⟩

instance : Inhabited (Assoc κ α) := ⟨empty⟩

/-- The value of a key in a list of entries. -/
def find? (k : κ) : List (κ × α) → Option α
  | [] => none
  | (k', v) :: rest => if k' = k then some v else find? k rest

/-- The entries with another value for a key. -/
def put (k : κ) (v : α) : List (κ × α) → List (κ × α)
  | [] => [(k, v)]
  | (k', v') :: rest => if k' = k then (k, v) :: rest else (k', v') :: put k v rest

/-- The value of a key. -/
def get? (m : Assoc κ α) (k : κ) : Option α := find? k m.entries

/-- Whether a key has a value. -/
def contains (m : Assoc κ α) (k : κ) : Bool := (m.get? k).isSome

/-- The map with another value for a key. -/
def set (m : Assoc κ α) (k : κ) (v : α) : Assoc κ α := ⟨put k v m.entries⟩

/-- The map without a key. -/
def erase (m : Assoc κ α) (k : κ) : Assoc κ α := ⟨m.entries.filter fun e => e.1 != k⟩

/-- The keys in order. -/
def keys (m : Assoc κ α) : List κ := m.entries.map (·.1)

theorem find?_put (k k' : κ) (v : α) (es : List (κ × α)) :
    find? k' (put k v es) = if k = k' then some v else find? k' es := by
  induction es with
  | nil => simp [put, find?]
  | cons e es ih =>
    obtain ⟨k₀, v₀⟩ := e
    by_cases h : k₀ = k
    · subst h
      by_cases h' : k₀ = k' <;> simp [put, find?, h']
    · by_cases h' : k₀ = k'
      · subst h'
        simp [put, find?, h, Ne.symm h]
      · simp [put, find?, h, h', ih]

theorem get?_set (m : Assoc κ α) (k k' : κ) (v : α) :
    (m.set k v).get? k' = if k = k' then some v else m.get? k' :=
  find?_put k k' v m.entries

@[simp] theorem get?_set_same (m : Assoc κ α) (k : κ) (v : α) :
    (m.set k v).get? k = some v := by simp [get?_set]

theorem get?_set_other (m : Assoc κ α) {k k' : κ} (v : α) (h : k ≠ k') :
    (m.set k v).get? k' = m.get? k' := by simp [get?_set, h]

theorem get?_erase (m : Assoc κ α) (k k' : κ) :
    (m.erase k).get? k' = if k = k' then none else m.get? k' := by
  obtain ⟨es⟩ := m
  simp only [erase, get?]
  induction es with
  | nil => simp [find?]
  | cons e es ih =>
    obtain ⟨k₀, v₀⟩ := e
    by_cases h : k₀ = k
    · subst h
      by_cases h' : k₀ = k' <;> simp_all [find?]
    · by_cases h' : k₀ = k'
      · subst h'
        simp [find?, h, Ne.symm h]
      · simp [find?, h, h', ih]

@[simp] theorem get?_empty (k : κ) : (empty : Assoc κ α).get? k = none := rfl

/-! ## Entries -/

theorem mem_keys_put (k k' : κ) (v : α) (es : List (κ × α)) :
    k' ∈ (put k v es).map (·.1) ↔ k' = k ∨ k' ∈ es.map (·.1) := by
  induction es with
  | nil => simp [put]
  | cons e es ih =>
    obtain ⟨k₀, v₀⟩ := e
    by_cases h : k₀ = k
    · subst h
      simp [put]
    · simp only [put, if_neg h, List.map_cons, List.mem_cons, ih]
      exact or_left_comm

theorem nodup_keys_put (k : κ) (v : α) {es : List (κ × α)} (h : (es.map (·.1)).Nodup) :
    ((put k v es).map (·.1)).Nodup := by
  induction es with
  | nil => simp [put]
  | cons e es ih =>
    obtain ⟨k₀, v₀⟩ := e
    obtain ⟨hfirst, hrest⟩ := List.nodup_cons.mp h
    by_cases hk : k₀ = k
    · subst hk
      simpa [put] using h
    · simp only [put, if_neg hk, List.map_cons, List.nodup_cons, mem_keys_put, not_or]
      exact ⟨⟨hk, hfirst⟩, ih hrest⟩

theorem nodup_keys_set {m : Assoc κ α} (h : m.keys.Nodup) (k : κ) (v : α) :
    (m.set k v).keys.Nodup := nodup_keys_put k v h

theorem nodup_keys_erase {m : Assoc κ α} (h : m.keys.Nodup) (k : κ) : (m.erase k).keys.Nodup :=
  h.sublist (List.filter_sublist.map _)

/-- In a map with one entry for a key, the entries are what is found. -/
theorem mem_entries_iff {m : Assoc κ α} (h : m.keys.Nodup) (k : κ) (v : α) :
    (k, v) ∈ m.entries ↔ m.get? k = some v := by
  obtain ⟨es⟩ := m
  simp only [keys, get?] at h ⊢
  induction es with
  | nil => simp [find?]
  | cons e es ih =>
    obtain ⟨k₀, v₀⟩ := e
    obtain ⟨hfirst, hrest⟩ := List.nodup_cons.mp h
    by_cases hk : k₀ = k
    · subst hk
      have hother : (k₀, v) ∉ es := fun hmem => hfirst (List.mem_map.mpr ⟨_, hmem, rfl⟩)
      simp [find?, hother, eq_comm]
    · simp [find?, hk, Ne.symm hk, ih hrest]

end Assoc
end CliMetadata
