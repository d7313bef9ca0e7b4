import Std.Data.TreeMap.Basic
import Std.Data.TreeMap.Lemmas

/-!
# Indexes

`Index κ α` holds at most one value for a key, in a balanced tree that is ordered
by the **codes** of the keys: lists of numbers that tell keys apart (`Coded`).
Look-up and change take a time that grows with the logarithm of the size, so
graphs of many entities can be kept in indexes.  Each operation has one lemma
about look-up (`get?_set`, `get?_erase`, `get?_filter`), and nothing else needs
to know how the entries are kept.
-/

namespace CliMetadata

/-- Keys that lists of numbers tell apart. -/
class Coded (κ : Type) where
  code : κ → List Nat
  /-- The order of the codes, told from the keys themselves. -/
  order : κ → κ → Ordering
  code_inj : ∀ {a b : κ}, code a = code b → a = b
  order_eq : ∀ a b : κ, order a b = compare (code a) (code b)

instance : Coded Nat where
  code n := [n]
  order := compare
  code_inj h := by simpa using h
  order_eq a b := by simp [List.compare_cons_cons]

namespace Coded

variable {κ : Type} [Coded κ]

theorem order_eq_compareOn : (order : κ → κ → Ordering) = compareOn code := by
  funext a b
  exact order_eq a b

instance : Std.TransCmp (order : κ → κ → Ordering) := by
  rw [order_eq_compareOn]
  infer_instance

instance : Std.LawfulEqCmp (order : κ → κ → Ordering) where
  compare_self := Std.ReflCmp.compare_self
  eq_of_compare {a b} h := code_inj (Std.LawfulEqCmp.eq_of_compare (order_eq a b ▸ h))

end Coded

/-- A finite map with its keys in order. -/
structure Index (κ α : Type) [Coded κ] where
  tree : Std.TreeMap κ α Coded.order

namespace Index

variable {κ α : Type} [Coded κ]

/-- The index without keys. -/
def empty : Index κ α := ⟨∅⟩

instance : Inhabited (Index κ α) := ⟨empty⟩

/-- The value of a key. -/
def get? (m : Index κ α) (k : κ) : Option α := m.tree[k]?

/-- Whether a key has a value. -/
def contains (m : Index κ α) (k : κ) : Bool := (m.get? k).isSome

/-- The index with another value for a key. -/
def set (m : Index κ α) (k : κ) (v : α) : Index κ α := ⟨m.tree.insert k v⟩

/-- The index without a key. -/
def erase (m : Index κ α) (k : κ) : Index κ α := ⟨m.tree.erase k⟩

/-- The index without the keys that fail a test. -/
def filter (m : Index κ α) (test : κ → Bool) : Index κ α := ⟨m.tree.filter fun k _ => test k⟩

/-- The keys with their values, in order. -/
def entries (m : Index κ α) : List (κ × α) := m.tree.toList

/-- The keys in order. -/
def keys (m : Index κ α) : List κ := m.tree.keys

/-- How many keys there are. -/
def size (m : Index κ α) : Nat := m.tree.size

theorem get?_set [DecidableEq κ] (m : Index κ α) (k k' : κ) (v : α) :
    (m.set k v).get? k' = if k = k' then some v else m.get? k' := by
  simp [get?, set, Std.TreeMap.getElem?_insert, Std.LawfulEqCmp.compare_eq_iff_eq]

@[simp] theorem get?_set_same (m : Index κ α) (k : κ) (v : α) :
    (m.set k v).get? k = some v := by simp [get?, set]

theorem get?_set_other (m : Index κ α) {k k' : κ} (v : α) (h : k ≠ k') :
    (m.set k v).get? k' = m.get? k' := by
  simp [get?, set, Std.TreeMap.getElem?_insert, h]

theorem get?_erase [DecidableEq κ] (m : Index κ α) (k k' : κ) :
    (m.erase k).get? k' = if k = k' then none else m.get? k' := by
  simp [get?, erase, Std.TreeMap.getElem?_erase]

theorem get?_filter (m : Index κ α) (test : κ → Bool) (k : κ) :
    (m.filter test).get? k = if test k then m.get? k else none := by
  cases h : test k <;> cases hv : m.tree[k]? <;>
    simp [get?, filter, Std.TreeMap.getElem?_filter, h, hv]

theorem mem_entries (m : Index κ α) {k : κ} {v : α} : (k, v) ∈ m.entries ↔ m.get? k = some v :=
  Std.TreeMap.mem_toList_iff_getElem?_eq_some

@[simp] theorem get?_empty (k : κ) : (empty : Index κ α).get? k = none := by simp [get?, empty]

end Index
end CliMetadata
