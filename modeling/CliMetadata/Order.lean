/-!
# Stable sorting by a number

`sortBy key` puts a list in the order of a key and keeps entries of equal key in
the order in which they came.  `StablySorted key xs ys` says of two lists that the one
is the other in that order; `sortBy_stablySorted` says it of `sortBy`.
-/

namespace CliMetadata

variable {α : Type}

/-- Puts an entry before the first one whose key is not smaller. -/
def insertBy (key : α → Nat) (x : α) : List α → List α
  | [] => [x]
  | y :: ys => if key x ≤ key y then x :: y :: ys else y :: insertBy key x ys

/-- The list in the order of a key. -/
def sortBy (key : α → Nat) : List α → List α
  | [] => []
  | x :: xs => insertBy key x (sortBy key xs)

theorem insertBy_perm (key : α → Nat) (x : α) : ∀ ys, (insertBy key x ys).Perm (x :: ys)
  | [] => .refl _
  | y :: ys => by
    unfold insertBy
    split
    · exact .refl _
    · exact ((insertBy_perm key x ys).cons y).trans (.swap x y ys)

theorem sortBy_perm (key : α → Nat) : ∀ xs, (sortBy key xs).Perm xs
  | [] => .refl _
  | x :: xs => (insertBy_perm key x _).trans ((sortBy_perm key xs).cons x)

/-- **A list in the order of a key**, with entries of equal key in the order in which
they came. -/
structure StablySorted (key : α → Nat) (xs ys : List α) : Prop where
  perm : ys.Perm xs
  sorted : ys.Pairwise fun x y => key x ≤ key y
  stable : ∀ k, ys.filter (fun x => key x = k) = xs.filter fun x => key x = k

theorem insertBy_sorted (key : α → Nat) (x : α) : ∀ {ys : List α},
    ys.Pairwise (fun x y => key x ≤ key y) →
      (insertBy key x ys).Pairwise fun x y => key x ≤ key y
  | [], _ => List.pairwise_singleton _ x
  | y :: ys, h => by
    obtain ⟨hy, hys⟩ := List.pairwise_cons.mp h
    unfold insertBy
    split
    · next hx =>
      refine List.pairwise_cons.mpr ⟨fun z hz => ?_, h⟩
      rcases List.mem_cons.mp hz with rfl | hz
      · exact hx
      · exact Nat.le_trans hx (hy z hz)
    · next hx =>
      refine List.pairwise_cons.mpr ⟨fun z hz => ?_, insertBy_sorted key x hys⟩
      rcases List.mem_cons.mp ((insertBy_perm key x ys).mem_iff.mp hz) with rfl | hz
      · exact Nat.le_of_not_le hx
      · exact hy z hz

/-- An entry passes none of its own key on its way into a list. -/
theorem filter_insertBy (key : α → Nat) (k : Nat) (x : α) : ∀ ys : List α,
    (insertBy key x ys).filter (fun y => key y = k) = (x :: ys).filter fun y => key y = k
  | [] => rfl
  | y :: ys => by
    unfold insertBy
    split
    · rfl
    · next hx =>
      rw [List.filter_cons, filter_insertBy key k x ys, List.filter_cons, List.filter_cons,
        List.filter_cons]
      by_cases hy : key y = k
      · have hne : ¬key x = k := fun heq => hx (Nat.le_of_eq (heq.trans hy.symm))
        simp only [hy, hne, decide_true, decide_false, if_true, if_false, Bool.false_eq_true]
      · simp only [hy, decide_false, if_false, Bool.false_eq_true]

theorem sortBy_stablySorted (key : α → Nat) : ∀ xs, StablySorted key xs (sortBy key xs)
  | [] => ⟨.refl _, .nil, fun _ => rfl⟩
  | x :: xs => by
    have h := sortBy_stablySorted key xs
    refine ⟨sortBy_perm key _, insertBy_sorted key x h.sorted, fun k => ?_⟩
    rw [sortBy, filter_insertBy, List.filter_cons, h.stable, List.filter_cons]

/-- A list whose entries all have one key stays as it is. -/
theorem StablySorted.eq_of_key {key : α → Nat} {xs ys : List α} (h : StablySorted key xs ys)
    {k : Nat} (hk : ∀ x, key x = k) : ys = xs := by
  have hall : ∀ zs : List α, zs.filter (fun x => key x = k) = zs :=
    fun zs => List.filter_eq_self.mpr fun x _ => decide_eq_true (hk x)
  rw [← hall ys, h.stable, hall]

theorem insertBy_map {β : Type} (key : β → Nat) (f : α → β) (x : α) : ∀ ys : List α,
    insertBy key (f x) (ys.map f) = (insertBy (fun x => key (f x)) x ys).map f
  | [] => rfl
  | y :: ys => by
    rw [List.map_cons, insertBy, insertBy, insertBy_map key f x ys]
    split
    · rfl
    · rfl

/-- Entries are sorted by what they stand for. -/
theorem sortBy_map {β : Type} (key : β → Nat) (f : α → β) : ∀ xs : List α,
    sortBy key (xs.map f) = (sortBy (fun x => key (f x)) xs).map f
  | [] => rfl
  | x :: xs => by rw [List.map_cons, sortBy, sortBy_map key f xs, insertBy_map, sortBy]

theorem insertBy_congr {key key' : α → Nat} {x : α} (hx : key x = key' x) : ∀ {ys : List α},
    (∀ y ∈ ys, key y = key' y) → insertBy key x ys = insertBy key' x ys
  | [], _ => rfl
  | y :: ys, h => by
    rw [insertBy, insertBy, hx, h y List.mem_cons_self,
      insertBy_congr hx fun z hz => h z (List.mem_cons_of_mem _ hz)]

/-- Only the keys of the entries matter. -/
theorem sortBy_congr {key key' : α → Nat} : ∀ {xs : List α}, (∀ x ∈ xs, key x = key' x) →
    sortBy key xs = sortBy key' xs
  | [], _ => rfl
  | x :: xs, h => by
    have hxs := fun y hy => h y (List.mem_cons_of_mem _ hy)
    rw [sortBy, sortBy, sortBy_congr hxs]
    exact insertBy_congr (h x List.mem_cons_self) fun y hy => hxs y ((sortBy_perm key' xs).mem_iff.mp hy)

end CliMetadata
