import CliMetadata.Proofs.Ownership.Runs

/-!
# Containment in memory

Where no store is read, nothing is read lazily either: a child has a container only if
some operation has put it there, and then the container lists it.  So the
back-references say exactly what the lists say (`Reaches.contained_iff_owner`), in every
graph that actions make of the empty one.

**The invariant has two halves.**  That a list holds only what is recorded as its
container's is `Owned.listed`, which holds of every graph; that what is recorded is in
the list is `Mutual.listed`, which is lost as soon as a container is read from a store
before its list is.
-/

namespace CliMetadata
namespace Graph

open Loading Stateful

variable {g g' : Graph}

/-- **The lists hold what the back-references say.** -/
structure Mutual (g : Graph) : Prop where
  storeless : ∀ l, g.loader? l = none
  listed : ∀ {e : Edge} {c : Key} {o : Node}, g.owners.get? (e, c) = some (some o) → c ∈ g.held e o

section Storeless

variable (h : ∀ l, g.loader? l = none)
include h

theorem reader?_storeless (origin : Origin) : g.reader? origin = none := by
  cases origin with
  | inMemory => rfl
  | row l rid =>
    show (if (g.loader? l).isSome then some (l, rid) else none) = none
    rw [h]
    rfl

theorem stored_storeless (e : Edge) (c : Key) : g.stored e c = none := by
  unfold stored fromStore
  rw [run_get_bind, reader?_storeless h]
  rfl

theorem noted_storeless {e : Edge} {c : Key} {o : Node} :
    g.noted e c = some o ↔ g.owners.get? (e, c) = some (some o) := by
  rw [noted, stored_storeless h]
  cases g.owners.get? (e, c) with
  | none => exact iff_of_false (by rintro ⟨⟩) (by rintro ⟨⟩)
  | some v => exact ⟨fun hv => congrArg some hv, Option.some.inj⟩

/-- Reading a list that no store holds gives what it has been read with, or nothing. -/
theorem items_storeless (e : Edge) (o : Node) :
    ((Ownership.items e o).run g).1 = g.held e o ∧
      (((Ownership.items e o).run g).2 = g ∨
        ((Ownership.items e o).run g).2 = g.setList e o [] ∧ g.held e o = []) := by
  cases hg : g.lists.get? (e, o) with
  | some cs =>
    rw [items_held hg]
    exact ⟨(held_eq hg).symm, Or.inl rfl⟩
  | none =>
    have hheld : g.held e o = [] := by rw [held, hg]; rfl
    rw [items_memory hg (reader?_storeless h _)]
    exact ⟨hheld.symm, Or.inr ⟨rfl, hheld⟩⟩

end Storeless

namespace Mutual

/-- No list depends on a back-reference that is cleared. -/
theorem setOwner (h : g.Mutual) (e : Edge) (c : Key) : (g.setOwner e c none).Mutual where
  storeless := h.storeless
  listed {e' c' o'} ho := by
    rw [owners_setOwner] at ho
    split at ho
    · cases ho
    · exact h.listed ho

/-- A list is written that holds the children of its container. -/
theorem setList (h : g.Mutual) {e : Edge} {o : Node} {cs : List Key}
    (hcs : ∀ c, g.owners.get? (e, c) = some (some o) → c ∈ cs) : (g.setList e o cs).Mutual where
  storeless := h.storeless
  listed {e' c o'} ho := by
    rw [held_setList]
    split
    · next heq =>
      cases heq
      exact hcs c ho
    · exact h.listed ho

/-- **A change keeps the halves of containment together.** -/
theorem change (h : g.Mutual) (k : g.Change g') : g'.Mutual := by
  cases k with
  | asked ha made =>
    refine ⟨fun l => (ha.loader l).trans (h.storeless l), ?_⟩
    intro e c o ho
    -- there is no store, so what has been recorded while asking was recorded before
    have hnoted := noted_of_recorded ho
    rw [ha.noted, noted_storeless h.storeless] at hnoted
    rw [held, ha.lists]
    exact h.listed hnoted
  | @items e o container =>
    rcases (items_storeless h.storeless e o).2 with hsame | ⟨hset, hheld⟩
    · rw [hsame]
      exact h
    · rw [hset]
      exact h.setList fun c ho => hheld ▸ h.listed ho
  | @attach e o c cs container made free list absent i =>
    have hperm := List.perm_insertIdx c cs (Nat.min_le_right i cs.length)
    refine ⟨h.storeless, ?_⟩
    intro e' c' o' ho
    rw [held_setList]
    show c' ∈ if (e, o) = (e', o') then _ else g.held e' o'
    replace ho : (g.setOwner e c (some o)).owners.get? (e', c') = some (some o') := ho
    rw [owners_setOwner] at ho
    split at ho
    · next heq =>
      cases heq
      cases ho
      rw [if_pos rfl, hperm.mem_iff]
      exact List.mem_cons_self
    · split
      · next heq =>
        cases heq
        rw [hperm.mem_iff, ← held_eq list]
        exact List.mem_cons_of_mem _ (h.listed ho)
      · exact h.listed ho
  | @detach e o c cs list listed =>
    refine ⟨h.storeless, ?_⟩
    intro e' c' o' ho
    rw [owners_setOwner] at ho
    split at ho
    · cases ho
    · next hne =>
      show c' ∈ (g.setList e o (cs.erase c)).held e' o'
      rw [held_setList]
      split
      · next heq =>
        cases heq
        have hother : c' ≠ c := fun hsame => hne (hsame ▸ rfl)
        rw [List.mem_erase_of_ne hother, ← held_eq list]
        exact h.listed ho
      · exact h.listed ho
  | @forget e c made absent => exact h.setOwner e c
  | @clear e o cs list =>
    refine ⟨fun l => (loader?_disown l cs (g.setList e o [])).trans (h.storeless l), ?_⟩
    intro e' c' o' ho
    rw [owners_disown] at ho
    split at ho
    · cases ho
    · next hne =>
      have hlisted := h.listed ho
      rw [held_disown, held_setList]
      split
      · next heq =>
        cases heq
        rw [held_eq list] at hlisted
        exact absurd ⟨rfl, hlisted⟩ hne
      · exact hlisted

theorem changes (h : g.Mutual) (k : g.Changes g') : g'.Mutual := by
  induction k with
  | refl => exact h
  | step _ change ih => exact ih.change change

/-- A new entity is in no container and contains nothing. -/
theorem make {k : Kind} {ρ : Type} [Recorded k ρ] {r : ρ} (h : g.Mutual) (hs : g.Sound)
    (hr : InMemory k r) : ((CliMetadata.make k r).run g).2.Mutual := by
  let n : Node := ⟨k, .built g.built⟩
  have hgrown : (g.grow k r).Mutual :=
    ⟨fun l => (loader?_grow hs.wellMade hr l).trans (h.storeless l), h.listed⟩
  have hsettled : ((g.grow k r).settle n).Mutual ∧ ((g.grow k r).settle n).Unused n := by
    refine settle_induction (P := fun g' => g'.Mutual ∧ g'.Unused n)
      ⟨hgrown, unused_grow hs.owned hs.wellMade⟩ ?_ ?_ ?_
    · rintro g' e - ⟨hm, hunused⟩
      exact ⟨hm.setOwner e n.key, hunused.setOwner e n.key⟩
    · rintro g' e ⟨hm, hunused⟩
      exact ⟨hm.setList fun c ho => absurd ho hunused.container, hunused.setList e n⟩
    · rintro g' as ss ⟨hm, hunused⟩
      exact ⟨⟨hm.storeless, hm.listed⟩, ⟨hunused.child, hunused.container⟩⟩
  exact hsettled.1

end Mutual

/-! ## The empty graph and what is reached from it -/

theorem empty_sound : Graph.empty.Sound where
  wellMade := by
    refine ⟨?_, ?_, ?_, ?_⟩
    · rintro k n ⟨⟩
    · rintro e l p - ⟨⟩
    · rintro e c l rid - ⟨⟩
    · rintro e c v ⟨⟩
  owned := by
    refine ⟨?_, ?_, ?_, ?_⟩
    · rintro e c o ⟨⟩
    · rintro e c o ⟨⟩
    · exact fun _ _ => .nil
    · rintro e e' c o - ⟨⟩
  numbered := by rintro l s ⟨⟩
  unambiguous := by rintro l s ⟨⟩

theorem empty_mutual : Graph.empty.Mutual where
  storeless _ := by rw [loader?, Graph.empty, Index.get?_empty]
  listed ho := by
    rw [Graph.empty, Index.get?_empty] at ho
    cases ho

theorem Reaches.mutual (h : Graph.empty.Reaches g) : g.Mutual := by
  induction h with
  | refl => exact empty_mutual
  | make before _ inMemory ih => exact ih.make (before.kept empty_sound).sound inMemory
  | action before act legal ih =>
    exact ih.changes ((before.kept empty_sound).sound.apply_changes legal)

/-- **Containment in memory.**  Whatever has been done to entities that were made in
memory, a child is in the list of a container exactly where the container is what its
back-reference reads as; no list holds a child twice, and no type is both in a module
and in a type. -/
theorem Reaches.contained_iff_owner (h : Graph.empty.Reaches g) :
    (∀ (e : Edge) (o : Node) (c : Key), c ∈ ((Ownership.items e o).run g).1 ↔
      ((Ownership.owner e c).run g).1 = some o) ∧
    (∀ (e : Edge) (o : Node), ((Ownership.items e o).run g).1.Nodup) ∧
    ∀ t : Key, ((Ownership.owner .moduleTypes t).run g).1 = none ∨
      ((Ownership.owner .nestedTypes t).run g).1 = none := by
  have hsound := (h.kept empty_sound).sound
  have hmutual := h.mutual
  have hitems := fun e o => (items_storeless hmutual.storeless e o).1
  refine ⟨?_, ?_, ?_⟩
  · intro e o c
    rw [hitems, hsound.owned.owner_value, noted_storeless hmutual.storeless]
    exact ⟨hsound.owned.listed, hmutual.listed⟩
  · intro e o
    rw [hitems]
    exact hsound.owned.nodup e o
  · intro t
    rw [hsound.owned.owner_value, hsound.owned.owner_value]
    cases hm : g.noted .moduleTypes t with
    | none => exact Or.inl rfl
    | some m =>
      right
      exact hsound.owned.apart (e := .moduleTypes) rfl
        (hmutual.listed ((noted_storeless hmutual.storeless).mp hm))

/-- A type nested in another. -/
def nestedPair : Graph :=
  ((do
    let outer ← makeTypeDef .empty .empty 0
    let inner ← makeTypeDef .empty .empty 0
    let _ ← Ownership.add .nestedTypes outer.node inner.key : GraphM Unit).run .empty).2

theorem nestedPair_reached : Graph.empty.Reaches nestedPair := by
  have htype : InMemory .typeDef (⟨0, .inMemory, 0, .empty, .empty, some none⟩ : TypeDef) :=
    ⟨fun _ _ => by rintro ⟨⟩, fun m hm => by cases hm⟩
  have houter := make_kept empty_sound htype
  have hinner := make_kept houter.1.sound htype
  exact ((Reaches.refl.make .typeDef htype).make .typeDef htype).action (.add .nestedTypes _ _)
    ⟨⟨hinner.1.contains houter.2, List.mem_singleton.mpr rfl⟩, hinner.2⟩

theorem nestedPair_contained :
    Graph.empty.Reaches nestedPair ∧
      ((Ownership.owner .nestedTypes (.built 1)).run nestedPair).1 = some ⟨.typeDef, .built 0⟩ ∧
      Key.built 1 ∈ ((Ownership.items .nestedTypes ⟨.typeDef, .built 0⟩).run nestedPair).1 := by
  have howner : ((Ownership.owner .nestedTypes (.built 1)).run nestedPair).1 =
      some ⟨.typeDef, .built 0⟩ := by decide +kernel
  exact ⟨nestedPair_reached, howner,
    (nestedPair_reached.contained_iff_owner.1 .nestedTypes ⟨.typeDef, .built 0⟩ (.built 1)).mpr
      howner⟩

end Graph
end CliMetadata
