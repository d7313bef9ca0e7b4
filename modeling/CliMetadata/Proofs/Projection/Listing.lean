import CliMetadata.Proofs.Projection.Growth

/-!
# Lists that are read while references are made

Reading the list of a container asks for back-references, records those that are taken over, and
makes private copies of the rows that are claimed.  None of this changes what has been there, so
**a prepared graph grows as its lists are read** (`Graph.prepares_items`), just as it does when
references are made.  Where its lists have not been read before, a copy is an entity like any other
that is made: it takes the next number.
-/

namespace CliMetadata

open CliMetadata.Graph Loading Stateful

namespace Graph

variable {g g' : Graph}

/-- A graph grows if it is prepared. -/
def Prepares (g g' : Graph) : Prop := g.Prepared → g.Grown g'

instance : IsPreorder Graph Prepares where
  refl g _ := .refl g
  trans _ _ _ h k hg := (h hg).trans (k (hg.grown (h hg)))

namespace Grown

/-- Asking for back-references makes none of what counts. -/
theorem of_asked {children : Node → Prop} (h : g.Asked children g') : g.Grown g' :=
  of_same h.toAlike (.of_asked h) (Nat.le_of_eq h.built.symm) (fun _ => h.present _) fun _ =>
    h.entity _

variable {e : Edge}

/-- Neither does recording one. -/
theorem of_setOwner {c : Key} {o : Node} (ho : o.kind ∈ e.ownerKinds) :
    g.Grown ((ownerSlot e c).publish (some o) g) :=
  of_same ⟨fun _ => rfl, fun _ _ _ => rfl⟩ (.setOwner ho) (Nat.le_refl _) (fun _ => rfl)
    fun _ => rfl

/-- Nor does recording a list of what is there. -/
theorem of_setList {o : Node} {cs : List Key} (hcs : ∀ c ∈ cs, g.present ⟨e.childKind, c⟩) :
    g.Grown ((listSlot e o).publish cs g) :=
  of_same ⟨fun _ => rfl, fun _ _ _ => rfl⟩ (.setList hcs) (Nat.le_refl _) (fun _ => rfl)
    fun _ => rfl

end Grown

section Lists

variable {e : Edge} {o : Node}

/-- A private copy takes the next number. -/
theorem prepares_copyChild (e : Edge) (l p : Nat) : Keeps Prepares (Ownership.copyChild e l p) := by
  have copied : ∀ (k : Kind) {ρ : Type} [Recorded k ρ] [Recorded.Rowed k], k ≠ .customAttribute →
      (∀ (r : ρ) a, Recorded.pack k r ≠ .assemblyRef a) →
      (∀ s r, Recorded.ofRow? k s l p = some r → (Recorded.pack k r).refs = []) →
      Keeps Prepares (do return (← copy k l p).map (·.key) : GraphM (Option Key)) := by
    intro k ρ _ _ hk hk' hnew g hg
    unfold copy
    rw [bind_assoc, run_get_bind]
    cases hrow : (g.store? l).bind fun s => Recorded.ofRow? k s l p with
    | none => exact .refl g
    | some r =>
      obtain ⟨s, -, hr⟩ := Option.bind_eq_some_iff.mp hrow
      refine Grown.of_grow hg (Recorded.Rowed.ne_module (ρ := ρ)) hk (fun t ht => ?_) fun a ha => ?_
      · rw [hnew s r hr] at ht
        cases ht
      · exact absurd ha (hk' r a)
  cases e with
  | assemblyModules => exact Keeps.pure _
  | moduleTypes | nestedTypes | fields | methods | properties | events | params | genericParams =>
    refine copied _ (by decide) (fun _ _ => nofun) fun s r h => ?_
    obtain ⟨_, _, rfl⟩ := Option.map_eq_some_iff.mp h
    rfl

/-- A container takes over what is there, or a private copy of it. -/
theorem prepares_takeOver (ho : o.kind ∈ e.ownerKinds) (l : Nat) (c : Key) :
    Keeps Prepares (Ownership.takeOver e l o c) := by
  have owned : ∀ c : Key, Keeps Prepares (Ownership.setOwner e c (some o)) := fun _ _ _ =>
    .of_setOwner ho
  have hfree : Keeps Prepares (Ownership.free e o c) := fun g _ => .of_asked (keepsAsked_free e o c g)
  refine hfree.bind fun free => Keeps.ite ?_ ?_
  · exact (owned c).bind fun _ => Keeps.pure _
  · refine Keeps.get.bind fun g => ?_
    cases (g.origin ⟨e.childKind, c⟩).rid? with
    | none => exact Keeps.pure _
    | some rid =>
      refine (prepares_copyChild e l rid).bind fun copied => ?_
      cases copied with
      | none => exact Keeps.pure _
      | some copied => exact (owned copied).bind fun _ => Keeps.pure _

theorem prepares_storedItems (he : e ≠ .assemblyModules) (ho : o.kind ∈ e.ownerKinds) (l rid : Nat) :
    Keeps Prepares (Ownership.storedItems e o l rid) := by
  have hchildren : ∀ relation owner, Keeps Prepares (children l relation owner) :=
    fun relation owner g _ => .of_asked (children_run g l relation owner).1
  have hshared : ∀ rids, Keeps Prepares (collect (Ownership.sharedChild e l) rids) := fun rids g _ =>
    .of_asked (sharedChildren_run he l rids g).1
  refine (hchildren _ _).bind fun rids => (hshared _).bind fun candidates => Keeps.get.bind fun g => ?_
  exact keeps_collect (prepares_takeOver ho l) _

/-- **A prepared graph grows as a list is read.** -/
theorem prepares_items (he : e ≠ .assemblyModules) (ho : o.kind ∈ e.ownerKinds) :
    Keeps Prepares (Ownership.items e o) := by
  have hstored : ∀ (origin : Origin) (g : Graph),
      let run := (fromStore origin [] (Ownership.storedItems e o)).run g
      g.Prepares run.2 ∧ ∀ c ∈ run.1, run.2.present ⟨e.childKind, c⟩ := by
    intro origin g
    unfold fromStore
    rw [run_get_bind]
    cases g.reader? origin with
    | none => exact ⟨fun _ => .refl g, fun _ hc => absurd hc List.not_mem_nil⟩
    | some row => exact ⟨prepares_storedItems he ho _ _ g, (storedItems_extended he ho row.2 g).2⟩
  refine Keeps.get.bind fun g => keeps_getRelaxed (fun g' => (hstored _ g').1) fun g' _ _ => ?_
  exact .of_setList (hstored _ g').2

end Lists

end Graph
end CliMetadata
