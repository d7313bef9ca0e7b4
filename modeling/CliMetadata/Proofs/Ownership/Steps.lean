import CliMetadata.Proofs.Ownership.Listing

/-!
# The steps of reading a list

Reading a list asks for back-references, takes children over, each itself or as a private copy,
and writes the list down.  **A relation that each of these steps keeps is kept by reading the
list** (`Graph.TakesOver.items`), whatever the stores hold: so what a list may change, and what
it may not, is found by looking at these steps.

What is known at a step is part of it.  A child becomes the container's only if it is recorded as
no other container's that exists, what is made has the next number, and what is written down had
not been read.
-/

namespace CliMetadata

open CliMetadata.Graph Loading Stateful

/-- A private copy, if one is made, is put under the next number. -/
theorem copyChild_cases (e : Edge) (l p : Nat) (g : Graph) :
    (Ownership.copyChild e l p).run g = (none, g) ∨
      e ≠ .assemblyModules ∧ ∃ (k : Kind) (ρ : Type) (_ : Recorded k ρ) (r : ρ), k = e.childKind ∧
        (Ownership.copyChild e l p).run g = (some (.built g.built),
          { g.put (⟨.built g.built⟩ : Id k) r with built := g.built + 1 }) := by
  have copied : ∀ (k : Kind) {ρ : Type} [Recorded k ρ],
      (do return (← copy k l p).map (·.key) : GraphM (Option Key)).run g = (none, g) ∨
        ∃ r : ρ, (do return (← copy k l p).map (·.key) : GraphM (Option Key)).run g =
          (some (.built g.built),
            { g.put (⟨.built g.built⟩ : Id k) r with built := g.built + 1 }) := by
    intro k ρ _
    rw [run_bind]
    unfold copy
    rw [run_get_bind]
    cases (g.store? l).bind fun s => Recorded.ofRow? k s l p with
    | none => exact .inl rfl
    | some r => exact .inr ⟨r, rfl⟩
  cases e with
  | assemblyModules => exact .inl rfl
  | moduleTypes | nestedTypes | fields | methods | properties | events | params | genericParams =>
    exact (copied _).imp_right fun ⟨r, hr⟩ => ⟨nofun, _, _, _, r, rfl, hr⟩

/-- A relation that is kept where children are taken over: back-references are asked for, a child
that is free becomes the container's, and a private copy of one that is not gets the next number
and becomes the container's. -/
structure Graph.TakesOver (e : Edge) (o : Node) (R : Graph → Graph → Prop) : Prop where
  asked : ∀ {g g' : Graph} {children : Node → Prop}, g.Asked children g' → R g g'
  take : ∀ {g : Graph} {c : Key}, e ≠ .assemblyModules →
    (∀ o', g.alive o' → g.owners.get? (e, c) = some (some o') → o' = o) →
      R g ((ownerSlot e c).publish (some o) g)
  copy : ∀ {g : Graph} {k : Kind} {ρ : Type} [Recorded k ρ] {r : ρ},
    e ≠ .assemblyModules → k = e.childKind → R g ((ownerSlot e (.built g.built)).publish (some o)
      { g.put (⟨.built g.built⟩ : Id k) r with built := g.built + 1 })

namespace Graph.TakesOver

variable {R : Graph → Graph → Prop} [IsPreorder Graph R] {e : Edge} {o : Node} (h : TakesOver e o R)
  {l : Nat}

include h

theorem takeOver (he : e ≠ .assemblyModules) (c : Key) : Keeps R (Ownership.takeOver e l o c) := by
  intro g
  have hfree : R g ((Ownership.free e o c).run g).2 := h.asked (keepsAsked_free e o c g)
  unfold Ownership.takeOver
  rw [run_bind]
  cases hv : ((Ownership.free e o c).run g).1 with
  | true =>
    rw [if_pos rfl]
    exact trans_of R hfree (h.take he fun o' halive ho => free_true hv halive ho)
  | false =>
    rw [if_neg Bool.false_ne_true, run_get_bind]
    generalize ((Ownership.free e o c).run g).2 = g₁ at hfree
    cases (g₁.origin ⟨e.childKind, c⟩).rid? with
    | none => exact hfree
    | some rid =>
      dsimp only
      rw [run_bind]
      rcases copyChild_cases e l rid g₁ with hnone | ⟨-, k, ρ, _, r, hk, hcopy⟩
      · rw [hnone]
        exact hfree
      · rw [hcopy]
        exact trans_of R hfree (h.copy he hk)

theorem adopt (he : e ≠ .assemblyModules) (cs : List Key) : Keeps R (Ownership.adopt e l o cs) :=
  keeps_collect (h.takeOver he) cs

theorem storedItems (rid : Nat) : Keeps R (Ownership.storedItems e o l rid) := by
  by_cases he : e = .assemblyModules
  · subst he
    intro g
    obtain ⟨g₁, hasked, hrun⟩ := storedItems_assembly (l := l) o rid g
    rw [hrun]
    exact h.asked hasked
  · have hchildren : ∀ owner, Keeps R (children l (Ownership.relation e) owner) :=
      fun owner g => h.asked (children_run g l _ owner).1
    have hshared : ∀ p, Keeps R (Ownership.sharedChild e l p) :=
      fun p g => h.asked (sharedChild_run he g l p).1
    refine (hchildren _).bind fun rids => (keeps_collect hshared _).bind fun candidates => ?_
    exact Keeps.get.bind fun g => h.adopt he _

/-- **Reading a list keeps what its steps keep**, if writing it down does. -/
theorem items (hlist : ∀ {g : Graph} {cs : List Key}, g.lists.get? (e, o) = none →
    (∀ c ∈ cs, g.Known c) → R g ((listSlot e o).publish cs g)) : Keeps R (Ownership.items e o) := by
  refine Keeps.get.bind fun g => ?_
  refine keeps_getRelaxed (keeps_fromStore fun l rid => h.storedItems rid) fun g' hempty => ?_
  refine hlist hempty fun c hc => ?_
  unfold fromStore at hc ⊢
  rw [run_get_bind] at hc ⊢
  split at hc
  · exact storedItems_known e o _ _ g' c hc
  · exact absurd hc List.not_mem_nil

end Graph.TakesOver

end CliMetadata
