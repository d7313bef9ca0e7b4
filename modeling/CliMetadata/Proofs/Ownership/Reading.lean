import CliMetadata.Proofs.Ownership.BackReferences

/-!
# Reading containers leads to later graphs

Back-references and lists keep the relation `Graph.Later`, whatever the stores hold
and whatever has been done before.  The one that needs an argument is taking a child
over, which writes a back-reference that may have been written before: **it is written
only if it names no other container that exists** (`free_true`), and the one of a
private copy belongs to a number that had not been given out.
-/

namespace CliMetadata

open CliMetadata.Graph Loading Stateful

variable {g g' : Graph}

/-- What two edges that exclude each other have in common. -/
theorem rival_kind {e e' : Edge} (h : e.rival? = some e') :
    e.childKind = .typeDef ∧ e'.childKind = .typeDef ∧ e'.rival? = some e ∧ e ≠ e' ∧
      (e' = .moduleTypes ∨ e' = .nestedTypes) := by
  cases e <;> cases h <;> decide

namespace Graph.Later

/-- A back-reference is written that named no other container that exists. -/
theorem setOwner {e : Edge} {c : Key} {v : Option Node}
    (h : ∀ o, g.alive o → g.owners.get? (e, c) = some (some o) → v = some o) :
    g.Later ((ownerSlot e c).publish v g) where
  built := Nat.le_refl _
  loader _ := rfl
  alive h := h
  entity _ := .same _
  list h := h
  owner {e' c' o} _ ho hv := by
    show (g.owners.set (e, c) v).get? (e', c') = _
    rw [Index.get?_set]
    split
    · next heq =>
      cases heq
      rw [h o ho hv]
    · exact hv
  listed h _ := Or.inr h

/-- The back-reference of a new entity is written. -/
theorem setOwner_new {e : Edge} {c : Key} {v : Option Node} (h : g.Later g') (hc : ¬g.Known c) :
    g.Later ((ownerSlot e c).publish v g') where
  built := h.built
  loader := h.loader
  alive := h.alive
  entity := h.entity
  list := h.list
  owner {e' c' o} hc' ho hv := by
    have hne : (e, c) ≠ (e', c') := by
      rintro ⟨⟩
      exact hc hc'
    exact (Index.get?_set_other _ _ hne).trans (h.owner hc' ho hv)
  listed := h.listed

/-- A list is written that had not been read, of children that are known. -/
theorem setList {e : Edge} {o : Node} {cs : List Key} (h : g.lists.get? (e, o) = none)
    (hcs : ∀ c ∈ cs, g.Known c) : g.Later ((listSlot e o).publish cs g) where
  built := Nat.le_refl _
  loader _ := rfl
  alive h := h
  entity _ := .same _
  list {e' o' cs'} hl := by
    have hne : (e, o) ≠ (e', o') := by
      rintro ⟨⟩
      rw [h] at hl
      cases hl
    exact (Index.get?_set_other _ _ hne).trans hl
  owner _ _ hv := hv
  listed {e' o' cs' c} hl hc := by
    replace hl : (g.lists.set (e, o) cs).get? (e', o') = some cs' := hl
    rw [Index.get?_set] at hl
    split at hl
    · cases hl
      exact Or.inl (hcs c hc)
    · exact Or.inr hl

end Graph.Later

/-! ## Back-references -/

/-- Asking is reading. -/
theorem Graph.Asked.later {children : Node → Prop} (h : g.Asked children g') : g.Later g' where
  built := Nat.le_of_eq h.built.symm
  loader := h.loader
  alive ha := by rwa [h.alive]
  entity _ := by
    rw [h.entity]
    exact .same _
  list hl := by rwa [h.lists]
  owner _ _ hv := h.recorded hv
  listed hl _ := Or.inr (by rwa [← h.lists])

theorem keeps_typeOrMethod (loader : Nat) (index : CodedIndex) :
    Keeps Later (typeOrMethod loader index) := by
  unfold typeOrMethod
  split
  · split
    · exact (keeps_shared (by decide) _ _).bind fun _ => Keeps.pure _
    · exact (keeps_shared (by decide) _ _).bind fun _ => Keeps.pure _
    · exact Keeps.pure _
  · exact Keeps.pure _

theorem keeps_storedOwner (e : Edge) (loader rid : Nat) :
    Keeps Later (Ownership.storedOwner e loader rid) := by
  unfold Ownership.storedOwner
  cases e with
  | moduleTypes => exact (keeps_parent? _ _ _).bind fun _ => Keeps.pure _
  | nestedTypes | fields | methods | properties | events | params =>
    refine (keeps_parent? _ _ _).bind fun owner => ?_
    cases owner with
    | none => exact Keeps.pure _
    | some owner =>
      refine Keeps.ite ((keeps_shared ?_ _ _).bind fun _ => Keeps.pure _) (Keeps.pure _)
      decide
  | genericParams =>
    refine (keeps_rowAt _ _ _).bind fun row => ?_
    cases row with
    | none => exact Keeps.pure _
    | some row => exact keeps_typeOrMethod _ _
  | assemblyModules => exact Keeps.pure _

theorem keeps_owner (e : Edge) (c : Key) : Keeps Later (Ownership.owner e c) := by
  refine Keeps.get.bind fun g => ?_
  refine (keeps_getRelaxed (keeps_fromStore (keeps_storedOwner e)) fun g' hempty => ?_).bind
    fun _ => Keeps.get.bind fun _ => Keeps.pure _
  refine Later.setOwner fun o _ ho => ?_
  cases hempty.symm.trans ho

theorem keeps_claimed (e : Edge) (c : Key) : Keeps Later (Ownership.claimed e c) := by
  unfold Ownership.claimed
  split
  · exact Keeps.pure _
  · exact (keeps_owner _ _).bind fun _ => Keeps.pure _

theorem keepsAsked_claimed (e : Edge) (c : Key) :
    Keeps (Asked (· = ⟨e.childKind, c⟩)) (Ownership.claimed e c) := by
  intro g
  unfold Ownership.claimed
  cases hrival : e.rival? with
  | none => exact Asked.refl g
  | some rival =>
    have hasked := (owner_run g rival c).1
    rw [(rival_kind hrival).2.1, ← (rival_kind hrival).1] at hasked
    exact hasked

theorem keeps_free (e : Edge) (o : Node) (c : Key) : Keeps Later (Ownership.free e o c) := by
  refine (keeps_claimed e c).bind fun claimed => Keeps.ite (Keeps.pure _) ?_
  refine (keeps_owner e c).bind fun owner => ?_
  cases owner with
  | none => exact Keeps.pure _
  | some _ => exact Keeps.pure _

theorem free_eq (g : Graph) (e : Edge) (o : Node) (c : Key) :
    (Ownership.free e o c).run g =
      let claimed := (Ownership.claimed e c).run g
      let owner := (Ownership.owner e c).run claimed.2
      if claimed.1 then (false, claimed.2) else (owner.1.all fun o' => decide (o' = o), owner.2) := by
  unfold Ownership.free
  rw [run_bind]
  dsimp only
  cases ((Ownership.claimed e c).run g).1 with
  | true => rfl
  | false =>
    rw [if_neg Bool.false_ne_true, if_neg Bool.false_ne_true, run_bind]
    cases ((Ownership.owner e c).run ((Ownership.claimed e c).run g).2).1 <;> rfl

theorem keepsAsked_free (e : Edge) (o : Node) (c : Key) :
    Keeps (Asked (· = ⟨e.childKind, c⟩)) (Ownership.free e o c) := by
  intro g
  have hclaimed := keepsAsked_claimed e c g
  rw [free_eq]
  dsimp only
  split
  · exact hclaimed
  · exact hclaimed.trans (owner_run _ e c).1

/-- A child is claimed by a container of the other sort that it is noted in and that exists. -/
theorem Graph.claimed_noted {e : Edge} {c : Key} : ((Ownership.claimed e c).run g).1 = false ↔
    ∀ e', e.rival? = some e' → (g.noted e' c).filter g.alive = none := by
  unfold Ownership.claimed
  cases hrival : e.rival? with
  | none => exact iff_of_true rfl (by rintro e' ⟨⟩)
  | some rival =>
    show ((Ownership.owner rival c).run g).1.isSome = false ↔ _
    rw [(owner_run g rival c).2.1, Option.isSome_eq_false_iff, Option.isNone_iff_eq_none]
    constructor
    · rintro hnone e' ⟨⟩
      exact hnone
    · intro hall
      exact hall rival rfl

/-- A child that is found free is noted in no container that exists, but for the one it is
free for. -/
theorem Graph.free_noted {e : Edge} {o : Node} {c : Key} :
    ((Ownership.free e o c).run g).1 = true ↔
      (∀ e', e.rival? = some e' → (g.noted e' c).filter g.alive = none) ∧
        ∀ o', g.noted e c = some o' → g.alive o' → o' = o := by
  have hasked := keepsAsked_claimed e c g
  rw [free_eq, ← claimed_noted]
  dsimp only
  cases ((Ownership.claimed e c).run g).1 with
  | true => exact iff_of_false (by rintro ⟨⟩) (by rintro ⟨⟨⟩, -⟩)
  | false =>
    rw [if_neg Bool.false_ne_true, (owner_run _ e c).2.1, hasked.noted,
      show ((Ownership.claimed e c).run g).2.alive = g.alive from funext hasked.alive]
    refine Iff.trans ?_ (and_iff_right rfl).symm
    cases hv : g.noted e c with
    | none => exact iff_of_true rfl (by rintro o' ⟨⟩)
    | some o' =>
      rw [Option.filter_some]
      split
      · next halive =>
        rw [Option.all_some, decide_eq_true_iff]
        constructor
        · rintro rfl _ ⟨⟩ -
          rfl
        · intro hall
          exact hall o' rfl halive
      · next hdead =>
        refine iff_of_true rfl ?_
        rintro _ ⟨⟩ halive
        exact absurd halive hdead

/-- A child that is found free is recorded as no other container's that exists. -/
theorem free_true {e : Edge} {o : Node} {c : Key} (h : ((Ownership.free e o c).run g).1 = true)
    {o' : Node} (halive : ((Ownership.free e o c).run g).2.alive o')
    (ho : ((Ownership.free e o c).run g).2.owners.get? (e, c) = some (some o')) : o' = o := by
  rw [free_eq] at h halive ho
  dsimp only at h halive ho
  split at h
  · cases h
  · next hclaimed =>
    obtain ⟨hasked, hvalue, hrecorded⟩ := owner_run ((Ownership.claimed e c).run g).2 e c
    rw [if_neg hclaimed, hasked.alive] at halive
    rw [if_neg hclaimed, hrecorded] at ho
    rw [hvalue, Option.some.inj ho, Option.filter_some, if_pos halive] at h
    exact of_decide_eq_true h

/-! ## Lists -/

theorem keeps_sharedChild (e : Edge) (l p : Nat) : Keeps Later (Ownership.sharedChild e l p) := by
  cases e with
  | assemblyModules => exact Keeps.pure _
  | moduleTypes | nestedTypes | fields | methods | properties | events | params | genericParams =>
    exact (keeps_shared (by decide) _ _).bind fun _ => Keeps.pure _

theorem keeps_copyChild (e : Edge) (l p : Nat) : Keeps Later (Ownership.copyChild e l p) := by
  cases e with
  | assemblyModules => exact Keeps.pure _
  | moduleTypes | nestedTypes | fields | methods | properties | events | params | genericParams =>
    exact (keeps_copy (by decide) (by decide) _ _).bind fun _ => Keeps.pure _

/-- A private copy gets the next number. -/
theorem copyChild_key {e : Edge} {l p : Nat} {c : Key}
    (h : ((Ownership.copyChild e l p).run g).1 = some c) :
    c = .built g.built ∧ ((Ownership.copyChild e l p).run g).2.built = g.built + 1 := by
  have copied : ∀ (k : Kind) {ρ : Type} [Recorded k ρ],
      ((do return (← copy k l p).map (·.key) : GraphM (Option Key)).run g).1 = some c →
      c = .built g.built ∧
        ((do return (← copy k l p).map (·.key) : GraphM (Option Key)).run g).2.built =
          g.built + 1 := by
    intro k ρ _ h
    rw [run_bind] at h ⊢
    unfold copy at h ⊢
    rw [run_get_bind] at h ⊢
    cases hr : (g.store? l).bind fun s => Recorded.ofRow? k s l p with
    | none =>
      rw [hr] at h
      cases h
    | some r =>
      rw [hr] at h
      cases h
      exact ⟨rfl, rfl⟩
  cases e with
  | assemblyModules => cases h
  | moduleTypes | nestedTypes | fields | methods | properties | events | params | genericParams =>
    exact copied _ h

/-- **Taking a child over**: the child itself, or a new entity. -/
theorem takeOver_later (e : Edge) (l : Nat) (o : Node) (c : Key) (g : Graph) :
    g.Later ((Ownership.takeOver e l o c).run g).2 ∧
      ∀ x, ((Ownership.takeOver e l o c).run g).1 = some x →
        x = c ∨ ((Ownership.takeOver e l o c).run g).2.Known x := by
  have hfree := keeps_free e o c g
  unfold Ownership.takeOver
  rw [run_bind]
  cases hv : ((Ownership.free e o c).run g).1 with
  | true =>
    rw [if_pos rfl]
    refine ⟨hfree.trans (Later.setOwner fun o' halive ho => ?_), ?_⟩
    · rw [free_true hv halive ho]
    · rintro x ⟨⟩
      exact Or.inl rfl
  | false =>
    rw [if_neg Bool.false_ne_true, run_get_bind]
    let g₁ := ((Ownership.free e o c).run g).2
    cases (g₁.origin ⟨e.childKind, c⟩).rid? with
    | none =>
      refine ⟨hfree, ?_⟩
      rintro x ⟨⟩
    | some rid =>
      have hcopy := keeps_copyChild e l rid g₁
      dsimp only
      rw [run_bind]
      cases hx : ((Ownership.copyChild e l rid).run g₁).1 with
      | none =>
        refine ⟨hfree.trans hcopy, ?_⟩
        rintro x ⟨⟩
      | some copied =>
        obtain ⟨rfl, hbuilt⟩ := copyChild_key hx
        refine ⟨hfree.trans (hcopy.setOwner_new (Nat.lt_irrefl _)), ?_⟩
        rintro x ⟨⟩
        right
        show g₁.built < ((Ownership.copyChild e l rid).run g₁).2.built
        omega

theorem keeps_adopt (e : Edge) (l : Nat) (o : Node) (cs : List Key) :
    Keeps Later (Ownership.adopt e l o cs) :=
  keeps_collect (fun c g => (takeOver_later e l o c g).1) cs

/-- The first child is taken over before the others. -/
theorem adopt_cons (g : Graph) (e : Edge) (l : Nat) (o : Node) (c : Key) (cs : List Key) :
    (Ownership.adopt e l o (c :: cs)).run g =
      let first := (Ownership.takeOver e l o c).run g
      let rest := (Ownership.adopt e l o cs).run first.2
      (first.1.toList ++ rest.1, rest.2) := by
  unfold Ownership.adopt
  rw [collect, run_bind]
  dsimp only
  cases ((Ownership.takeOver e l o c).run g).1 <;> rfl

/-- What is taken over for children that are known is known. -/
theorem adopt_known {e : Edge} {l : Nat} {o : Node} : ∀ (cs : List Key) {g : Graph},
    (∀ c ∈ cs, g.Known c) → ∀ x ∈ ((Ownership.adopt e l o cs).run g).1,
      ((Ownership.adopt e l o cs).run g).2.Known x
  | [], _, _, _, hx => absurd hx List.not_mem_nil
  | c :: cs, g, hcs, x, hx => by
    obtain ⟨hlater, hvalue⟩ := takeOver_later e l o c g
    have hrest : ∀ c' ∈ cs, ((Ownership.takeOver e l o c).run g).2.Known c' := fun c' hc' =>
      (hcs c' (List.mem_cons_of_mem _ hc')).mono hlater.built
    have hknown := adopt_known (e := e) (l := l) (o := o) cs hrest
    have hbuilt := (keeps_adopt e l o cs ((Ownership.takeOver e l o c).run g).2).built
    rw [adopt_cons] at hx ⊢
    rcases List.mem_append.mp hx with hx | hx
    · rcases hvalue x (Option.mem_toList.mp hx) with rfl | hx'
      · exact (hcs x List.mem_cons_self).mono (Nat.le_trans hlater.built hbuilt)
      · exact hx'.mono hbuilt
    · exact hknown x hx

/-- What holds of each thing that is read holds of all that are collected. -/
theorem collect_all {ι β : Type} {f : ι → GraphM (Option β)} {P : β → Prop}
    (h : ∀ i g x, ((f i).run g).1 = some x → P x) : ∀ (is : List ι) (g : Graph),
    ∀ x ∈ ((collect f is).run g).1, P x
  | [], _, _, hx => absurd hx List.not_mem_nil
  | i :: is, g, x, hx => by
    rw [collect, run_bind] at hx
    cases hy : ((f i).run g).1 with
    | none =>
      rw [hy] at hx
      exact collect_all h is _ x hx
    | some y =>
      rw [hy] at hx
      rcases List.mem_cons.mp hx with rfl | hx
      · exact h i g x hy
      · exact collect_all h is _ x hx

theorem sharedChild_row {e : Edge} {l p : Nat} {c : Key}
    (h : ((Ownership.sharedChild e l p).run g).1 = some c) : c = .row l p := by
  have shared : ∀ (k : Kind) {ρ : Type} [Recorded k ρ] [Recorded.Tabled k],
      ((shared k l p).run g).1.map (·.key) = some c → c = .row l p := by
    intro k ρ _ _ h
    rw [shared_value] at h
    split at h
    · cases h
      rfl
    · cases h
  cases e with
  | assemblyModules => cases h
  | moduleTypes | nestedTypes | fields | methods | properties | events | params | genericParams =>
    exact shared _ h

theorem ordered_perm (g : Graph) (e : Edge) (cs : List Key) :
    (Ownership.ordered g e cs).Perm cs := by
  unfold Ownership.ordered
  split
  · exact sortBy_perm _ cs
  · exact .refl cs

theorem keeps_storedItems (e : Edge) (o : Node) (l rid : Nat) :
    Keeps Later (Ownership.storedItems e o l rid) := by
  refine (keeps_children _ _ _).bind fun rids => ?_
  refine (keeps_collect (keeps_sharedChild e l) _).bind fun candidates => ?_
  exact Keeps.get.bind fun g => keeps_adopt e l o _

theorem storedItems_known (e : Edge) (o : Node) (l rid : Nat) (g : Graph) :
    ∀ c ∈ ((Ownership.storedItems e o l rid).run g).1,
      ((Ownership.storedItems e o l rid).run g).2.Known c := by
  unfold Ownership.storedItems
  rw [run_bind, run_bind, run_get_bind]
  refine adopt_known _ fun c hc => ?_
  obtain ⟨p, rfl⟩ := collect_all (P := fun c => ∃ p, c = .row l p)
    (fun p _ _ h => ⟨p, sharedChild_row h⟩) _ _ c ((ordered_perm _ e _).mem_iff.mp hc)
  exact trivial

theorem keeps_items (e : Edge) (o : Node) : Keeps Later (Ownership.items e o) := by
  refine Keeps.get.bind fun g => ?_
  refine keeps_getRelaxed (keeps_fromStore (keeps_storedItems e o)) fun g' hempty => ?_
  refine Later.setList hempty fun c hc => ?_
  unfold fromStore at hc ⊢
  rw [run_get_bind] at hc ⊢
  split at hc
  · exact storedItems_known e o _ _ g' c hc
  · exact absurd hc List.not_mem_nil

/-- Once a list has been read, it is held. -/
theorem Graph.items_read (g : Graph) (e : Edge) (o : Node) :
    ((Ownership.items e o).run g).2.lists.get? (e, o) = some ((Ownership.items e o).run g).1 := by
  have hslot : ∀ cs g', (listSlot e o).peek ((listSlot e o).publish cs g') = some cs :=
    fun _ _ => Index.get?_set_same _ _ _
  exact getRelaxed_read hslot

end CliMetadata
