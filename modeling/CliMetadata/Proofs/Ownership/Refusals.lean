import CliMetadata.Proofs.Ownership.Agreeing
import CliMetadata.Proofs.Ownership.Nesting

/-!
# Refused changes

A container that refuses a child says so after it has read its own list and where the child is.
Where lists and back-references agree this moves nothing, so **after a refusal every list and every
back-reference reads as before** (`Agreeing.unchanged_of_refused`).

Moving a child takes it out of its container before it is added to another one, and is refused only
before that.  A child that has just been taken out is in no container, of either sort, and reading
the list of the new container cannot put it into another one (`free_after_read`).
-/

namespace CliMetadata
namespace Graph

open CliMetadata.Graph Loading Stateful

variable {g g' : Graph} {e : Edge} {o : Node} {c : Key} {refusal : OwnershipError}

/-! ## Refusals -/

/-- A child is refused after reading alone. -/
theorem insert_refused {i : Nat} (h : ((Ownership.insert e o i c).run g).1 = .error refusal) :
    ((Ownership.insert e o i c).run g).2 = g ∨ ((Ownership.insert e o i c).run g).2 =
      ((Ownership.refusal? e o c).run ((Ownership.items e o).run g).2).2 := by
  unfold Ownership.insert at h ⊢
  rw [run_get_bind] at h ⊢
  cases halive : g.alive o with
  | false => exact .inl rfl
  | true =>
    right
    rw [halive, if_neg (by decide), run_bind, run_bind] at h
    rw [if_neg (by decide), run_bind, run_bind]
    cases hr : ((Ownership.refusal? e o c).run ((Ownership.items e o).run g).2).1 with
    | some refusal => rfl
    | none =>
      rw [hr] at h
      dsimp only at h
      split at h
      · cases h
      · cases h

/-- A child that is found free after the list has been read is not refused. -/
theorem add_accepted (halive : g.alive o)
    (hfree : ((Ownership.free e o c).run ((Ownership.items e o).run g).2).1 = true) :
    ((Ownership.add e o c).run g).1 = .ok () := by
  let read := (Ownership.items e o).run g
  have hread : read.2.alive o := (keeps_items e o g).alive halive
  have hagain : (Ownership.items e o).run read.2 = (read.1, read.2) := items_held (items_read g e o)
  have hnone := (refusal_free (g := read.2) e o c).2.mpr hfree
  rw [add_run halive]
  unfold Ownership.insert
  rw [run_get_bind, hread, if_neg (by decide), run_bind, hagain, run_bind, hnone]
  dsimp only
  split
  · rfl
  · rfl

/-! ## A child that is in no container -/

/-- A child that is free is found free. -/
theorem Free.found (h : g.Free e o c) : ((Ownership.free e o c).run g).1 = true := by
  refine free_noted.mpr ⟨fun e' hrival => ?_, fun o' ho _ => h.2 o' ho⟩
  rw [h.1 e' hrival]
  rfl

/-- A child that is known stays free for a container. -/
def StaysFree (e : Edge) (o : Node) (c : Key) (g g' : Graph) : Prop :=
  g.Known c → g'.Known c ∧ (g.Free e o c → g'.Free e o c)

namespace StaysFree

instance : IsPreorder Graph (StaysFree e o c) where
  refl _ hc := ⟨hc, id⟩
  trans _ _ _ h k hc := ⟨(k (h hc).1).1, fun hf => (k (h hc).1).2 ((h hc).2 hf)⟩

/-- Another child of the sort becomes the container's, or this one. -/
theorem of_setOwner (x : Key) : StaysFree e o c g (g.setOwner e x (some o)) := by
  refine fun hc => ⟨hc, fun hf => ⟨fun e' hrival => ?_, fun o' ho => ?_⟩⟩
  · have hne : (e, x) ≠ (e', c) := fun heq => (rival_kind hrival).2.2.2.1 (Prod.mk.inj heq).1
    rw [noted_setOwner, if_neg hne]
    exact hf.1 e' hrival
  · rw [noted_setOwner] at ho
    split at ho
    · exact (Option.some.inj ho).symm
    · exact hf.2 o' ho

/-- A new entity is made. -/
theorem of_grow {k : Kind} {ρ : Type} [Recorded k ρ] {r : ρ}
    (hl : ∀ l, (g.grow k r).loader? l = g.loader? l) : StaysFree e o c g (g.grow k r) := by
  refine fun hc => ⟨hc.mono (Nat.le_succ _), fun hf => ?_⟩
  have hother : ∀ e', (g.grow k r).noted e' c = g.noted e' c := by
    refine fun e' => noted_grow hl ?_
    rintro ⟨⟩
    exact Nat.lt_irrefl _ hc
  refine ⟨fun e' hrival => (hother e').trans (hf.1 e' hrival), fun o' ho => ?_⟩
  exact hf.2 o' ((hother e).symm.trans ho)

theorem of_setList (cs : List Key) : StaysFree e o c g (g.setList e o cs) := by
  refine fun hc => ⟨hc, fun hf => ⟨fun e' hrival => ?_, fun o' ho => ?_⟩⟩
  · exact (noted_setList g e e' o c cs).trans (hf.1 e' hrival)
  · exact hf.2 o' ((noted_setList g e e o c cs).symm.trans ho)

theorem takesOver (e : Edge) (o : Node) (c : Key) : TakesOver e o (StaysFree e o c) where
  asked ha hc := ⟨hc.mono (Nat.le_of_eq ha.built.symm), fun hf => hf.asked ha⟩
  take _ _ := of_setOwner _
  copy {g k ρ _ r} he hk := by
    have hl : ∀ l, (g.grow k r).loader? l = g.loader? l := by
      refine loader?_put ?_ _ r
      subst hk
      cases e <;> first | exact absurd rfl he | decide
    exact trans_of (StaysFree e o c) (of_grow hl) (of_setOwner _)

end StaysFree

/-- **Reading the list of a container leaves what is free for it free**, whatever else the list
takes over. -/
theorem free_after_read (hknown : g.Known c) (h : g.Free e o c) :
    ((Ownership.items e o).run g).2.Free e o c :=
  ((StaysFree.takesOver e o c).items (fun _ _ => StaysFree.of_setList _) g hknown).2 h

/-! ## What a refusal leaves -/

section Tidy

variable (h : g.Tidy) (ho : o.kind ∈ e.ownerKinds)
include h ho

/-- A refused insertion has moved nothing. -/
theorem Tidy.insert_refused {i : Nat}
    (hr : ((Ownership.insert e o i c).run g).1 = .error refusal) :
    g.Still ((Ownership.insert e o i c).run g).2 := by
  rcases Graph.insert_refused hr with hsame | hread
  · rw [hsame]
    exact refl_of Still g
  · obtain ⟨g', hitems, hstill⟩ := h.items_run ho
    rw [hread, hitems, (refusal_free e o c).1]
    exact trans_of Still hstill (.of_asked (keepsAsked_free e o c g'))

/-- Neither has a refused addition. -/
theorem Tidy.add_refused (hr : ((Ownership.add e o c).run g).1 = .error refusal) :
    g.Still ((Ownership.add e o c).run g).2 := by
  cases halive : g.alive o with
  | false =>
    unfold Ownership.add
    rw [run_get_bind, halive]
    exact refl_of Still g
  | true =>
    obtain ⟨g', hitems, hstill⟩ := h.items_run ho
    rw [add_run halive, hitems] at hr ⊢
    exact trans_of Still hstill ((hstill.tidy h).insert_refused ho hr)

end Tidy

/-- What has been made is known. -/
theorem WellMade.known (h : g.WellMade) {k : Kind} (made : g.entities.contains ⟨k, c⟩) :
    g.Known c := by
  cases c with
  | built n => exact h.numbered made
  | row => exact trivial

/-- Where a child has a container, nothing is noted of one of the other sort. -/
theorem Agreeing.unnoted (h : g.Agreeing) (hc : g.container e c = some o) {e' : Edge}
    (hrival : e.rival? = some e') : g.noted e' c = none := by
  have hnone := h.unclaimed hc hrival
  cases hw : g.noted e' c with
  | none => rfl
  | some w =>
    rw [container_eq, hw, Option.filter_some, if_pos (h.names hw).2] at hnone
    cases hnone

/-- **A child that has been taken out of its container is not refused by another one.** -/
theorem Agreeing.move_accepted (h : g.Agreeing) (made : g.entities.contains ⟨e.childKind, c⟩)
    {o' : Node} (hc : g.container e c = some o') (halive : g.alive o) :
    ((Ownership.add e o c).run (((Ownership.owner e c).run g).2.leave e c (some o'))).1 = .ok () := by
  let g₁ := ((Ownership.owner e c).run g).2
  have hkind := (h.names (noted_of_container hc)).1
  have hasked : g.Asked (· = ⟨e.childKind, c⟩) g₁ := (owner_run g e c).1
  have hread : g.Still g₁ := .of_asked hasked
  have htidy : g₁.Tidy := hread.tidy h.tidy
  obtain ⟨g₂, hitems, hstill⟩ := htidy.items_run hkind
  have hlisted : c ∈ g₁.listing e o' := by
    rw [← htidy.contents_eq hkind, hread.contents h.tidy hkind]
    exact h.listed made hc
  let left := (g₂.setList e o' ((g₁.listing e o').erase c)).setOwner e c none
  have hleft : g₁.leave e c (some o') = left := by
    rw [leave, remove_run, hitems, if_pos hlisted, if_pos hlisted]
  have hlater : g.Later g₂ := hasked.later.trans ((keeps_items e o').result hitems)
  have hknown : left.Known c := (h.wellMade.known made).mono hlater.built
  have hfree : left.Free e o c := by
    refine ⟨fun e' hrival => ?_, fun w hw => ?_⟩
    · have hne : (e, c) ≠ (e', c) := fun heq => (rival_kind hrival).2.2.2.1 (Prod.mk.inj heq).1
      rw [noted_setOwner, if_neg hne, noted_setList, hstill.noted, hread.noted]
      exact h.unnoted hc hrival
    · rw [noted_setOwner, if_pos rfl] at hw
      cases hw
  rw [hleft]
  have hexists : left.alive o := hlater.alive halive
  exact add_accepted hexists (free_after_read hknown hfree).found

/-- **Moving a child is refused before anything has been moved.** -/
theorem Agreeing.reassign_refused (h : g.Agreeing) (made : g.entities.contains ⟨e.childKind, c⟩)
    {target : Option Node} (htarget : ∀ o ∈ target, o.kind ∈ e.ownerKinds ∧ g.alive o)
    (hr : ((Ownership.reassign e c target).run g).1 = .error refusal) :
    g.Still ((Ownership.reassign e c target).run g).2 := by
  have hread : g.Still ((Ownership.owner e c).run g).2 := .of_asked (owner_run g e c).1
  rw [reassign_run] at hr ⊢
  split at hr
  · cases hr
  · next hmoved =>
    rw [if_neg hmoved]
    cases target with
    | none => cases hr
    | some o =>
      obtain ⟨hkind, halive⟩ := htarget o rfl
      dsimp only at hr ⊢
      cases hc : ((Ownership.owner e c).run g).1 with
      | none =>
        rw [hc] at hr
        exact trans_of Still hread ((hread.tidy h.tidy).add_refused hkind hr)
      | some o' =>
        rw [hc, h.move_accepted made hc halive] at hr
        cases hr

/-- Every list, with its order, and every back-reference reads as before. -/
def SameContainment (g g' : Graph) : Prop :=
  (∀ (e : Edge) (o : Node), o.kind ∈ e.ownerKinds → g'.contents e o = g.contents e o) ∧
    ∀ (e : Edge) (c : Key), g'.container e c = g.container e c

theorem Still.sameContainment (h : g.Still g') (ht : g.Tidy) : g.SameContainment g' :=
  ⟨fun _ _ => h.contents ht, h.container ht⟩

/-- **A refused change leaves all containment as it was.**  Let lists and back-references agree.
When a child is refused that was to be inserted into a list, to be added to it or to be moved to a
container that exists, every list holds what it held, in the same order, and every child is in the
container that it was in. -/
theorem Agreeing.unchanged_of_refused (h : g.Agreeing) :
    (∀ (e : Edge) (o : Node) (i : Nat) (c : Key) (refusal : OwnershipError),
      o.kind ∈ e.ownerKinds → ((Ownership.insert e o i c).run g).1 = .error refusal →
        g.SameContainment ((Ownership.insert e o i c).run g).2) ∧
    (∀ (e : Edge) (o : Node) (c : Key) (refusal : OwnershipError),
      o.kind ∈ e.ownerKinds → ((Ownership.add e o c).run g).1 = .error refusal →
        g.SameContainment ((Ownership.add e o c).run g).2) ∧
    ∀ (e : Edge) (c : Key) (target : Option Node) (refusal : OwnershipError),
      g.entities.contains ⟨e.childKind, c⟩ →
        (∀ o ∈ target, o.kind ∈ e.ownerKinds ∧ g.alive o) →
          ((Ownership.reassign e c target).run g).1 = .error refusal →
            g.SameContainment ((Ownership.reassign e c target).run g).2 := by
  have htidy := h.tidy
  refine ⟨fun e o i c refusal ho hr => ?_, fun e o c refusal ho hr => ?_,
    fun e c target refusal made htarget hr => ?_⟩
  · exact (htidy.insert_refused ho hr).sameContainment htidy
  · exact (htidy.add_refused ho hr).sameContainment htidy
  · exact (h.reassign_refused made htarget hr).sameContainment htidy

/-- A nested type that is put into the module is refused, and so are a type of the module that is to
be nested in another and one that is added to it. -/
theorem unchanged_nestedModule :
    let insertion := (Ownership.insert .moduleTypes ⟨.module, .built 0⟩ 0 (.built 3)).run nestedModule
    let addition := (Ownership.add .nestedTypes ⟨.typeDef, .built 4⟩ (.built 3)).run nestedModule
    let move := (Ownership.reassign .nestedTypes (.built 2) (some ⟨.typeDef, .built 4⟩)).run nestedModule
    nestedModule.Agreeing ∧
      (insertion.1 = .error (.otherSort "type") ∧ nestedModule.SameContainment insertion.2) ∧
      (addition.1 = .error (.otherContainer "nested type") ∧
        nestedModule.SameContainment addition.2) ∧
      move.1 = .error (.otherSort "nested type") ∧ nestedModule.SameContainment move.2 := by
  intro insertion addition move
  have hagreeing := nestedModule_reached.agreeing
  have hinsertion : insertion.1 = .error (.otherSort "type") := rfl
  have haddition : addition.1 = .error (.otherContainer "nested type") := rfl
  have hmove : move.1 = .error (.otherSort "nested type") := rfl
  have htarget : ∀ o ∈ some (⟨.typeDef, .built 4⟩ : Node),
      o.kind ∈ Edge.nestedTypes.ownerKinds ∧ nestedModule.alive o := by
    rintro _ ⟨⟩
    decide +kernel
  obtain ⟨hinserted, hadded, hmoved⟩ := hagreeing.unchanged_of_refused
  exact ⟨hagreeing, ⟨hinsertion, hinserted _ _ _ _ _ (by decide) hinsertion⟩,
    ⟨haddition, hadded _ _ _ _ (by decide) haddition⟩, hmove,
    hmoved _ _ _ _ (by decide +kernel) htarget hmove⟩

end Graph
end CliMetadata
