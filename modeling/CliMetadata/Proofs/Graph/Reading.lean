import CliMetadata.Proofs.Graph.Later

/-!
# Reading leads to later graphs

Every computation of `Loading` keeps the relation `Graph.Later`: it makes entities
of rows (`shared`), gives numbers to private copies and to what is carried
(`makeUnread`), and counts what the store has been asked for.  A slot that is read
on demand keeps it as well, as long as filling it does (`keeps_getRelaxed`).
-/

namespace CliMetadata

open CliMetadata.Graph Loading Stateful

/-! ## Entities that are made -/

section Made

variable {k : Kind} {ρ : Type} [Recorded k ρ]

/-- A number that has not been given out is given to a new entity. -/
theorem keeps_makeUnread (hk : k ≠ .module) (href : k ≠ .typeRef) (r : ρ) :
    Keeps Later (makeUnread k r) := by
  intro g
  let id : Id k := ⟨.built g.built⟩
  have hl := loader?_put (g := g) hk id r
  have hput : g.Later { g.put id r with built := g.built + 1 } := by
    refine Later.of_entities rfl rfl (Nat.le_succ _) hl (alive_put hl) fun {n} hn => ?_
    have hid : id.node ≠ n := by
      rintro rfl
      rcases hn with hknown | hkind
      · exact Nat.lt_irrefl _ hknown
      · exact href hkind
    exact (entity_put_of_ne hl hid) ▸ .same _
  exact hput

theorem keeps_copy (hk : k ≠ .module) (href : k ≠ .typeRef) (loader place : Nat) :
    Keeps Later (copy k loader place) := by
  refine Keeps.bind Keeps.get fun g => Keeps.option (Keeps.pure _) fun r => ?_
  exact Keeps.map (keeps_makeUnread hk href r)

/-- The entity of a row is looked up, or made as the row has it. -/
theorem shared_run (g : Graph) (loader place : Nat) :
    (shared k loader place).run g =
      if g.entities.contains (⟨.row loader place⟩ : Id k).node then (some ⟨.row loader place⟩, g)
      else match (g.store? loader).bind fun s => Recorded.ofRow? k s loader place with
        | none => (none, g)
        | some r => (some ⟨.row loader place⟩, g.put (⟨.row loader place⟩ : Id k) r) := by
  by_cases h : g.entities.contains (⟨.row loader place⟩ : Id k).node
  · rw [shared, run_get_bind, if_pos h, if_pos h, run_pure]
  · rw [shared, run_get_bind, if_neg h, if_neg h]
    cases (g.store? loader).bind fun s => Recorded.ofRow? k s loader place <;> rfl

/-- An entity that has not been made reads as its row has it. -/
theorem get_of_not_contains {g : Graph} {loader place : Nat} {r : ρ}
    (hc : ¬g.entities.contains (⟨.row loader place⟩ : Id k).node)
    (hr : ((g.store? loader).bind fun s => Recorded.ofRow? k s loader place) = some r) :
    g.get (⟨.row loader place⟩ : Id k) = r := by
  have hn : g.entities.get? (⟨.row loader place⟩ : Id k).node = none := by
    simpa [Index.contains] using hc
  simp only [Graph.get, hn, Option.bind_none, hr, Option.getD_some]

variable [Recorded.Lawful k]

theorem keeps_shared (hk : k ≠ .module) (loader place : Nat) :
    Keeps Later (shared k loader place) := by
  intro g
  rw [shared_run]
  split
  · exact Later.refl g
  · next hc =>
    split
    · exact Later.refl g
    · next r hr =>
      refine Later.of_put_same (loader?_put hk _ r) ?_
      rw [Recorded.Lawful.entity_node (ρ := ρ), get_of_not_contains hc hr]

end Made

/-! ## Slots -/

variable {α : Type}

theorem keeps_fromStore {R : Graph → Graph → Prop} [IsPreorder Graph R] {origin : Origin}
    {absent : α} {compute : Nat → Nat → GraphM α}
    (hc : ∀ loader rid, Keeps R (compute loader rid)) :
    Keeps R (fromStore origin absent compute) := by
  refine Keeps.bind Keeps.get fun g => ?_
  split
  · exact hc _ _
  · exact Keeps.pure _

section Slots

variable {σ : Type} {slot : SlotIn σ α} {compute : StateM σ α} {s : σ}

/-- A slot that holds something is read without a computation. -/
theorem getRelaxed_held {v : α} (h : slot.peek s = some v) :
    (slot.getRelaxed compute).run s = (v, s) := by
  rw [SlotIn.getRelaxed, run_get_bind, h]
  rfl

theorem publishFirst_held {v w : α} (h : slot.peek s = some v) :
    (slot.publishFirst w).run s = (v, s) := by
  simp only [SlotIn.publishFirst, StateT.run, h]

theorem publishFirst_empty {w : α} (h : slot.peek s = none) :
    (slot.publishFirst w).run s = (w, slot.publish w s) := by
  simp only [SlotIn.publishFirst, StateT.run, h]

/-- A slot that holds nothing, nor after the computation, holds what was computed. -/
theorem getRelaxed_empty (h : slot.peek s = none) (hc : slot.peek (compute.run s).2 = none) :
    (slot.getRelaxed compute).run s =
      ((compute.run s).1, slot.publish (compute.run s).1 (compute.run s).2) := by
  rw [SlotIn.getRelaxed, run_get_bind, h]
  exact publishFirst_empty hc

/-- A slot that is filled by the computation keeps what it was filled with. -/
theorem getRelaxed_filled {v : α} (h : slot.peek s = none)
    (hc : slot.peek (compute.run s).2 = some v) :
    (slot.getRelaxed compute).run s = (v, (compute.run s).2) := by
  rw [SlotIn.getRelaxed, run_get_bind, h]
  exact publishFirst_held hc

/-- Once a slot has been read, it holds what was read. -/
theorem getRelaxed_read (hslot : ∀ v s, slot.peek (slot.publish v s) = some v) :
    slot.peek ((slot.getRelaxed compute).run s).2 =
      some ((slot.getRelaxed compute).run s).1 := by
  cases h : slot.peek s with
  | some v =>
    rw [getRelaxed_held h]
    exact h
  | none =>
    cases hc : slot.peek (compute.run s).2 with
    | some v =>
      rw [getRelaxed_filled h hc]
      exact hc
    | none =>
      rw [getRelaxed_empty h hc]
      exact hslot _ _

end Slots

/-- Reading a slot, where what is computed may be published. -/
theorem keeps_getRelaxed {R : Graph → Graph → Prop} [IsPreorder Graph R] {slot : SlotIn Graph α}
    {compute : GraphM α} (hc : Keeps R compute)
    (hp : ∀ g, slot.peek (compute.run g).2 = none →
      R (compute.run g).2 (slot.publish (compute.run g).1 (compute.run g).2)) :
    Keeps R (slot.getRelaxed compute) := by
  intro g
  cases h : slot.peek g with
  | some v =>
    rw [getRelaxed_held h]
    exact refl_of R g
  | none =>
    cases hv : slot.peek (compute.run g).2 with
    | some v =>
      rw [getRelaxed_filled h hv]
      exact hc g
    | none =>
      rw [getRelaxed_empty h hv]
      exact trans_of R (hc g) (hp g hv)

theorem keeps_readSlot {R : Graph → Graph → Prop} [IsPreorder Graph R] {k : Kind} {ρ : Type}
    [Recorded k ρ] {id : Id k} {slot : SlotIn Graph α} {absent : α} {compute : Nat → Nat → GraphM α}
    (hc : ∀ loader rid, Keeps R (compute loader rid))
    (hp : ∀ g v, slot.peek g = none → R g (slot.publish v g)) :
    Keeps R (readSlot id slot absent compute) :=
  Keeps.bind Keeps.get fun _ =>
    keeps_getRelaxed (keeps_fromStore hc) fun _ h => hp _ _ h

/-! ## Rows and relations -/

section Rows

variable (g : Graph) (loader : Nat)

theorem rowAt_run (table : Store → List α) (rid : Nat) :
    (rowAt table loader rid).run g =
      ((g.store? loader).bind fun s => Store.nth (table s) rid, g) := rfl

theorem parent?_run (relation : Relation) (child : Token) :
    (parent? loader relation child).run g =
      ((g.store? loader).bind fun s => s.parent? relation child, g) := rfl

end Rows

theorem keeps_rowAt (table : Store → List α) (loader rid : Nat) :
    Keeps Later (rowAt table loader rid) := Keeps.bind Keeps.get fun _ => Keeps.pure _

theorem keeps_children (loader : Nat) (relation : Relation) (owner : Token) :
    Keeps Later (children loader relation owner) := by
  refine Keeps.bind (fun g => ?_) fun _ => Keeps.bind Keeps.get fun _ => Keeps.pure _
  exact Later.of_eq rfl rfl rfl rfl

theorem keeps_parent? (loader : Nat) (relation : Relation) (child : Token) :
    Keeps Later (parent? loader relation child) := Keeps.bind Keeps.get fun _ => Keeps.pure _

/-- What is collected is of the sort that what is collected from each entry is of. -/
theorem Sequential.collect {C : (α : Type) → GraphM α → Prop} (hC : Sequential C) {ι β : Type}
    {f : ι → GraphM (Option β)} (hf : ∀ i, C _ (f i)) : ∀ is : List ι, C _ (collect f is)
  | [] => hC.pure _
  | i :: is => by
    refine hC.bind (hf i) fun x => ?_
    cases x with
    | none => exact Sequential.collect hC hf is
    | some x => exact hC.bind (Sequential.collect hC hf is) fun _ => hC.pure _

theorem keeps_collect {ι β : Type} {R : Graph → Graph → Prop} [IsPreorder Graph R]
    {f : ι → GraphM (Option β)} (hf : ∀ i, Keeps R (f i)) (is : List ι) : Keeps R (collect f is) :=
  Keeps.sequential.collect hf is

/-! ## Signatures -/

namespace Sequential

variable {C : (α : Type) → GraphM α → Prop} (hC : Sequential C) {ρ σ : Type}
  {f : ρ → OptionT GraphM σ}

include hC

/-- What comes after a part that may be missing. -/
theorem optional {α β : Type} {x : OptionT GraphM α} {f : α → OptionT GraphM β} (hx : C _ x.run)
    (hf : ∀ a, C _ (f a).run) : C _ (x >>= f).run := by
  rw [OptionT.run_bind]
  refine hC.bind hx fun a => ?_
  cases a with
  | none => exact hC.pure _
  | some a => exact hf a

/-- A whole that is put together. -/
theorem whole {α : Type} (a : α) : C _ (Pure.pure a : OptionT GraphM α).run := hC.pure (some a)

mutual

/-- A traversal is of the sort that going to the references is of. -/
theorem traverse (hf : ∀ x, C _ (f x).run) : ∀ t : TypeSig ρ, C _ (t.traverse f).run
  | .leaf _ | .param _ _ => by
    rw [TypeSig.traverse]
    exact hC.whole _
  | .named _ x => by
    rw [TypeSig.traverse]
    exact hC.optional (hf x) fun _ => hC.whole _
  | .wrap _ t => by
    rw [TypeSig.traverse]
    exact hC.optional (traverse hf t) fun _ => hC.whole _
  | .modified _ x t => by
    rw [TypeSig.traverse]
    exact hC.optional (hf x) fun _ => hC.optional (traverse hf t) fun _ => hC.whole _
  | .inst t ts => by
    rw [TypeSig.traverse]
    exact hC.optional (traverse hf t) fun _ => hC.optional (traverseAll hf ts) fun _ => hC.whole _
  | .fnPtr _ t ps vs => by
    rw [TypeSig.traverse]
    exact hC.optional (traverse hf t) fun _ => hC.optional (traverseAll hf ps) fun _ =>
      hC.optional (traverseAll hf vs) fun _ => hC.whole _

/-- So are several. -/
theorem traverseAll (hf : ∀ x, C _ (f x).run) :
    ∀ ts : List (TypeSig ρ), C _ (TypeSig.traverseAll f ts).run
  | [] => by
    rw [TypeSig.traverseAll]
    exact hC.whole _
  | t :: ts => by
    rw [TypeSig.traverseAll]
    exact hC.optional (traverse hf t) fun _ => hC.optional (traverseAll hf ts) fun _ => hC.whole _

end

theorem signatureTraverse (hf : ∀ x, C _ (f x).run) : ∀ s : Signature ρ, C _ (s.traverse f).run
  | .field t => hC.optional (hC.traverse hf t) fun _ => hC.whole _
  | .method m => by
    refine hC.optional ?_ fun _ => hC.whole _
    exact hC.optional (hC.traverse hf m.returnType) fun _ =>
      hC.optional (hC.traverseAll hf m.params) fun _ =>
        hC.optional (hC.traverseAll hf m.varargs) fun _ => hC.whole _
  | .property p => by
    refine hC.optional ?_ fun _ => hC.whole _
    exact hC.optional (hC.traverse hf p.base) fun _ =>
      hC.optional (hC.traverseAll hf p.params) fun _ => hC.whole _
  | .locals ts | .instantiation ts =>
    hC.optional (hC.traverseAll hf ts) fun _ => hC.whole _

end Sequential

end CliMetadata
