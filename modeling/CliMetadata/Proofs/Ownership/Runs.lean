import CliMetadata.Graph.InMemory
import CliMetadata.Proofs.Ownership.Changes

/-!
# Runs of operations on containers

`Graph.Reaches g g'` says that `g` becomes `g'` by some sequence of actions, in any
order: entities of rows are looked up, lists and back-references are read, children are
added, inserted, moved and removed, lists are emptied, and new entities are made in
memory.  Nothing is destroyed on the way.

**An action takes entities that there are** (`Ownership.Action.Legal`).  What holds in
the first graph and is kept by every change holds in every graph that is reached, and
so does the invariant of containment (`Reaches.kept`).
-/

namespace CliMetadata

open CliMetadata.Graph Loading Stateful

namespace Ownership

/-- An operation on containers with what it is given. -/
inductive Action
  | row (e : Edge) (loader place : Nat)
  | owner (e : Edge) (child : Key)
  | items (e : Edge) (container : Node)
  | insert (e : Edge) (container : Node) (index : Nat) (child : Key)
  | add (e : Edge) (container : Node) (child : Key)
  | remove (e : Edge) (container : Node) (child : Key)
  | removeAt (e : Edge) (container : Node) (index : Nat)
  | clear (e : Edge) (container : Node)
  | reassign (e : Edge) (child : Key) (target : Option Node)

namespace Action

/-- The graph after an action. -/
def apply (g : Graph) : Action → Graph
  | row e loader place => ((sharedChild e loader place).run g).2
  | owner e child => ((Ownership.owner e child).run g).2
  | items e container => ((Ownership.items e container).run g).2
  | insert e container index child => ((Ownership.insert e container index child).run g).2
  | add e container child => ((Ownership.add e container child).run g).2
  | remove e container child => ((Ownership.remove e container child).run g).2
  | removeAt e container index => ((Ownership.removeAt e container index).run g).2
  | clear e container => ((Ownership.clear e container).run g).2
  | reassign e child target => ((Ownership.reassign e child target).run g).2

/-- The child and the container that an action is given are entities of the graph, and
of a kind that can be children and containers on the edge. -/
def Legal (g : Graph) : Action → Prop
  | row e _ _ => e ≠ .assemblyModules
  | owner e child => g.entities.contains ⟨e.childKind, child⟩
  | items e container | removeAt e container _ | clear e container => g.IsContainer e container
  | insert e container _ child | add e container child | remove e container child =>
    g.IsContainer e container ∧ g.entities.contains ⟨e.childKind, child⟩
  | reassign e child target =>
    g.entities.contains ⟨e.childKind, child⟩ ∧ ∀ o, target = some o → g.IsContainer e o

end Action
end Ownership

namespace Graph

variable {g g' g₀ : Graph}

/-- What an entity that stands for no row is made of. -/
structure InMemory (k : Kind) {ρ : Type} [Recorded k ρ] (r : ρ) : Prop where
  origin : ∀ l rid, (Recorded.pack k r).origin? ≠ some (.row l rid)
  loader : ∀ m, Recorded.pack k r = .module m → m.loader = none

/-- **The graphs that a graph becomes by actions.** -/
inductive Reaches (g₀ : Graph) : Graph → Prop
  | refl : Reaches g₀ g₀
  | make {g : Graph} (before : Reaches g₀ g) (k : Kind) {ρ : Type} [Recorded k ρ]
      [Recorded.Lawful k] {r : ρ} (inMemory : InMemory k r) : Reaches g₀ ((make k r).run g).2
  | action {g : Graph} (before : Reaches g₀ g) (act : Ownership.Action) (legal : act.Legal g) :
      Reaches g₀ (act.apply g)

/-- An action is a sequence of changes. -/
theorem Sound.apply_changes (h : g.Sound) : ∀ {act : Ownership.Action}, act.Legal g →
    g.Changes (act.apply g)
  | .row _ l p, he => sharedChild_changes he l p
  | .owner _ _, made => owner_changes made
  | .items _ _, ho => items_changes ho
  | .insert _ _ i _, ⟨ho, made⟩ => insert_changes h ho made i
  | .add _ _ _, ⟨ho, made⟩ => add_changes h ho made
  | .remove _ _ c, ⟨ho, _⟩ => remove_changes h ho c
  | .removeAt _ _ i, ho => removeAt_changes h ho i
  | .clear _ _, ho => clear_changes h ho
  | .reassign _ _ _, ⟨made, ho⟩ => reassign_changes h made ho

/-! ## New entities -/

/-- A node that is in no list and that no child is in. -/
structure Unused (g : Graph) (n : Node) : Prop where
  child : ∀ {e : Edge} {o : Node}, e.childKind = n.kind → n.key ∉ g.held e o
  container : ∀ {e : Edge} {c : Key}, g.owners.get? (e, c) ≠ some (some n)

/-- What holds of a graph holds after a node has been settled, where the steps of it
keep what holds. -/
theorem settle_induction {P : Graph → Prop} {n : Node} (h : P g)
    (owner : ∀ g e, e.childKind = n.kind → P g → P (g.setOwner e n.key none))
    (list : ∀ g e, P g → P (g.setList e n []))
    (carried : ∀ g as ss, P g → P { g with attributes := as, securities := ss }) :
    P (g.settle n) := by
  have howners : ∀ (es : List Edge) (g : Graph), (∀ e ∈ es, e.childKind = n.kind) → P g →
      P (es.foldl (fun g e => (ownerSlot e n.key).publish none g) g) := by
    intro es
    induction es with
    | nil => exact fun _ _ h => h
    | cons e es ih =>
      intro g hes h
      exact ih _ (fun e' he' => hes e' (List.mem_cons_of_mem _ he'))
        (owner g e (hes e List.mem_cons_self) h)
  have hlists : ∀ (es : List Edge) (g : Graph), P g →
      P (es.foldl (fun g e => (listSlot e n).publish [] g) g) := by
    intro es
    induction es with
    | nil => exact fun _ h => h
    | cons e es ih => exact fun g h => ih _ (list g e h)
  have hcontained := hlists (Edge.all.filter fun e => e.ownerKinds.contains n.kind) _
    (howners (Edge.all.filter fun e => e.childKind = n.kind) g
      (fun e he => of_decide_eq_true (List.mem_filter.mp he).2) h)
  have hattributes : ∀ (b : Bool) (g : Graph), P g →
      P (if b then (attributeSlot n).publish [] g else g) := by
    intro b g h
    cases b with
    | false => exact h
    | true => exact carried g _ g.securities h
  have hsecurities : ∀ (b : Bool) (g : Graph), P g →
      P (if b then (securitySlot n).publish [] g else g) := by
    intro b g h
    cases b with
    | false => exact h
    | true => exact carried g g.attributes _ h
  exact hsecurities _ _ (hattributes _ _ hcontained)

section Make

variable {k : Kind} {ρ : Type} [Recorded k ρ] {r : ρ}

/-- A new entity opens no module. -/
theorem loader?_grow (hw : g.WellMade) (hr : InMemory k r) (l : Nat) :
    (g.grow k r).loader? l = g.loader? l := by
  unfold loader?
  by_cases hn : (⟨.built g.built⟩ : Id k).node = ⟨.module, .built l⟩
  · -- a module made in memory has no loader, and none was there before
    have hnone : g.entities.get? ⟨.module, .built l⟩ = none := by
      cases hc : g.entities.get? ⟨.module, .built l⟩ with
      | none => rfl
      | some x =>
        have hmade : g.entities.contains ⟨.module, .built l⟩ := by
          rw [Index.contains, hc]
          rfl
        exact absurd hn.symm (hw.ne_fresh hmade k)
    rw [grow, put, hn, Index.get?_set_same, hnone]
    cases hp : Recorded.pack k r with
    | module m => exact hr.loader m hp
    | _ => rfl
  · rw [grow, put, Index.get?_set_other _ _ hn]

theorem unused_grow (h : g.Owned) (hw : g.WellMade) :
    (g.grow k r).Unused ⟨k, .built g.built⟩ where
  child {e o} hkind hlist := by
    have hmade := hw.owner (h.listed hlist)
    rw [hkind] at hmade
    exact hw.ne_fresh hmade k rfl
  container ho := hw.ne_fresh (h.container ho).made k rfl

theorem Unused.setOwner {n : Node} (h : g.Unused n) (e : Edge) (c : Key) :
    (g.setOwner e c none).Unused n where
  child := h.child
  container {e' c'} ho := by
    rw [owners_setOwner] at ho
    split at ho
    · cases ho
    · exact h.container ho

theorem Unused.setList {n : Node} (h : g.Unused n) (e : Edge) (o : Node) :
    (g.setList e o []).Unused n where
  child {e' o'} hkind hlist := by
    rw [held_setList] at hlist
    split at hlist
    · exact absurd hlist List.not_mem_nil
    · exact h.child hkind hlist
  container := h.container

/-- What an entity carries is of no concern to containment. -/
theorem Sound.carried (h : g.Sound) (as : Index Node (List CustomAttributeId))
    (ss : Index Node (List SecurityId)) :
    ({ g with attributes := as, securities := ss } : Graph).Sound where
  wellMade := ⟨h.wellMade.numbered, h.wellMade.row, h.wellMade.backed, h.wellMade.owner⟩
  owned :=
    { container := fun ho => (h.owned.container ho).mono id
      listed := h.owned.listed
      nodup := h.owned.nodup
      apart := fun {e e' c o} he hc => by
        have halike : g.Alike { g with attributes := as, securities := ss } :=
          ⟨fun _ => rfl, fun _ _ _ => rfl⟩
        have hnoted := h.owned.apart he hc
        rw [noted] at hnoted ⊢
        rw [halike.stored rfl]
        exact hnoted }
  numbered := h.numbered
  unambiguous := h.unambiguous

/-- Settling a node that is not used. -/
theorem settle_kept {n : Node} (h : g.Sound) (hn : g.Unused n) (made : g.entities.contains n) :
    Kept g (g.settle n) := by
  have hsettled : Kept g (g.settle n) ∧ (g.settle n).Unused n := by
    refine settle_induction (P := fun g' => Kept g g' ∧ g'.Unused n) ⟨h.changes .refl, hn⟩ ?_ ?_ ?_
    · rintro g' e hkind ⟨k, hunused⟩
      have hmade : g'.entities.contains ⟨e.childKind, n.key⟩ := hkind ▸ k.contains made
      have hforget := k.sound.change (.forget hmade fun _ => hunused.child hkind)
      exact ⟨⟨hforget.sound, k.loader, k.contains⟩, hunused.setOwner e n.key⟩
    · rintro g' e ⟨k, hunused⟩
      have howned : (g'.setList e n []).Owned := k.sound.owned.setList .nil
        (fun _ hx => absurd hx List.not_mem_nil) fun _ _ _ hx => absurd hx List.not_mem_nil
      exact ⟨.of h (k.sound.wellMade.setList e n []) howned k.loader k.contains,
        hunused.setList e n⟩
    · rintro g' as ss ⟨k, hunused⟩
      exact ⟨⟨k.sound.carried as ss, k.loader, k.contains⟩, ⟨hunused.child, hunused.container⟩⟩
  exact hsettled.1

/-- Making an entity in memory keeps the invariant, and the entity is there. -/
theorem make_kept [Recorded.Lawful k] (h : g.Sound) (hr : InMemory k r) :
    Kept g ((make k r).run g).2 ∧
      ((make k r).run g).2.entities.contains ⟨k, .built g.built⟩ := by
  have hl := loader?_grow h.wellMade hr
  have hw : (g.grow k r).WellMade :=
    h.wellMade.grow hl fun l rid ho _ => absurd ho (hr.origin l rid)
  have hgrown : Kept g (g.grow k r) := .of h hw (h.owned.grow h.wellMade hl) hl contains_grow_of
  have hmade := grow_contains g k r
  have hsettled := settle_kept hgrown.sound (unused_grow h.owned h.wellMade) hmade
  exact ⟨hgrown.trans hsettled, hsettled.contains hmade⟩

end Make

/-- **Every graph that is reached has the invariant**, where the first one has it. -/
theorem Reaches.kept (h : g₀.Sound) (k : g₀.Reaches g) : Kept g₀ g := by
  induction k with
  | refl => exact h.changes .refl
  | make _ _ inMemory ih => exact ih.trans (make_kept ih.sound inMemory).1
  | action _ act legal ih => exact ih.trans (ih.sound.changes (ih.sound.apply_changes legal))

/-- A module is made with its global type by two entities and one addition. -/
theorem Reaches.makeModule (h : g₀.Sound) (k : g₀.Reaches g) (name : Name) :
    g₀.Reaches ((CliMetadata.makeModule name).run g).2 := by
  unfold CliMetadata.makeModule makeTypeDef
  generalize globalTypeName = global
  have hmodule : InMemory .module
      (⟨0, .inMemory, name, Guid.zero, none, some [], some []⟩ : Module) :=
    ⟨fun _ _ => by rintro ⟨⟩, fun m hm => by cases hm; rfl⟩
  have htype : InMemory .typeDef
      (⟨0, .inMemory, 0, .empty, global, some none⟩ : TypeDef) :=
    ⟨fun _ _ => by rintro ⟨⟩, fun m hm => by cases hm⟩
  have hfirst := make_kept (k.kept h).sound hmodule
  have hsecond := make_kept hfirst.1.sound htype
  have hmade := (k.make .module hmodule).make .typeDef htype
  let m : Node := ⟨.module, .built g.built⟩
  let t : Key := .built ((CliMetadata.make .module (⟨0, .inMemory, name, Guid.zero, none, some [], some []⟩ :
    Module)).run g).2.built
  have hlegal : (Ownership.Action.add .moduleTypes m t).Legal _ :=
    ⟨⟨hsecond.1.contains hfirst.2, List.mem_singleton.mpr rfl⟩, hsecond.2⟩
  rw [run_bind, run_bind, run_bind]
  exact hmade.action _ hlegal

end Graph
end CliMetadata
