import CliMetadata.Graph.InMemory
import CliMetadata.Proofs.Graph.References
import CliMetadata.Proofs.Graph.Whole
import CliMetadata.Proofs.Ownership.Invariant

/-!
# Graphs that references are made in

A projection reads scopes and signatures and makes new references in between.  `Graph.Grown g g'`
says that `g'` is `g` after some of both: **what was there reads as before**, and the entities that
are there now and were not have been given numbers of their own.  What an entity of a row or
number that is not there reads as may change, since it may be made; so `Graph.Prepared` asks
that a graph is whole and has given out its numbers in order.  Then whatever is referred to is
there, and a new entity takes the place of none.  A module that has just been opened is prepared
(`Store.loaded_prepared`), and so is what operations on containers lead to
(`Graph.Reaches.prepared`).

`Graph.Grows g x P` says that the computation `x` makes `g` grow and that its result has the
property `P` in the graph that it leads to.
-/

namespace CliMetadata

open CliMetadata.Graph Loading Stateful

/-! ## Numbers are given out in order -/

/-- No number is taken back. -/
def Graph.Counted (g g' : Graph) : Prop := g.built ≤ g'.built

instance : IsPreorder Graph Graph.Counted where
  refl g := Nat.le_refl g.built
  trans _ _ _ := Nat.le_trans

theorem Keeps.counted {α : Type} {x : GraphM α} (h : Keeps Later x) : Keeps Counted x :=
  fun g => (h g).built

theorem counted_shared {k : Kind} {ρ : Type} [Recorded k ρ] [Recorded.Rowed k]
    (loader place : Nat) : Keeps Counted (shared k loader place) := fun g =>
  have hasked : Graph.Asked (fun _ => False) g ((shared k loader place).run g).2 :=
    keepsAsked_shared loader place g
  Nat.le_of_eq hasked.built.symm

theorem counted_typeDefOrRef (loader : Nat) (index : CodedIndex) :
    Keeps Counted (typeDefOrRef loader index) := by
  unfold typeDefOrRef
  split
  · split
    · exact (counted_shared _ _).bind fun _ => Keeps.pure _
    · exact (counted_shared _ _).bind fun _ => Keeps.pure _
    · exact (counted_shared _ _).bind fun _ => Keeps.pure _
    · exact Keeps.pure _
  · exact Keeps.pure _

theorem counted_memberParent (loader : Nat) (index : CodedIndex) :
    Keeps Counted (memberParent loader index) := by
  unfold memberParent
  split
  · split
    · exact (counted_shared _ _).bind fun _ => Keeps.pure _
    · exact (counted_shared _ _).bind fun _ => Keeps.pure _
    · exact (counted_shared _ _).bind fun _ => Keeps.pure _
    · exact (keeps_moduleRef _ _).counted.bind fun _ => Keeps.pure _
    · exact (counted_shared _ _).bind fun _ => Keeps.pure _
    · exact Keeps.pure _
  · exact Keeps.pure _

theorem counted_typeSig (loader index : Nat) : Keeps Counted (typeSig loader index) := by
  refine Keeps.bind (fun g => Nat.le_refl g.built) fun _ => Keeps.get.bind fun g => ?_
  split
  · exact Keeps.sequential.traverse (fun token => counted_typeDefOrRef loader (.ofToken token)) _
  · exact Keeps.pure _

theorem counted_signature (loader index : Nat) : Keeps Counted (signature loader index) := by
  refine Keeps.bind (fun g => Nat.le_refl g.built) fun _ => Keeps.get.bind fun g => ?_
  split
  · exact Keeps.sequential.signatureTraverse (fun token => counted_typeDefOrRef loader (.ofToken token)) _
  · exact Keeps.pure _

/-- Filling a slot gives out no number. -/
theorem LazySlot.counted {k : Kind} {ρ : Type} [Recorded k ρ] {α : Type} {z : LazySlot k α}
    (hz : ∀ loader rid, Keeps Counted (z.compute loader rid)) (id : Id k) :
    Keeps Counted (z.read id) :=
  keeps_readSlot hz fun g _ _ => Nat.le_refl g.built

/-! ## The slots of references to members -/

/-- The types that a parent is. -/
def MemberParent.refs : Option MemberParent → List TypeDefOrRef
  | some (.typeDef t) => [.typeDef t]
  | some (.typeRef r) => [.typeRef r]
  | some (.typeSpec s) => [.typeSpec s]
  | _ => []

/-- The parent that a coded index refers to is there. -/
theorem fromStores_memberParent (g : Graph) (loader : Nat) (index : CodedIndex) :
    ∃ v, g.FromStores (memberParent loader index) v ∧
      ∀ t ∈ MemberParent.refs v, g.present t.node := by
  have typed : ∀ {k : Kind} {ρ : Type} [Recorded k ρ] [Recorded.Rowed k] (make : Id k → MemberParent)
      (type : Id k → TypeDefOrRef), (∀ id, MemberParent.refs (some (make id)) = [type id]) →
      (∀ id, (type id).node = id.node) → ∃ v, g.FromStores
        (do return (← shared k loader index.row).map make : GraphM (Option MemberParent)) v ∧
        ∀ t ∈ MemberParent.refs v, g.present t.node := by
    intro k ρ _ _ make type hrefs hnode
    refine ⟨_, (fromStores_shared _ _).bind (.pure _), fun t ht => ?_⟩
    split at ht
    · next hp =>
      rw [Option.map_some, hrefs, List.mem_singleton] at ht
      rw [ht, hnode]
      exact hp
    · cases ht
  unfold memberParent
  split
  · split
    · exact typed .typeDef .typeDef (fun _ => rfl) fun _ => rfl
    · exact typed .typeRef .typeRef (fun _ => rfl) fun _ => rfl
    · exact typed .typeSpec .typeSpec (fun _ => rfl) fun _ => rfl
    · refine ⟨_, (fromStores_sharedWithAttributes (by decide) _ _ _).bind (.pure _), fun t ht => ?_⟩
      split at ht <;> cases ht
    · refine ⟨_, (fromStores_shared _ _).bind (.pure _), fun t ht => ?_⟩
      split at ht <;> cases ht
    · exact ⟨_, .pure _, by simp [MemberParent.refs]⟩
  · exact ⟨_, .pure _, by simp [MemberParent.refs]⟩

theorem Kind.memberRef_ne_module : Kind.memberRef ≠ .module := nofun

theorem Kind.memberRef_ne_customAttribute : Kind.memberRef ≠ .customAttribute := nofun

/-- The slot of the parent of a reference to a member. -/
def MemberRefId.lazyParent : LazySlot .memberRef (Option MemberParent) where
  get := (·.parent)
  set v e := { e with parent := v }
  absent := none
  compute loader rid := do
    match ← rowAt (·.memberRefs) loader rid with
    | none => return none
    | some row => memberParent loader row.parent
  refs := MemberParent.refs
  get_set _ _ := rfl
  set_set _ _ _ := rfl
  origin_set _ _ := rfl
  get_ofRow _ _ _ _ h := by
    obtain ⟨_, _, rfl⟩ := Option.map_eq_some_iff.mp h
    rfl
  get_blank := rfl
  ne_module := Kind.memberRef_ne_module
  ne_customAttribute := Kind.memberRef_ne_customAttribute
  refs_absent := rfl
  told g loader rid := by
    have hrow := fromStores_rowAt (g := g) (·.memberRefs) loader rid
    cases hstored : (g.store? loader).bind fun s => Store.nth s.memberRefs rid with
    | none =>
      rw [hstored] at hrow
      exact ⟨none, hrow.bind (.pure _), by simp [MemberParent.refs]⟩
    | some row =>
      rw [hstored] at hrow
      obtain ⟨v, hv, hpresent⟩ := fromStores_memberParent g loader row.parent
      exact ⟨v, hrow.bind hv, hpresent⟩

namespace LazySlot

variable {k : Kind} {ρ : Type} [Recorded k ρ] [Recorded.Lawful k] {α β : Type} (z : LazySlot k α)
  (w : LazySlot k β) {g g' : Graph} {id : Id k}

/-- A slot with the same contents reads the same where the same is read from rows. -/
theorem value_of_slot (h : g.Alike g') (hget : z.get (g'.get id) = z.get (g.get id))
    (horigin : g'.origin id.node = g.origin id.node) : z.value g' id = z.value g id := by
  cases hv : z.get (g.get id) with
  | some v => rw [z.value_held hv, z.value_held (hget.trans hv)]
  | none =>
    have hstored : z.stored g' id = z.stored g id := by
      unfold stored
      rw [horigin]
    obtain ⟨v, hv', -⟩ := z.told_stored g id
    rw [z.value_empty hv, z.value_empty (hget.trans hv), hstored]
    exact hv'.congr h

/-- Filling a slot leaves what all slots of the entities of a kind read as. -/
theorem value_read (hw : ∀ v r, w.get (z.set v r) = w.get r) (hp : g.present id.node)
    (other : Id k) : w.value ((z.read id).run g).2 other = w.value g other := by
  cases hv : z.get (g.get id) with
  | some v => rw [z.run_held hv]
  | none =>
    obtain ⟨v, htold, -⟩ := z.told_stored g id
    have hquiet := htold.quiet
    have hentity : ∀ i : Id k, ((z.stored g id).run g).2.entity i.node = g.entity i.node :=
      fun _ => hquiet.entity z.ne_customAttribute
    rw [z.run_empty hv]
    generalize ((z.stored g id).run g).1 = v
    generalize ((z.stored g id).run g).2 = g₁ at hquiet hentity
    have hl := loader?_put (g := g₁) z.ne_module id (z.set (some v) (g₁.get id))
    have halike : g₁.Alike (g₁.update id (z.set (some v))) :=
      .of_put hl ((hquiet.present z.ne_customAttribute).trans hp)
    have hsame : w.value (g₁.update id (z.set (some v))) other = w.value g₁ other := by
      by_cases hid : id.node = other.node
      · obtain rfl : id = other := Id.node_inj hid
        have hget : (g₁.update id (z.set (some v))).get id = z.set (some v) (g₁.get id) :=
          get_put id _
        refine w.value_of_slot halike (by rw [hget, hw]) ?_
        unfold origin
        rw [Recorded.Lawful.entity_node (ρ := ρ), Recorded.Lawful.entity_node (ρ := ρ), hget,
          z.origin_set]
      · exact w.value_congr halike (entity_put_of_ne hl hid)
    rw [hsame, w.value_congr hquiet.toAlike (hentity other)]

/-- So it does to what it reads as itself. -/
theorem value_read_self (hp : g.present id.node) (other : Id k) :
    z.value ((z.read id).run g).2 other = z.value g other := by
  cases hv : z.get (g.get id) with
  | some v => rw [z.run_held hv]
  | none =>
    obtain ⟨v, htold, -⟩ := z.told_stored g id
    have hquiet := htold.quiet
    have hvalue : z.value g id = ((z.stored g id).run g).1 := z.value_empty hv
    rw [z.run_empty hv]
    generalize ((z.stored g id).run g).1 = v at hvalue
    generalize ((z.stored g id).run g).2 = g₁ at hquiet
    by_cases hid : id.node = other.node
    · obtain rfl : id = other := Id.node_inj hid
      have hheld : z.get ((g₁.update id (z.set (some v))).get id) = some v :=
        (congrArg z.get (get_put id _)).trans (z.get_set _ _)
      rw [z.value_held hheld, hvalue]
    · have hl := loader?_put (g := g₁) z.ne_module id (z.set (some v) (g₁.get id))
      have halike : g₁.Alike (g₁.update id (z.set (some v))) :=
        .of_put hl ((hquiet.present z.ne_customAttribute).trans hp)
      rw [z.value_congr halike (entity_put_of_ne hl hid),
        z.value_congr hquiet.toAlike (hquiet.entity z.ne_customAttribute)]

end LazySlot

/-! ## The relation -/

namespace Graph

variable {g g' g'' : Graph}

/-- **The graph after some reading and making.** -/
structure Grown (g g' : Graph) : Prop extends Alike g g', Extended g g' where
  built : g.built ≤ g'.built
  numbered : ∀ {k n}, k ≠ .customAttribute → g'.present ⟨k, .built n⟩ →
    g.present ⟨k, .built n⟩ ∨ n < g'.built
  filled : ∀ {n}, n.kind ≠ .customAttribute → n.kind ≠ .memberRef → g.present n →
    g'.filled n = g.filled n
  member : ∀ {m : MemberRefId}, g.present m.node →
    MemberRefId.lazyParent.value g' m = MemberRefId.lazyParent.value g m ∧
      MemberRefId.lazySig.value g' m = MemberRefId.lazySig.value g m ∧
      (g'.get m).name = (g.get m).name
  modules : ∀ m : ModuleId, g'.alive m.node = g.alive m.node
  /-- An assembly that is not there reads as one of no Windows Runtime types, and so does every
  one that is made. -/
  windows : ∀ a : AssemblyRefId, (g'.get a).isWindowsRuntime = (g.get a).isWindowsRuntime

/-- **A whole graph that has given out its numbers in order.** -/
structure Prepared (g : Graph) : Prop extends Whole g where
  numbered : ∀ {k n}, k ≠ .customAttribute → g.present ⟨k, .built n⟩ → n < g.built

/-- A graph stays prepared as it grows. -/
theorem Prepared.grown (h : g.Prepared) (k : g.Grown g') : g'.Prepared where
  toWhole := h.toWhole.extended k.toExtended
  numbered hk hn := (k.numbered hk hn).elim (fun hn => Nat.lt_of_lt_of_le (h.numbered hk hn) k.built) id

/-- The next number is no entity's. -/
theorem Prepared.absent (h : g.Prepared) {k : Kind} (hk : k ≠ .customAttribute) :
    ¬g.present ⟨k, .built g.built⟩ := fun hp => Nat.lt_irrefl _ (h.numbered hk hp)

/-- An entity under a number is there only if it has been made. -/
theorem contains_of_present {k : Kind} {n : Nat} (h : g.present ⟨k, .built n⟩) :
    g.entities.contains ⟨k, .built n⟩ :=
  (Bool.or_eq_true _ _ ▸ h : _ ∨ _).resolve_right Bool.false_ne_true

/-- Every graph that operations on containers lead to is prepared, if what its slots refer to is
there. -/
theorem Reaches.prepared {g₀ : Graph} (h : g₀.Sound) (k : g₀.Reaches g)
    (refs : ∀ n, ∀ t ∈ (g.entity n).refs, g.present t.node) : g.Prepared where
  toWhole := k.whole h refs
  numbered _ hn := (k.kept h).sound.wellMade.numbered (contains_of_present hn)

instance (g : Graph) : DecidablePred g.Known := fun key =>
  match key with
  | .built number => inferInstanceAs (Decidable (number < g.built))
  | .row _ _ => inferInstanceAs (Decidable True)

/-- Whether a graph is prepared can be told from what there are entries for. -/
theorem prepared_iff_entries : g.Prepared ↔
    g.Whole ∧ ∀ p ∈ g.entities.entries, p.1.kind ≠ .customAttribute → g.Known p.1.key := by
  constructor
  · intro h
    refine ⟨h.toWhole, ?_⟩
    rintro ⟨⟨k, key⟩, e⟩ hp hk
    cases key with
    | row _ _ => trivial
    | built n =>
      refine h.numbered hk (contains_present ?_)
      rw [Index.contains, g.entities.mem_entries.mp hp]
      rfl
  · rintro ⟨hwhole, hentries⟩
    refine ⟨hwhole, fun {k n} hk hn => ?_⟩
    obtain ⟨e, he⟩ := Option.isSome_iff_exists.mp (contains_of_present hn)
    exact hentries _ (g.entities.mem_entries.mpr he) hk

instance (g : Graph) : Decidable g.Prepared := decidable_of_iff _ prepared_iff_entries.symm

namespace Grown

theorem refl (g : Graph) : g.Grown g where
  toAlike := .refl g
  toExtended := .refl g
  built := Nat.le_refl _
  numbered _ hn := Or.inl hn
  filled _ _ _ := rfl
  member _ := ⟨rfl, rfl, rfl⟩
  modules _ := rfl
  windows _ := rfl

theorem trans (h : g.Grown g') (k : g'.Grown g'') : g.Grown g'' where
  toAlike := h.toAlike.trans k.toAlike
  toExtended := h.toExtended.trans k.toExtended
  built := Nat.le_trans h.built k.built
  numbered hk hn := by
    rcases k.numbered hk hn with hn | hn
    · exact (h.numbered hk hn).imp_right fun hn => Nat.lt_of_lt_of_le hn k.built
    · exact Or.inr hn
  filled hn hn' hp := (k.filled hn hn' (h.present hn hp)).trans (h.filled hn hn' hp)
  member hp := by
    obtain ⟨hparent, hsig, hname⟩ := h.member hp
    obtain ⟨kparent, ksig, kname⟩ := k.member (h.present (by rintro ⟨⟩) hp)
    exact ⟨kparent.trans hparent, ksig.trans hsig, kname.trans hname⟩
  modules m := (k.modules m).trans (h.modules m)
  windows a := (k.windows a).trans (h.windows a)

/-- A slot that comparisons read, of an entity that is there. -/
theorem value {k : Kind} {ρ : Type} [Recorded k ρ] {α : Type} {z : LazySlot k α}
    (hz : ∀ (g : Graph) (id : Id k), g.filled id.node = z.fill g id) (hk : k ≠ .memberRef)
    (h : g.Grown g') {id : Id k} (hp : g.present id.node) : z.value g' id = z.value g id := by
  have hfilled := h.filled (n := id.node) z.ne_customAttribute hk hp
  rw [hz, hz] at hfilled
  exact z.value_of_fill hfilled

/-- What is referred to stays there. -/
theorem present_all {rs : List TypeDefOrRef} (h : g.Grown g') (hrs : ∀ r ∈ rs, g.present r.node) :
    ∀ r ∈ rs, g'.present r.node := fun r hr => h.present r.ne_customAttribute (hrs r hr)

theorem specSig {s : TypeSpecId} (h : g.Grown g') (hs : g.present s.node) :
    TypeSpecId.lazySig.value g' s = TypeSpecId.lazySig.value g s :=
  h.value (fun _ _ => rfl) (by decide) hs

theorem scope {r : TypeRefId} (h : g.Grown g') (hr : g.present r.node) :
    TypeRefId.lazyScope.value g' r = TypeRefId.lazyScope.value g r :=
  h.value (fun _ _ => rfl) (by decide) hr

/-- The columns of a reference that is there. -/
theorem columns {r : TypeRefId} (h : g.Grown g') (hr : g.present r.node) :
    { g'.get r with scope := none } = { g.get r with scope := none } := by
  have hfilled := Entity.typeRef.inj (h.filled (n := r.node) (by rintro ⟨⟩) (by rintro ⟨⟩) hr)
  exact congrArg (fun e : TypeRef => { e with scope := none }) hfilled

section Ways

/-- A reference to a member that reads the same where the same is read from rows. -/
theorem member_congr (h : g.Alike g') {m : MemberRefId} (he : g'.entity m.node = g.entity m.node) :
    MemberRefId.lazyParent.value g' m = MemberRefId.lazyParent.value g m ∧
      MemberRefId.lazySig.value g' m = MemberRefId.lazySig.value g m ∧
      (g'.get m).name = (g.get m).name :=
  ⟨MemberRefId.lazyParent.value_congr h he, MemberRefId.lazySig.value_congr h he,
    congrArg MemberRef.name (LazySlot.get_of_entity he)⟩

/-- Nothing that counts is made or changed. -/
theorem of_same (halike : g.Alike g') (hextended : g.Extended g') (hbuilt : g.built ≤ g'.built)
    (hpresent : ∀ {n}, n.kind ≠ .customAttribute → g'.present n = g.present n)
    (hentity : ∀ {n}, n.kind ≠ .customAttribute → g'.entity n = g.entity n) : g.Grown g' where
  toAlike := halike
  toExtended := hextended
  built := hbuilt
  numbered hk hn := Or.inl ((hpresent (n := ⟨_, .built _⟩) hk).symm.trans hn)
  filled hn _ _ := filled_congr halike (hentity hn)
  member {m} _ := member_congr halike (hentity (n := m.node) (by rintro ⟨⟩))
  modules m := by
    rw [alive_eq_present, alive_eq_present, hpresent (by rintro ⟨⟩)]
    simp only [halike.loader]
  windows a := by
    rw [LazySlot.get_of_entity (hentity (n := a.node) (by rintro ⟨⟩))]

/-- Reading from stores makes nothing that counts. -/
theorem of_quiet (h : g.Quiet g') (hbuilt : g.built ≤ g'.built) : g.Grown g' :=
  of_same h.toAlike (.of_quiet h) hbuilt h.present h.entity

/-- Neither does filling a slot that comparisons read. -/
theorem of_consulted (h : g.Consulted g') (hextended : g.Extended g')
    (hbuilt : g.built ≤ g'.built) : g.Grown g' where
  toAlike := h.toAlike
  toExtended := hextended
  built := hbuilt
  numbered hk hn := Or.inl ((h.present (n := ⟨_, .built _⟩) hk).symm.trans hn)
  filled hn _ _ := h.filled hn
  member {m} _ := member_congr h.toAlike (h.filled (n := m.node) (by rintro ⟨⟩))
  modules m := h.alive (by rintro ⟨⟩)
  windows a := by
    have hentity : g'.entity a.node = g.entity a.node := h.filled (n := a.node) (by rintro ⟨⟩)
    rw [LazySlot.get_of_entity hentity]

/-- Reading the scope of a reference, or the signature of a specification. -/
theorem of_read {k : Kind} {ρ : Type} [Recorded k ρ] [Recorded.Lawful k] {α : Type}
    {z : LazySlot k α} (hz : ∀ (g : Graph) (id : Id k), g.filled id.node = z.fill g id)
    (hrefs : ∀ v (r : ρ), (Recorded.pack k (z.set (some v) r)).refs = z.refs v)
    (hcount : ∀ loader rid, Keeps Counted (z.compute loader rid)) {id : Id k}
    (hp : g.present id.node) : g.Grown ((z.read id).run g).2 :=
  of_consulted (.of_read hz hp) (Extended.of_read hrefs id g) (z.counted hcount id g)

/-- Reading a slot of a reference to a member changes nothing but that slot. -/
theorem of_read_member {α : Type} {z : LazySlot .memberRef α} {m : MemberRefId}
    (hp : g.present m.node) (hextended : g.Extended ((z.read m).run g).2)
    (hcount : ∀ loader rid, Keeps Counted (z.compute loader rid))
    (hname : ∀ v e, (z.set v e).name = e.name)
    (hvalues : ∀ other : MemberRefId,
      MemberRefId.lazyParent.value ((z.read m).run g).2 other =
        MemberRefId.lazyParent.value g other ∧
      MemberRefId.lazySig.value ((z.read m).run g).2 other = MemberRefId.lazySig.value g other) :
    g.Grown ((z.read m).run g).2 := by
  have hbuilt := z.counted hcount m g
  cases hv : z.get (g.get m) with
  | some v =>
    rw [z.run_held hv]
    exact refl g
  | none =>
    obtain ⟨v, htold, -⟩ := z.told_stored g m
    have hquiet := htold.quiet
    rw [z.run_empty hv] at hextended hbuilt hvalues ⊢
    generalize ((z.stored g m).run g).1 = v at hextended hbuilt hvalues ⊢
    generalize ((z.stored g m).run g).2 = g₁ at hquiet hextended hbuilt hvalues ⊢
    have hp₁ : g₁.present m.node := (hquiet.present (by rintro ⟨⟩)).trans hp
    have hl := loader?_put (g := g₁) z.ne_module m (z.set (some v) (g₁.get m))
    have halike : g.Alike (g₁.update m (z.set (some v))) := hquiet.toAlike.trans (.of_put hl hp₁)
    have hpresent : ∀ {n : Node}, n.kind ≠ .customAttribute →
        (g₁.update m (z.set (some v))).present n = g.present n := fun hn =>
      (present_put hl hp₁ _).trans (hquiet.present hn)
    have hentity : ∀ {n : Node}, n.kind ≠ .customAttribute → n.kind ≠ .memberRef →
        (g₁.update m (z.set (some v))).entity n = g.entity n := by
      intro n hn hn'
      have hne : m.node ≠ n := by
        rintro rfl
        exact hn' rfl
      exact (entity_put_of_ne hl hne).trans (hquiet.entity hn)
    refine ⟨halike, hextended, hbuilt, fun hk hn => Or.inl ?_, fun hn hn' _ => ?_,
      fun {other} _ => ⟨(hvalues other).1, (hvalues other).2, ?_⟩, fun o => ?_, fun a => ?_⟩
    · exact (hpresent (n := ⟨_, .built _⟩) hk).symm.trans hn
    · exact filled_congr halike (hentity hn hn')
    · have hget : (g₁.get other).name = (g.get other).name :=
        congrArg MemberRef.name (LazySlot.get_of_entity (hquiet.entity (by rintro ⟨⟩)))
      rw [← hget]
      by_cases hid : m.node = other.node
      · rw [← Id.node_inj hid]
        exact (congrArg MemberRef.name (get_put m _)).trans (hname _ _)
      · exact congrArg MemberRef.name (LazySlot.get_of_entity (entity_put_of_ne hl hid))
    · rw [alive_eq_present, alive_eq_present, hpresent (by rintro ⟨⟩)]
      simp only [halike.loader]
    · rw [LazySlot.get_of_entity (hentity (n := a.node) (by rintro ⟨⟩) (by rintro ⟨⟩))]

/-- An entity is made under the next number. -/
theorem of_grow {k : Kind} {ρ : Type} [Recorded k ρ] [Recorded.Lawful k] {r : ρ}
    (hg : g.Prepared) (hk : k ≠ .module) (hk' : k ≠ .customAttribute)
    (hrefs : ∀ t ∈ (Recorded.pack k r).refs, g.present t.node)
    (hwindows : ∀ e, Recorded.pack k r = .assemblyRef e → e.isWindowsRuntime = false) :
    g.Grown (g.grow k r) := by
  let id : Id k := ⟨.built g.built⟩
  have habsent : ¬g.present id.node := hg.absent hk'
  have hl : ∀ l, (g.grow k r).loader? l = g.loader? l := loader?_put (g := g) hk id r
  have hpresent : ∀ {n : Node}, n ≠ id.node → (g.grow k r).present n = g.present n := by
    intro n hn
    refine present_congr hl contains_grow_of fun hc => contains_present ?_
    exact (contains_grow hc).resolve_right hn
  have hentity : ∀ {n : Node}, n ≠ id.node → (g.grow k r).entity n = g.entity n := fun hn =>
    entity_congr (Index.get?_set_other _ _ (Ne.symm hn)) hl
  have hne : ∀ {n : Node}, g.present n → n ≠ id.node := by
    rintro n hp rfl
    exact habsent hp
  have halike : g.Alike (g.grow k r) := ⟨hl, fun _ _ _ => hpresent (by rintro ⟨⟩)⟩
  have hput : g.Extended (g.put id r) := .of_put hk fun t ht => Or.inr (hrefs t ht)
  refine ⟨halike, ⟨hput.present, hput.refs, hput.owner, hput.listed⟩, Nat.le_succ _, ?_,
    fun {n} _ _ hp => filled_congr halike (hentity (hne hp)),
    fun {m} hp => member_congr halike (hentity (hne hp)), fun m => ?_, fun a => ?_⟩
  · intro k' n _ hn
    by_cases hn' : (⟨k', .built n⟩ : Node) = id.node
    · cases hn'
      exact Or.inr (Nat.lt_succ_self _)
    · exact Or.inl ((hpresent hn').symm.trans hn)
  · have hm : m.node ≠ id.node := fun h => hk (congrArg Node.kind h).symm
    rw [alive_eq_present, alive_eq_present, hpresent hm]
    simp only [hl]
  · by_cases ha : a.node = id.node
    · -- what is not there reads as no Windows Runtime assembly
      have hblank : g.get a = Recorded.blank .assemblyRef := by
        have hunmade : g.entities.get? a.node = none := by
          rw [← Option.not_isSome_iff_eq_none, ha]
          exact fun hc => habsent (contains_present hc)
        have hkey : a.key = .built g.built := congrArg Node.key ha
        unfold get
        rw [hunmade, hkey]
        rfl
      have hmade : Recorded.pack k r = .assemblyRef ((g.grow k r).get a) := by
        have hput : (g.grow k r).entity id.node = Recorded.pack k r := entity_put id r
        rw [← ha] at hput
        exact hput.symm
      rw [hwindows _ hmade, hblank]
      rfl
    · rw [LazySlot.get_of_entity (hentity ha)]

end Ways

/-- **An entity that is in no container, and contains none, is made.** -/
theorem of_make {k : Kind} {ρ : Type} [Recorded k ρ] [Recorded.Lawful k] {r : ρ}
    (hg : g.Prepared) (hk : k ≠ .module) (hk' : k ≠ .customAttribute)
    (hsettle : ∀ (key : Key) (g : Graph), (settle ⟨k, key⟩ g).entities = g.entities ∧
      (settle ⟨k, key⟩ g).owners = g.owners ∧ (settle ⟨k, key⟩ g).lists = g.lists ∧
      (settle ⟨k, key⟩ g).built = g.built)
    (hrefs : ∀ t ∈ (Recorded.pack k r).refs, g.present t.node)
    (hwindows : ∀ e, Recorded.pack k r = .assemblyRef e → e.isWindowsRuntime = false) :
    g.Grown ((make k r).run g).2 ∧ ((make k r).run g).2.present ((make k r).run g).1.node ∧
      ((make k r).run g).2.get ((make k r).run g).1 = r := by
  let id : Id k := ⟨.built g.built⟩
  have hrun : (make k r).run g = (id, settle id.node (g.grow k r)) := rfl
  obtain ⟨hentities, howners, hlists, hbuilt⟩ := hsettle id.key (g.grow k r)
  have hquiet : (g.grow k r).Quiet (settle id.node (g.grow k r)) := .of_eq hentities howners hlists
  have hgrown := (of_grow hg hk hk' hrefs hwindows).trans (of_quiet hquiet (Nat.le_of_eq hbuilt.symm))
  have hmade : (g.grow k r).present id.node := contains_present (grow_contains g k r)
  rw [hrun]
  refine ⟨hgrown, (hquiet.present hk').trans hmade, ?_⟩
  have hget : (g.grow k r).get id = r := get_put id r
  exact (LazySlot.get_of_entity (hquiet.entity hk')).trans hget

end Grown

/-! ## Computations -/

/-- A computation makes a graph grow, and its result has a property in the graph that it leads
to. -/
def Grows {α : Type} (g : Graph) (x : GraphM α) (P : Graph → α → Prop) : Prop :=
  g.Grown (x.run g).2 ∧ P (x.run g).2 (x.run g).1

namespace Grows

variable {α β : Type} {x : GraphM α} {P : Graph → α → Prop} {Q : Graph → β → Prop}

theorem pure {a : α} (h : P g a) : g.Grows (Pure.pure a) P := ⟨.refl g, h⟩

theorem bind {f : α → GraphM β} (hx : g.Grows x P)
    (hf : ∀ g' a, g.Grown g' → P g' a → g'.Grows (f a) Q) : g.Grows (x >>= f) Q := by
  obtain ⟨hgrown, hresult⟩ := hx
  obtain ⟨hgrown', hresult'⟩ := hf _ _ hgrown hresult
  exact ⟨hgrown.trans hgrown', hresult'⟩

/-- What is looked up in the graph. -/
theorem read {f : Graph → GraphM α} (h : g.Grows (f g) P) : g.Grows (MonadState.get >>= f) P := h

theorem imp {P' : Graph → α → Prop} (hx : g.Grows x P)
    (h : ∀ g' a, g.Grown g' → P g' a → P' g' a) : g.Grows x P' :=
  ⟨hx.1, h _ _ hx.1 hx.2⟩

theorem map {f : α → β} (hx : g.Grows x P) (h : ∀ g' a, g.Grown g' → P g' a → Q g' (f a)) :
    g.Grows (f <$> x) Q := ⟨hx.1, h _ _ hx.1 hx.2⟩

end Grows

section Steps

/-- Reading the scope of a reference. -/
theorem grows_scope {r : TypeRefId} (hr : g.present r.node) :
    g.Grows r.scope fun _ v => v = TypeRefId.lazyScope.value g r := by
  refine ⟨.of_read (z := TypeRefId.lazyScope) (fun _ _ => rfl) (fun _ _ => rfl) ?_ hr, rfl⟩
  intro loader rid
  refine (keeps_rowAt _ _ _).counted.bind fun row => ?_
  cases row with
  | none => exact Keeps.pure _
  | some row => exact (keeps_resolutionScope _ _).counted

/-- Reading the signature of a specification. -/
theorem grows_specSig {s : TypeSpecId} (hs : g.present s.node) :
    g.Grows s.sig fun _ v => v = TypeSpecId.lazySig.value g s := by
  refine ⟨.of_read (z := TypeSpecId.lazySig) (fun _ _ => rfl) (fun _ _ => rfl) ?_ hs, rfl⟩
  intro loader rid
  refine (keeps_rowAt _ _ _).counted.bind fun row => ?_
  cases row with
  | none => exact Keeps.pure _
  | some row => exact counted_typeSig _ _

/-- Reading the parent of a reference to a member. -/
theorem grows_parent {m : MemberRefId} (hm : g.present m.node) :
    g.Grows m.parent fun _ v => v = MemberRefId.lazyParent.value g m := by
  refine ⟨.of_read_member (z := MemberRefId.lazyParent) hm (keepsExtended_parent m g) ?_
    (fun _ _ => rfl) ?_, rfl⟩
  · intro loader rid
    refine (keeps_rowAt _ _ _).counted.bind fun row => ?_
    cases row with
    | none => exact Keeps.pure _
    | some row => exact counted_memberParent _ _
  · exact fun other => ⟨MemberRefId.lazyParent.value_read_self hm other,
      MemberRefId.lazyParent.value_read MemberRefId.lazySig (fun _ _ => rfl) hm other⟩

/-- Reading its signature. -/
theorem grows_memberSig {m : MemberRefId} (hm : g.present m.node) :
    g.Grows m.sig fun _ v => v = MemberRefId.lazySig.value g m := by
  refine ⟨.of_read_member (z := MemberRefId.lazySig) hm (keepsExtended_sig m g) ?_
    (fun _ _ => rfl) ?_, rfl⟩
  · intro loader rid
    refine (keeps_rowAt _ _ _).counted.bind fun row => ?_
    cases row with
    | none => exact Keeps.pure _
    | some row => exact (counted_signature _ _).bind fun _ => Keeps.pure _
  · exact fun other =>
      ⟨MemberRefId.lazySig.value_read MemberRefId.lazyParent (fun _ _ => rfl) hm other,
        MemberRefId.lazySig.value_read_self hm other⟩

/-- Making a reference to an assembly of no Windows Runtime types. -/
theorem grows_makeAssemblyRef (hg : g.Prepared) (identity : AssemblyIdentity) (flags : Flags)
    (hflags : AssemblyRef.isWindowsRuntime ⟨0, Token.ofParts .assemblyRef 0, .ofString identity.name,
      identity.version, identity.culture, identity.strongName,
      AssemblyFlags.withKey (identity.strongName.any StrongName.isKey) flags, []⟩ = false) :
    g.Grows (makeAssemblyRef identity flags) fun g' a => (g'.get a).isWindowsRuntime = false := by
  obtain ⟨hgrown, -, hget⟩ := Grown.of_make (k := .assemblyRef) (ρ := AssemblyRef) hg (by decide)
    (by decide) (fun _ _ => ⟨rfl, rfl, rfl, rfl⟩) (by rintro _ ⟨⟩) (by rintro _ ⟨⟩; exact hflags)
  exact ⟨hgrown, (congrArg AssemblyRef.isWindowsRuntime hget).trans hflags⟩

/-- Making a reference to a type of an assembly. -/
theorem grows_makeTypeRef (hg : g.Prepared) (m : ModuleId) (space name : Name) (a : AssemblyRefId) :
    g.Grows (makeTypeRef m space name (some (.assemblyRef a))) fun g' r => g'.present r.node ∧
      g'.get r = ⟨0, .inMemory, m, space, name, some (some (.assemblyRef a))⟩ :=
  Grown.of_make (k := .typeRef) (ρ := TypeRef) hg (by decide) (by decide)
    (fun _ _ => ⟨rfl, rfl, rfl, rfl⟩) (by rintro _ ⟨⟩) (by rintro _ ⟨⟩)

/-- Making a specification over what is there. -/
theorem grows_makeTypeSpec (hg : g.Prepared) {t : Sig} (ht : ∀ r ∈ t.refs, g.present r.node) :
    g.Grows (makeTypeSpec t) fun g' s => g'.present s.node ∧
      TypeSpecId.lazySig.value g' s = some t := by
  obtain ⟨hgrown, hpresent, hget⟩ := Grown.of_make (k := .typeSpec) (ρ := TypeSpec)
    (r := ⟨0, .inMemory, some (some t)⟩) hg (by decide) (by decide)
    (fun _ _ => ⟨rfl, rfl, rfl, rfl⟩) (by exact ht) (by rintro _ ⟨⟩)
  exact ⟨hgrown, hpresent, TypeSpecId.lazySig.value_held (congrArg (·.sig) hget)⟩

/-- Making a reference to a member. -/
theorem grows_makeMemberRef (hg : g.Prepared) (m : ModuleId) (name : Name)
    (parent : Option MemberParent) {sig : Option (Signature TypeDefOrRef)}
    (hsig : ∀ r ∈ optionRefs Signature.refs sig, g.present r.node) :
    g.Grows (makeMemberRef m name parent sig) fun g' m' => g'.present m'.node ∧
      MemberRefId.lazyParent.value g' m' = parent ∧ MemberRefId.lazySig.value g' m' = sig ∧
      (g'.get m').name = name := by
  obtain ⟨hgrown, hpresent, hget⟩ := Grown.of_make (k := .memberRef) (ρ := MemberRef)
    (r := ⟨0, .inMemory, m, name, some parent, some sig⟩) hg (by decide) (by decide)
    (fun _ _ => ⟨rfl, rfl, rfl, rfl⟩) (by exact hsig) (by rintro _ ⟨⟩)
  exact ⟨hgrown, hpresent, MemberRefId.lazyParent.value_held (congrArg (·.parent) hget),
    MemberRefId.lazySig.value_held (congrArg (·.sig) hget), congrArg (·.name) hget⟩

end Steps
end Graph

/-- **A module that has just been opened is prepared**, whatever its store holds. -/
theorem Store.loaded_prepared {s : Store} {policy : InitPolicy} {row : ModuleRow}
    (h : s.moduleRow? = some row) : (s.loaded policy).Prepared where
  toWhole := loaded_whole h
  numbered {k n} _ hn := by
    have hnode : (⟨k, .built n⟩ : Node) = ⟨.module, .built 0⟩ :=
      s.loaded_contains h (contains_of_present hn)
    have hbuilt : (s.loaded policy).built = 1 := by
      rw [s.loaded_eq h]
      rfl
    obtain rfl : n = 0 := Key.built.inj (congrArg Node.key hnode)
    omega

end CliMetadata
