import CliMetadata.Proofs.Graph.Consulting
import CliMetadata.Proofs.Ownership.Listing

/-!
# Graphs that have been read

Reading a graph fills slots, records back-references and lists, makes entities of rows and private
copies, and takes over what is in no container.  `Graph.Perused g g'` says that `g'` is `g` after any
such reading.  A slot that is filled stays as it is, and so do a list that has been read, the columns
of an entity, and **a container that a back-reference reads as**.  What does not stay is a
back-reference that reads as none: a child that the store lists for a container while it reads as
being in none (`Graph.Orphan`) becomes the container's when that container's list is read, and it is
the only one that does.

`Graph.Grounded` is what reading relies on: numbers are given out in order, containers exist, and
what is read off rows refers to rows.
-/

namespace CliMetadata

open CliMetadata.Graph Loading Stateful

/-! ## What slots hold -/

/-- What is held by a slot that resolving reads. -/
inductive SlotValue where
  | exported (types : List ExportedTypeId)
  | type (type : Option TypeDefOrRef)
  | scope (scope : Option ResolutionScope)
  | typeSig (sig : Option Sig)
  | methodSig (sig : Option (MethodSig TypeDefOrRef))
  | parent (parent : Option MemberParent)
  | signature (sig : Option (Signature TypeDefOrRef))
  | implementation (implementation : Option Implementation)

/-- The entities that a slot refers to, modules apart. -/
def SlotValue.nodes : SlotValue → List Node
  | exported es => es.map Id.node
  | type t => t.toList.map TypeDefOrRef.node
  | scope (some (.module _)) => []
  | scope s => s.toList.map ResolutionScope.node
  | typeSig t => (optionRefs TypeSig.refs t).map TypeDefOrRef.node
  | methodSig m => (optionRefs MethodSig.refs m).map TypeDefOrRef.node
  | parent p => p.toList.map MemberParent.node
  | signature s => (optionRefs Signature.refs s).map TypeDefOrRef.node
  | implementation i => i.toList.map Implementation.node

/-- A key of a row. -/
def Key.IsRow : Key → Prop
  | .row _ _ => True
  | .built _ => False

/-- What refers to rows alone. -/
def SlotValue.OfRows (v : SlotValue) : Prop := ∀ n ∈ v.nodes, n.key.IsRow

namespace Entity

/-- What is held by the slots of an entity that resolving reads. -/
def values : Entity → List SlotValue
  | module e => e.exportedTypes.toList.map .exported
  | typeDef e => e.base.toList.map .type
  | typeRef e => e.scope.toList.map .scope
  | typeSpec e => e.sig.toList.map .typeSig
  | field e => e.sig.toList.map .typeSig
  | methodDef e => e.sig.toList.map .methodSig
  | memberRef e => e.parent.toList.map .parent ++ e.sig.toList.map .signature
  | exportedType e => e.implementation.toList.map .implementation
  | _ => []

/-- An entity with nothing in its slots. -/
def bare : Entity → Entity
  | module e => module { e with exportedTypes := none, resources := none }
  | typeDef e => typeDef { e with base := none }
  | typeRef e => typeRef { e with scope := none }
  | typeSpec e => typeSpec { e with sig := none }
  | field e => field { e with sig := none, constant := none }
  | methodDef e => methodDef { e with
      sig := none, body := none, implMap := none, semantics := none, overrides := none,
      debugInfos := none }
  | param e => param { e with constant := none }
  | property e => property { e with sig := none, accessors := none, constant := none }
  | event e => event { e with eventType := none, accessors := none }
  | memberRef e => memberRef { e with parent := none, sig := none }
  | methodSpec e => methodSpec { e with method := none, args := none }
  | genericParam e => genericParam { e with constraints := none }
  | exportedType e => exportedType { e with implementation := none }
  | resource e => resource { e with implementation := none, data := none }
  | other => other

/-- The module that a scope is. -/
def scopeModules : Slot (Option ResolutionScope) → List ModuleId
  | some (some (.module m)) => [m]
  | _ => []

/-- The modules that an entity belongs to or is looked for in. -/
def modules : Entity → List ModuleId
  | typeRef e => e.module :: scopeModules e.scope
  | memberRef e => [e.module]
  | exportedType e => [e.module]
  | _ => []

/-- An entity with more of its slots filled. -/
structure Fills (e e' : Entity) : Prop where
  bare : e'.bare = e.bare
  values : e.values ⊆ e'.values

namespace Fills

variable {e e' e'' : Entity}

theorem refl (e : Entity) : e.Fills e := ⟨rfl, fun _ => id⟩

theorem trans (h : e.Fills e') (k : e'.Fills e'') : e.Fills e'' :=
  ⟨k.bare.trans h.bare, fun _ hv => k.values (h.values hv)⟩

theorem origin?_bare (e : Entity) : e.bare.origin? = e.origin? := by cases e <;> rfl

theorem origin (h : e.Fills e') : e'.origin? = e.origin? := by
  rw [← origin?_bare e', h.bare, origin?_bare]

end Fills
end Entity

theorem Key.IsRow.known {g : Graph} {c : Key} (h : c.IsRow) : g.Known c := by
  cases c with
  | row => trivial
  | built => exact h.elim

namespace Graph

variable {g g' g'' : Graph}

/-! ## Relations between graphs -/

/-- An entity that reading does not make. -/
def Settled (g : Graph) (n : Node) : Prop :=
  g.Known n.key ∨ n.kind = .assembly ∨ n.kind = .module

theorem Settled.mono (hb : g.built ≤ g'.built) {n : Node} (h : g.Settled n) : g'.Settled n :=
  h.imp_left (Known.mono hb)

/-- A back-reference that reading does not write for what it makes. -/
def Certain (g : Graph) (e : Edge) (c : Key) : Prop := g.Known c ∨ e = .assemblyModules

theorem Certain.mono (hb : g.built ≤ g'.built) {e : Edge} {c : Key} (h : g.Certain e c) :
    g'.Certain e c := h.imp_left (Known.mono hb)

/-- A row that a store lists for some container. -/
def Offered (g : Graph) (e : Edge) (c : Key) : Prop :=
  e ≠ .assemblyModules ∧ ∃ l p s owner, c = .row l p ∧ g.store? l = some s ∧
    p ∈ s.children (Ownership.relation e) owner

/-- **A row that a store lists for some container while it reads as being in none**, of the sort or
of its rival. -/
structure Orphan (g : Graph) (e : Edge) (c : Key) : Prop where
  offered : g.Offered e c
  uncontained : g.noted e c = none
  unclaimed : ∀ e', e.rival? = some e' → g.noted e' c = none

/-- **A graph that reading can rely on.** -/
structure Grounded (g : Graph) : Prop where
  based : g.alive ⟨.module, .built 0⟩
  opened : ∀ {l}, (g.loader? l).isSome → l < g.built
  sourced : ∀ {n l rid}, g.origin n = .row l rid → g.Known n.key
  listed : ∀ {e o cs c}, g.lists.get? (e, o) = some cs → c ∈ cs → g.Known c
  owned : ∀ {e c o}, g.owners.get? (e, c) = some (some o) → g.alive o ∧ g.Known o.key
  /-- What stands for rows refers to rows. -/
  rooted : ∀ {n : Node}, n.key.IsRow ∨ n.kind ∉ [.typeRef, .typeSpec, .memberRef] →
    ∀ v ∈ (g.entity n).values, v.OfRows
  housed : ∀ {n : Node}, n.key.IsRow → ∀ m ∈ (g.entity n).modules, g.alive m.node

/-- A container that the stores name for a child, now or when more of them has been read. -/
def Names (g : Graph) (e : Edge) (c : Key) (o : Node) : Prop :=
  ∃ g₁ : Graph, (∀ l, g₁.loader? l = g.loader? l) ∧
    g₁.origin ⟨e.childKind, c⟩ = g.origin ⟨e.childKind, c⟩ ∧ g₁.stored e c = some o

/-- **What reading leaves as it is.**  A child gets the container that the stores name for it, or one
that they list it for. -/
structure Preserved (g g' : Graph) : Prop where
  built : g.built ≤ g'.built
  loader : ∀ l, g'.loader? l = g.loader? l
  alive : ∀ {n}, g.alive n → g'.alive n
  entity : ∀ {n}, g.Settled n → (g.entity n).Fills (g'.entity n)
  list : ∀ {e o cs}, g.lists.get? (e, o) = some cs → g'.lists.get? (e, o) = some cs
  noted : ∀ {e c o}, g.Certain e c → g.noted e c = some o → g'.noted e c = some o
  unowned : ∀ {e c}, g.Certain e c → g.owners.get? (e, c) = some none →
    g'.owners.get? (e, c) = some none ∨ g.Orphan e c
  taken : ∀ {e c o}, g.Certain e c → g'.owners.get? (e, c) = some (some o) →
    g.owners.get? (e, c) = some (some o) ∨ g.Offered e c ∨ g.Names e c o

/-- What is read for the list of a container. -/
def population (g : Graph) (e : Edge) (o : Node) : List Key :=
  ((fromStore (g.origin o) [] (Ownership.storedItems e o)).run g).1

/-- **The graph after any reading.**  A list that is there since then was read for its container
somewhere in between. -/
structure Perused (g g' : Graph) : Prop extends Preserved g g' where
  read : ∀ {e o cs}, g'.lists.get? (e, o) = some cs → g.lists.get? (e, o) = some cs ∨
    ∃ g₁ : Graph, g.Preserved g₁ ∧ g₁.Grounded ∧ g₁.population e o = cs

theorem Offered.isRow {e : Edge} {c : Key} (h : g.Offered e c) : c.IsRow := by
  obtain ⟨-, l, p, s, owner, rfl, -⟩ := h
  trivial

theorem Offered.congr (hl : ∀ l, g'.loader? l = g.loader? l) {e : Edge} {c : Key}
    (h : g'.Offered e c) : g.Offered e c := by
  obtain ⟨he, l, p, s, owner, hc, hs, hp⟩ := h
  exact ⟨he, l, p, s, owner, hc, (store?_congr hl l).symm.trans hs, hp⟩

namespace Preserved

theorem origin (h : g.Preserved g') {n : Node} (hn : g.Settled n) : g'.origin n = g.origin n := by
  unfold Graph.origin
  rw [(h.entity hn).origin]

/-- What is an orphan after some reading was one before. -/
theorem orphan (h : g.Preserved g') {e : Edge} {c : Key} (k : g'.Orphan e c) : g.Orphan e c := by
  have hoffered := k.offered.congr h.loader
  have before : ∀ e', g'.noted e' c = none → g.noted e' c = none := by
    intro e' hnone
    cases hnoted : g.noted e' c with
    | none => rfl
    | some o =>
      have hnoted' := h.noted (.inl hoffered.isRow.known) hnoted
      rw [hnone] at hnoted'
      cases hnoted'
  exact ⟨hoffered, before e k.uncontained, fun e' he' => before e' (k.unclaimed e' he')⟩

theorem refl (g : Graph) : g.Preserved g where
  built := Nat.le_refl _
  loader _ := rfl
  alive := id
  entity _ := .refl _
  list := id
  noted _ := id
  unowned _ := .inl
  taken _ := .inl

theorem certain_origin (h : g.Preserved g') {e : Edge} {c : Key} (hc : g.Certain e c) :
    g'.origin ⟨e.childKind, c⟩ = g.origin ⟨e.childKind, c⟩ := by
  refine h.origin ?_
  rcases hc with hknown | rfl
  · exact .inl hknown
  · exact .inr (.inr rfl)

/-- What the stores name a container for, they named it for before. -/
theorem names (h : g.Preserved g') {e : Edge} {c : Key} {o : Node} (hc : g.Certain e c)
    (k : g'.Names e c o) : g.Names e c o := by
  obtain ⟨g₁, hloader, horigin, hstored⟩ := k
  exact ⟨g₁, fun l => (hloader l).trans (h.loader l), horigin.trans (h.certain_origin hc), hstored⟩

theorem trans (h : g.Preserved g') (k : g'.Preserved g'') : g.Preserved g'' where
  built := Nat.le_trans h.built k.built
  loader l := (k.loader l).trans (h.loader l)
  alive ha := k.alive (h.alive ha)
  entity hn := (h.entity hn).trans (k.entity (hn.mono h.built))
  list hl := k.list (h.list hl)
  noted hc ho := k.noted (hc.mono h.built) (h.noted hc ho)
  unowned hc ho := (h.unowned hc ho).elim
    (fun ho' => (k.unowned (hc.mono h.built) ho').imp_right h.orphan) .inr
  taken hc ho := by
    rcases k.taken (hc.mono h.built) ho with ho' | hoffered | hnames
    · exact h.taken hc ho'
    · exact .inr (.inl (hoffered.congr h.loader))
    · exact .inr (.inr (h.names hc hnames))

end Preserved

namespace Perused

theorem refl (g : Graph) : g.Perused g where
  toPreserved := .refl g
  read := .inl

theorem trans (h : g.Perused g') (k : g'.Perused g'') : g.Perused g'' where
  toPreserved := h.toPreserved.trans k.toPreserved
  read hl := (k.read hl).elim h.read fun ⟨g₁, hg₁, hread⟩ =>
    .inr ⟨g₁, h.toPreserved.trans hg₁, hread⟩

instance : IsPreorder Graph Perused where
  refl := refl
  trans _ _ _ := trans

end Perused

/-- Reading leads from a graph that it can rely on to another one. -/
def Peruses (g g' : Graph) : Prop := g.Grounded → g'.Grounded ∧ g.Perused g'

instance : IsPreorder Graph Peruses where
  refl g h := ⟨h, .refl g⟩
  trans _ _ _ h k hg := ⟨(k (h hg).1).1, (h hg).2.trans (k (h hg).1).2⟩

/-! ## What the stores say -/

section Stored

variable {e : Edge} {c : Key} {o : Node}

/-- Everything that is there for a row in one graph is there in another. -/
def RowsStay (g g' : Graph) : Prop :=
  ∀ k l p, g.present ⟨k, .row l p⟩ → g'.present ⟨k, .row l p⟩

/-- The container that a store names for a row is its module or a row, and is named as long as it
is there. -/
theorem storedOwner_stays (hl : ∀ l, g'.loader? l = g.loader? l) (hp : g.RowsStay g') {l rid : Nat}
    (h : ((Ownership.storedOwner e l rid).run g).1 = some o) :
    ((Ownership.storedOwner e l rid).run g').1 = some o ∧
      (o.key.IsRow ∨ o = ⟨.module, .built l⟩) := by
  have shared : ∀ {k : Kind} {ρ : Type} [Recorded k ρ] [Recorded.Rowed k] {l p : Nat},
      ((Loading.shared k l p).run g).1.map Id.node = some o →
      ((Loading.shared k l p).run g').1.map Id.node = some o ∧
        (o.key.IsRow ∨ o = ⟨.module, .built l⟩) := by
    intro k ρ _ _ l p h
    rw [shared_value] at h ⊢
    split at h
    · next hpresent =>
      rw [if_pos (hp k l p hpresent)]
      cases h
      exact ⟨rfl, .inl trivial⟩
    · cases h
  unfold Ownership.storedOwner at h ⊢
  cases e with
  | moduleTypes =>
    simp only [run_bind, parent?_run, store?_congr hl] at h ⊢
    exact ⟨h, .inr (Option.some.inj (Option.ite_none_right_eq_some.mp h).2).symm⟩
  | nestedTypes | fields | methods | properties | events | params =>
    simp only [run_bind, parent?_run, store?_congr hl] at h ⊢
    split at h
    · cases h
    · split at h
      · next hkind =>
        rw [if_pos hkind]
        exact shared h
      · cases h
  | genericParams =>
    simp only [run_bind, rowAt_run, store?_congr hl] at h ⊢
    split at h
    · cases h
    · unfold typeOrMethod at h ⊢
      split at h
      · next hvalid =>
        rw [if_pos hvalid]
        split at h
        · exact shared h
        · exact shared h
        · cases h
      · cases h
  | assemblyModules => cases h

/-- What the stores say of a container goes on being said, and refers to a row or an open module. -/
theorem stored_stays (hl : ∀ l, g'.loader? l = g.loader? l) (hp : g.RowsStay g')
    (ho : g'.origin ⟨e.childKind, c⟩ = g.origin ⟨e.childKind, c⟩) (h : g.stored e c = some o) :
    g'.stored e c = some o ∧
      (o.key.IsRow ∨ ∃ l, (g.loader? l).isSome ∧ o = ⟨.module, .built l⟩) := by
  unfold Graph.stored fromStore at h ⊢
  rw [run_get_bind] at h ⊢
  have hreader : g'.reader? (g.origin ⟨e.childKind, c⟩) = g.reader? (g.origin ⟨e.childKind, c⟩) := by
    unfold reader?
    simp only [hl]
  rw [ho, hreader]
  cases hread : g.reader? (g.origin ⟨e.childKind, c⟩) with
  | none =>
    rw [hread] at h
    cases h
  | some read =>
    rw [hread] at h
    obtain ⟨hstays, hnode⟩ := storedOwner_stays hl hp h
    refine ⟨hstays, hnode.imp_right fun hmodule => ⟨read.1, ?_, hmodule⟩⟩
    unfold reader? at hread
    split at hread
    · cases hread
    · split at hread
      · next hopen =>
        cases hread
        exact hopen
      · cases hread

theorem stored_assemblyModules (c : Key) : g.stored .assemblyModules c = none := by
  unfold Graph.stored fromStore
  rw [run_get_bind]
  split <;> rfl

/-- What a back-reference reads as goes on being read where what is recorded stays. -/
theorem noted_stays (hl : ∀ l, g'.loader? l = g.loader? l) (hp : g.RowsStay g')
    (howners : g'.owners.get? (e, c) = g.owners.get? (e, c))
    (ho : e ≠ .assemblyModules → g'.origin ⟨e.childKind, c⟩ = g.origin ⟨e.childKind, c⟩)
    (h : g.noted e c = some o) : g'.noted e c = some o := by
  unfold noted at h ⊢
  rw [howners]
  cases hrecorded : g.owners.get? (e, c) with
  | some held => rwa [hrecorded] at h
  | none =>
    rw [hrecorded] at h
    by_cases he : e = .assemblyModules
    · subst he
      cases (stored_assemblyModules c).symm.trans h
    · exact (stored_stays hl hp (ho he) h).1

/-- A container that a back-reference reads as exists. -/
theorem Grounded.noted (hg : g.Grounded) (h : g.noted e c = some o) :
    g.alive o ∧ g.Known o.key := by
  unfold Graph.noted at h
  cases hrecorded : g.owners.get? (e, c) with
  | some held =>
    rw [hrecorded] at h
    obtain rfl : held = some o := h
    exact hg.owned hrecorded
  | none =>
    rw [hrecorded] at h
    have hstored : g.stored e c = some o := h
    refine ⟨?_, ?_⟩
    · have hasked : g.Asked (fun _ => True) _ := keepsAsked_stored g e c
      rw [← hasked.alive]
      exact present_alive (contains_present (stored_container hstored).1)
    · have hrows : g.RowsStay g := fun _ _ _ => id
      obtain hrow | ⟨l, hopen, rfl⟩ := (stored_stays (fun _ => rfl) hrows rfl hstored).2
      · exact hrow.known
      · exact hg.opened hopen

end Stored

/-! ## Steps -/

/-- Nothing is read of an entity that does not exist. -/
theorem get_of_dead {k : Kind} {ρ : Type} [Recorded k ρ] {id : Id k} (h : g.alive id.node = false) :
    g.get id = Recorded.blank k := by
  obtain ⟨key⟩ := id
  rw [alive, Bool.or_eq_false_iff] at h
  have hget : g.entities.get? (⟨key⟩ : Id k).node = none := by
    simpa [Index.contains] using h.1
  unfold Graph.get
  rw [hget]
  cases key with
  | built => rfl
  | row l p =>
    have hclosed : g.loader? l = none := by simpa [Id.node] using h.2
    simp [Graph.store?, hclosed]

/-- What stands for a row exists. -/
theorem alive_of_origin {n : Node} {l rid : Nat} (h : g.origin n = .row l rid) : g.alive n := by
  by_contra hdead
  have hdead : g.alive n = false := by simpa using hdead
  obtain ⟨kind, key⟩ := n
  unfold Graph.origin Graph.entity at h
  cases kind <;> (dsimp only at h; rw [get_of_dead hdead] at h; cases h)

section Entities

variable {k : Kind} {ρ : Type} [Recorded k ρ] [Recorded.Lawful k] {id : Id k} {r : ρ}

/-- An entity gets more of its slots filled, and the others stay as they are. -/
theorem fills_put (hl : ∀ l, (g.put id r).loader? l = g.loader? l)
    (hfills : (g.entity id.node).Fills (Recorded.pack k r)) (n : Node) :
    (g.entity n).Fills ((g.put id r).entity n) := by
  by_cases hn : id.node = n
  · subst hn
    rw [entity_put]
    exact hfills
  · rw [entity_put_of_ne hl hn]
    exact .refl _

theorem origin_put (hl : ∀ l, (g.put id r).loader? l = g.loader? l)
    (hfills : (g.entity id.node).Fills (Recorded.pack k r)) (n : Node) :
    (g.put id r).origin n = g.origin n := by
  unfold Graph.origin
  rw [(fills_put hl hfills n).origin]

/-- Reading can rely on a graph in which an entity has more of its slots filled. -/
theorem Grounded.put (hg : g.Grounded) (hl : ∀ l, (g.put id r).loader? l = g.loader? l)
    (hfills : (g.entity id.node).Fills (Recorded.pack k r))
    (hvalues : ∀ v ∈ (Recorded.pack k r).values, v ∈ (g.entity id.node).values ∨ v.OfRows)
    (hmodules : ∀ m ∈ (Recorded.pack k r).modules,
      m ∈ (g.entity id.node).modules ∨ g.alive m.node) : (g.put id r).Grounded where
  based := alive_put hl hg.based
  opened h := hg.opened ((hl _).symm ▸ h)
  sourced h := hg.sourced ((origin_put hl hfills _).symm.trans h)
  listed := hg.listed
  owned h := (hg.owned h).imp_left (alive_put hl)
  rooted {n} hn v hv := by
    by_cases hid : id.node = n
    · subst hid
      rw [entity_put] at hv
      exact (hvalues v hv).elim (hg.rooted hn v) fun h => h
    · rw [entity_put_of_ne hl hid] at hv
      exact hg.rooted hn v hv
  housed {n} hn m hm := by
    by_cases hid : id.node = n
    · subst hid
      rw [entity_put] at hm
      exact alive_put hl ((hmodules m hm).elim (hg.housed hn m) fun h => h)
    · rw [entity_put_of_ne hl hid] at hm
      exact alive_put hl (hg.housed hn m hm)

/-- Nothing else has changed in it. -/
theorem Perused.of_put (hl : ∀ l, (g.put id r).loader? l = g.loader? l)
    (hfills : (g.entity id.node).Fills (Recorded.pack k r)) : g.Perused (g.put id r) where
  built := Nat.le_refl _
  loader := hl
  alive := alive_put hl
  entity _ := fills_put hl hfills _
  list h := h
  noted _ := by
    have hpresent : ∀ k' l p, g.present ⟨k', .row l p⟩ → (g.put id r).present ⟨k', .row l p⟩ := by
      intro k' l p h
      rw [present, Bool.or_eq_true] at h ⊢
      exact h.imp contains_put fun h => (hasRow_congr hl _).trans h
    exact noted_stays hl hpresent rfl fun _ => origin_put hl hfills _
  unowned _ := .inl
  taken _ := .inl
  read := .inl

theorem Peruses.of_put (hl : ∀ l, (g.put id r).loader? l = g.loader? l)
    (hfills : (g.entity id.node).Fills (Recorded.pack k r))
    (hvalues : ∀ v ∈ (Recorded.pack k r).values, v ∈ (g.entity id.node).values ∨ v.OfRows)
    (hmodules : ∀ m ∈ (Recorded.pack k r).modules,
      m ∈ (g.entity id.node).modules ∨ g.alive m.node) : g.Peruses (g.put id r) :=
  fun hg => ⟨hg.put hl hfills hvalues hmodules, .of_put hl hfills⟩

/-- What is written down is what was read already. -/
theorem Peruses.of_put_same (hl : ∀ l, (g.put id r).loader? l = g.loader? l)
    (he : g.entity id.node = Recorded.pack k r) : g.Peruses (g.put id r) :=
  .of_put hl (he ▸ .refl _) (fun _ hv => .inl (he ▸ hv)) fun _ hm => .inl (he ▸ hm)

/-- Reading can rely on a graph with an entity more in it. -/
theorem Grounded.grow (hg : g.Grounded) (hk : k ≠ .module)
    (hvalues : k ∉ [.typeRef, .typeSpec, .memberRef] → ∀ v ∈ (Recorded.pack k r).values, v.OfRows) :
    (g.grow k r).Grounded := by
  have hl : ∀ l, (g.grow k r).loader? l = g.loader? l := loader?_put hk _ r
  have hentity : ∀ n, n ≠ ⟨k, .built g.built⟩ → (g.grow k r).entity n = g.entity n :=
    fun n hn => entity_put_of_ne hl (Ne.symm hn)
  have hself : (g.grow k r).entity ⟨k, .built g.built⟩ = Recorded.pack k r := entity_put _ r
  have halive : ∀ {n}, g.alive n → (g.grow k r).alive n := alive_mono hl contains_grow_of
  have hbuilt : g.built ≤ (g.grow k r).built := Nat.le_succ _
  exact {
    based := halive hg.based
    opened := fun h => Nat.lt_of_lt_of_le (hg.opened ((hl _).symm ▸ h)) hbuilt
    sourced := by
      intro n l rid h
      by_cases hn : n = ⟨k, .built g.built⟩
      · subst hn
        exact Nat.lt_succ_self _
      · unfold Graph.origin at h
        rw [hentity n hn] at h
        exact (hg.sourced h).mono hbuilt
    listed := fun h hc => (hg.listed h hc).mono hbuilt
    owned := fun h => ⟨halive (hg.owned h).1, (hg.owned h).2.mono hbuilt⟩
    rooted := by
      intro n hn v hv
      by_cases hid : n = ⟨k, .built g.built⟩
      · subst hid
        rw [hself] at hv
        exact hvalues (hn.resolve_left id) v hv
      · rw [hentity n hid] at hv
        exact hg.rooted hn v hv
    housed := by
      intro n hn m hm
      have hid : n ≠ ⟨k, .built g.built⟩ := by
        rintro rfl
        exact hn
      rw [hentity n hid] at hm
      exact halive (hg.housed hn m hm) }

/-- An entity of no container is made. -/
theorem Peruses.of_grow (hk : k ≠ .module) (hk' : k ≠ .assembly)
    (hvalues : k ∉ [.typeRef, .typeSpec, .memberRef] → ∀ v ∈ (Recorded.pack k r).values, v.OfRows) :
    g.Peruses (g.grow k r) := by
  have hl : ∀ l, (g.grow k r).loader? l = g.loader? l := loader?_put hk _ r
  have hentity : ∀ n, n ≠ ⟨k, .built g.built⟩ → (g.grow k r).entity n = g.entity n :=
    fun n hn => entity_put_of_ne hl (Ne.symm hn)
  refine fun hg => ⟨hg.grow hk hvalues, ?_⟩
  exact {
    built := Nat.le_succ _
    loader := hl
    alive := alive_mono hl contains_grow_of
    entity := by
      intro n hn
      rw [hentity n]
      · exact .refl _
      · rintro rfl
        exact hn.elim (Nat.lt_irrefl _) (·.elim hk' hk)
    list := id
    noted := by
      intro e c o hc ho
      rw [noted_grow hl]
      · exact ho
      · rintro ⟨⟩
        exact hc.elim (Nat.lt_irrefl _) fun he => hk (congrArg Edge.childKind he)
    unowned := fun _ => .inl
    taken := fun _ => .inl
    read := .inl }

end Entities

section Unchanged

variable (hentities : g'.entities = g.entities)

include hentities

theorem loader?_of_eq (l : Nat) : g'.loader? l = g.loader? l := by rw [loader?, loader?, hentities]

theorem entity_of_eq (n : Node) : g'.entity n = g.entity n :=
  entity_congr (by rw [hentities]) (loader?_of_eq hentities)

/-- What a back-reference reads as is told by what is recorded and by the entities. -/
theorem noted_of_eq (howners : g'.owners = g.owners) (e : Edge) (c : Key) :
    g'.noted e c = g.noted e c := by
  have hl := loader?_of_eq hentities
  have halike : g.Alike g' := ⟨hl, fun k l p => by
    rw [present, present, hentities, hasRow_congr hl]⟩
  have horigin : ∀ n, g'.origin n = g.origin n := fun n => by
    rw [Graph.origin, Graph.origin, entity_of_eq hentities]
  rw [Graph.noted, Graph.noted, howners, halike.stored (horigin _)]

end Unchanged

/-- A change of nothing that is looked at. -/
theorem Peruses.of_eq (hentities : g'.entities = g.entities) (howners : g'.owners = g.owners)
    (hlists : g'.lists = g.lists) (hbuilt : g'.built = g.built) : g.Peruses g' := by
  have hl := loader?_of_eq hentities
  have hget := entity_of_eq hentities
  have halive : ∀ n, g'.alive n = g.alive n := fun n => by simp only [alive, hentities, hl]
  have hknown : ∀ c, g'.Known c = g.Known c := fun c => by
    cases c <;> simp only [Known, hbuilt]
  have horigin : ∀ n, g'.origin n = g.origin n := fun n => by rw [Graph.origin, Graph.origin, hget]
  intro hg
  refine ⟨?_, ?_⟩
  · exact {
      based := (halive _).trans hg.based
      opened := fun h => hbuilt ▸ hg.opened ((hl _).symm ▸ h)
      sourced := fun h => (hknown _) ▸ hg.sourced ((horigin _).symm.trans h)
      listed := fun h hc => (hknown _) ▸ hg.listed (hlists ▸ h) hc
      owned := fun h => ⟨(halive _).trans (hg.owned (howners ▸ h)).1,
        (hknown _) ▸ (hg.owned (howners ▸ h)).2⟩
      rooted := fun hn v hv => hg.rooted hn v (hget _ ▸ hv)
      housed := fun hn m hm => (halive _).trans (hg.housed hn m (hget _ ▸ hm)) }
  · exact {
      built := Nat.le_of_eq hbuilt.symm
      loader := hl
      alive := fun h => (halive _).trans h
      entity := fun _ => hget _ ▸ .refl _
      list := fun h => hlists ▸ h
      noted := fun _ h => (noted_of_eq hentities howners _ _).trans h
      unowned := fun _ h => .inl (howners ▸ h)
      taken := fun _ h => .inl (howners ▸ h)
      read := fun h => .inl (hlists ▸ h) }

/-! ### Containers -/

section Containers

variable {e : Edge} {o : Node} {c : Key}

/-- Asking for back-references reads. -/
theorem Peruses.of_asked {children : Node → Prop} (h : g.Asked children g') : g.Peruses g' := by
  intro hg
  have hbuilt : g.built ≤ g'.built := Nat.le_of_eq h.built.symm
  refine ⟨?_, ?_⟩
  · exact {
      based := (h.alive _).trans hg.based
      opened := fun hl => h.built ▸ hg.opened ((h.loader _).symm ▸ hl)
      sourced := fun ho => (hg.sourced ((h.origin _).symm.trans ho)).mono hbuilt
      listed := fun hl hc => (hg.listed (h.lists ▸ hl) hc).mono hbuilt
      owned := by
        intro e c o ho
        have hnoted : g.noted e c = some o := by
          rw [← h.noted, Graph.noted, ho]
          rfl
        obtain ⟨halive, hknown⟩ := hg.noted hnoted
        exact ⟨(h.alive _).trans halive, hknown.mono hbuilt⟩
      rooted := fun hn v hv => hg.rooted hn v (h.entity _ ▸ hv)
      housed := fun hn m hm => (h.alive _).trans (hg.housed hn m (h.entity _ ▸ hm)) }
  · exact {
      built := hbuilt
      loader := h.loader
      alive := fun ha => (h.alive _).trans ha
      entity := fun _ => h.entity _ ▸ .refl _
      list := fun hl => h.lists ▸ hl
      noted := fun _ ho => (h.noted _ _).trans ho
      unowned := fun _ ho => .inl (h.recorded ho)
      taken := by
        intro e c o _ ho
        have hnoted : g.noted e c = some o := by
          rw [← h.noted, Graph.noted, ho]
          rfl
        unfold Graph.noted at hnoted
        cases hrecorded : g.owners.get? (e, c) with
        | some held =>
          rw [hrecorded] at hnoted
          exact .inl (congrArg some hnoted)
        | none =>
          rw [hrecorded] at hnoted
          exact .inr (.inr ⟨g, fun _ => rfl, rfl, hnoted⟩)
      read := fun hl => .inl (h.lists ▸ hl) }

theorem Grounded.setOwner (hg : g.Grounded) (ho : g.alive o) (hknown : g.Known o.key) (e : Edge)
    (c : Key) : (g.setOwner e c (some o)).Grounded where
  based := hg.based
  opened := hg.opened
  sourced := hg.sourced
  listed := hg.listed
  owned := by
    intro e' c' o' h
    rw [owners_setOwner] at h
    split at h
    · cases h
      exact ⟨ho, hknown⟩
    · exact hg.owned h
  rooted := hg.rooted
  housed := hg.housed

/-- A child that is free, and that a store lists, becomes a container's. -/
theorem Peruses.of_take (ho : g.alive o) (hknown : g.Known o.key) (hoffered : g.Offered e c)
    (hfree : g.Free e o c) : g.Peruses (g.setOwner e c (some o)) := by
  refine fun hg => ⟨hg.setOwner ho hknown e c, ?_⟩
  exact {
    built := Nat.le_refl _
    loader := fun _ => rfl
    alive := id
    entity := fun _ => .refl _
    list := id
    noted := by
      intro e' c' o' _ h
      rw [noted_setOwner]
      split
      · next heq =>
        cases heq
        rw [hfree.2 o' h]
      · exact h
    unowned := by
      intro e' c' _ h
      rw [owners_setOwner]
      split
      · next heq =>
        cases heq
        exact .inr ⟨hoffered, by rw [Graph.noted, h]; rfl, hfree.1⟩
      · exact .inl h
    taken := by
      intro e' c' o' _ h
      rw [owners_setOwner] at h
      split at h
      · next heq =>
        cases heq
        exact .inr (.inl hoffered)
      · exact .inl h
    read := .inl }

/-- A private copy becomes a container's. -/
theorem Peruses.of_copy {k : Kind} {ρ : Type} [Recorded k ρ] [Recorded.Lawful k] {r : ρ}
    (ho : g.alive o) (hknown : g.Known o.key) (he : e ≠ .assemblyModules) (hk : k = e.childKind)
    (hvalues : (Recorded.pack k r).values = []) :
    g.Peruses ((g.grow k r).setOwner e (.built g.built) (some o)) := by
  have hkinds : k ≠ .module ∧ k ≠ .assembly := by
    subst hk
    cases e <;> first | exact absurd rfl he | decide
  intro hg
  obtain ⟨hgrounded, hgrow⟩ := Peruses.of_grow (g := g) (r := r) hkinds.1 hkinds.2
    (fun _ v hv => absurd (hvalues ▸ hv) List.not_mem_nil) hg
  refine ⟨hgrounded.setOwner (hgrow.alive ho) (hknown.mono hgrow.built) e _, ?_⟩
  have hne : ∀ {e' c'}, g.Certain e' c' → (e, Key.built g.built) ≠ (e', c') := by
    rintro e' c' (hc | rfl) heq
    · cases heq
      exact Nat.lt_irrefl _ hc
    · cases heq
      exact he rfl
  exact {
    built := hgrow.built
    loader := hgrow.loader
    alive := hgrow.alive
    entity := hgrow.entity
    list := hgrow.list
    noted := fun hc h => by
      rw [noted_setOwner, if_neg (hne hc)]
      exact hgrow.noted hc h
    unowned := fun hc h => by
      rw [owners_setOwner, if_neg (hne hc)]
      exact hgrow.unowned hc h
    taken := fun hc h => by
      rw [owners_setOwner, if_neg (hne hc)] at h
      exact hgrow.taken hc h
    read := hgrow.read }

theorem lists_setList (e' : Edge) (o' : Node) (cs : List Key) :
    (g.setList e o cs).lists.get? (e', o') =
      if (e, o) = (e', o') then some cs else g.lists.get? (e', o') := Index.get?_set _ _ _ _

theorem Grounded.setList (hg : g.Grounded) {cs : List Key} (hcs : ∀ c ∈ cs, g.Known c) :
    (g.setList e o cs).Grounded :=
  { hg with
    listed := by
      intro e' o' cs' c h hc
      rw [lists_setList] at h
      split at h
      · cases h
        exact hcs c hc
      · exact hg.listed h hc }

/-- A list that had not been read is written down as it is read. -/
theorem Peruses.of_setList (hread : g.Peruses g') (hempty : g'.lists.get? (e, o) = none)
    (hknown : ∀ c ∈ g.population e o, g'.Known c) :
    g.Peruses (g'.setList e o (g.population e o)) := by
  intro hg
  obtain ⟨hg', hper⟩ := hread hg
  have hset : g'.Preserved (g'.setList e o (g.population e o)) := {
    Preserved.refl g' with
    list := by
      intro e' o' cs' h
      rw [lists_setList]
      split
      · next heq =>
        cases heq
        rw [hempty] at h
        cases h
      · exact h
    noted := fun _ h => (noted_setList ..).trans h }
  refine ⟨hg'.setList hknown, hper.toPreserved.trans hset, ?_⟩
  intro e' o' cs' h
  rw [lists_setList] at h
  split at h
  · next heq =>
    cases heq
    cases h
    exact .inr ⟨g, .refl g, hg, rfl⟩
  · exact hper.read h

end Containers

end Graph
end CliMetadata
