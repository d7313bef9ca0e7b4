import CliMetadata.Graph.Members
import CliMetadata.Proofs.Graph.Stores

/-!
# Consulting a graph

What a comparison asks of a graph is the scopes of references, the signatures of
specifications and members, and the containers of types and modules.  All of this is
read on demand, and reading it changes the graph.  `Graph.Consulted g g'` says that `g'`
is `g` after some of it has been asked for: **every entity reads as before once its
slots are filled** (`Graph.filled`), and so does every back-reference.

A slot that is filled from the stores (`LazySlot`) is read as the same value in every
consulted graph, whether it was held, was filled meanwhile or is filled now
(`LazySlot.yields`).  This rests on one condition, `Graph.Intact`: whatever a slot
refers to is there.  An entity that is not there could still be made by filling a slot
of it, and then other slots would refer to it that do not now.
-/

namespace CliMetadata

open CliMetadata.Graph Loading Stateful

/-! ## Slots that are filled from the stores -/

/-- A slot of the entities of a kind that is filled from the stores. -/
structure LazySlot (k : Kind) {ρ : Type} [Recorded k ρ] (α : Type) where
  get : ρ → Slot α
  set : Slot α → ρ → ρ
  /-- What is read of an entity without a row. -/
  absent : α
  compute : (loader rid : Nat) → GraphM α
  /-- The types that a value refers to. -/
  refs : α → List TypeDefOrRef
  get_set : ∀ v r, get (set v r) = v
  set_set : ∀ v w r, set v (set w r) = set v r
  origin_set : ∀ v r, (Recorded.pack k (set v r)).origin? = (Recorded.pack k r).origin?
  /-- Nothing has been read of an entity as its row has it. -/
  get_ofRow : ∀ (s : Store) (loader place : Nat) (r : ρ),
    Recorded.ofRow? k s loader place = some r → get r = none
  get_blank : get (Recorded.blank k) = none
  ne_module : k ≠ .module
  ne_customAttribute : k ≠ .customAttribute
  refs_absent : refs absent = []
  /-- What is computed is told by the stores and refers to what is there. -/
  told : ∀ (g : Graph) (loader rid : Nat), ∃ v, g.FromStores (compute loader rid) v ∧
    ∀ t ∈ refs v, g.present t.node

theorem Recorded.pack_inj {k : Kind} {ρ : Type} [Recorded k ρ] {r r' : ρ}
    (h : Recorded.pack k r = Recorded.pack k r') : r = r' := by
  have hunpack := congrArg (Recorded.unpack? k) h
  rw [Recorded.unpack?_pack, Recorded.unpack?_pack] at hunpack
  exact Option.some.inj hunpack

theorem TypeDefOrRef.ne_customAttribute : ∀ t : TypeDefOrRef, t.node.kind ≠ .customAttribute
  | .typeDef _ | .typeRef _ | .typeSpec _ => by rintro ⟨⟩

namespace LazySlot

variable {k : Kind} {ρ : Type} [Recorded k ρ] {α : Type} (z : LazySlot k α) {g g' : Graph}
  {id : Id k}

/-- Reads the slot. -/
def read (id : Id k) : GraphM α := readSlot id (Graph.slot id z.get z.set) z.absent z.compute

/-- What the slot reads as. -/
def value (g : Graph) (id : Id k) : α := ((z.read id).run g).1

/-- What an empty slot is filled with. -/
def stored (g : Graph) (id : Id k) : GraphM α := fromStore (g.origin id.node) z.absent z.compute

/-- The entity with what the slot reads as in it. -/
def fill (g : Graph) (id : Id k) : Entity :=
  Recorded.pack (ρ := ρ) k (z.set (some (z.value g id)) (g.get id))

/-- What the slot refers to where it holds something is there. -/
def Safe (g : Graph) : Prop :=
  ∀ (id : Id k) (v : α), z.get (g.get id) = some v → ∀ t ∈ z.refs v, g.present t.node

theorem told_stored (g : Graph) (id : Id k) :
    ∃ v, g.FromStores (z.stored g id) v ∧ ∀ t ∈ z.refs v, g.present t.node := by
  have hreader : ∀ g', g.Alike g' →
      g'.reader? (g.origin id.node) = g.reader? (g.origin id.node) := by
    intro g' h
    unfold reader?
    simp only [h.loader]
  cases hrow : g.reader? (g.origin id.node) with
  | none =>
    refine ⟨z.absent, fun g' h => ?_, by simp [z.refs_absent]⟩
    rw [stored, fromStore, run_get_bind, hreader g' h, hrow]
    exact ⟨rfl, .refl g'⟩
  | some row =>
    obtain ⟨v, hv, hrefs⟩ := z.told g row.1 row.2
    refine ⟨v, fun g' h => ?_, hrefs⟩
    rw [stored, fromStore, run_get_bind, hreader g' h, hrow]
    exact hv g' h

theorem run_held {v : α} (h : z.get (g.get id) = some v) : (z.read id).run g = (v, g) := by
  rw [read, readSlot, run_get_bind]
  exact getRelaxed_held h

theorem value_held {v : α} (h : z.get (g.get id) = some v) : z.value g id = v :=
  congrArg Prod.fst (z.run_held h)

/-- An entity that has not been made holds nothing. -/
theorem get_unmade (h : g.entities.get? id.node = none) : z.get (g.get id) = none := by
  unfold Graph.get
  rw [h]
  cases id.key with
  | built _ => exact z.get_blank
  | row loader place =>
    cases hr : (g.store? loader).bind fun s => Recorded.ofRow? k s loader place with
    | none => simpa [hr] using z.get_blank
    | some r =>
      obtain ⟨s, -, hr'⟩ := Option.bind_eq_some_iff.mp hr
      simpa [hr] using z.get_ofRow s loader place r hr'

theorem value_of_fill (h : z.fill g' id = z.fill g id) : z.value g' id = z.value g id := by
  have hslot := congrArg z.get (Recorded.pack_inj h)
  rw [z.get_set, z.get_set] at hslot
  exact Option.some.inj hslot

variable [Recorded.Lawful k]

theorem get_of_entity (h : g'.entity id.node = g.entity id.node) :
    g'.get id = g.get id := by
  rw [Recorded.Lawful.entity_node (ρ := ρ), Recorded.Lawful.entity_node (ρ := ρ)] at h
  exact Recorded.pack_inj h

/-- An empty slot is filled with what the stores say. -/
theorem run_empty (h : z.get (g.get id) = none) :
    (z.read id).run g = (((z.stored g id).run g).1,
      ((z.stored g id).run g).2.update id (z.set (some ((z.stored g id).run g).1))) := by
  obtain ⟨v, hv, -⟩ := z.told_stored g id
  have hsame : ((z.stored g id).run g).2.get id = g.get id :=
    get_of_entity (hv.quiet.entity z.ne_customAttribute)
  have hempty : z.get (((z.stored g id).run g).2.get id) = none := hsame ▸ h
  rw [read, readSlot, run_get_bind]
  exact getRelaxed_empty h hempty

theorem value_empty (h : z.get (g.get id) = none) : z.value g id = ((z.stored g id).run g).1 := by
  rw [value, z.run_empty h]

/-- An entity that is the same where the same is read from rows reads the same. -/
theorem value_congr (h : g.Alike g') (he : g'.entity id.node = g.entity id.node) :
    z.value g' id = z.value g id := by
  have hget : g'.get id = g.get id := get_of_entity he
  cases hv : z.get (g.get id) with
  | some v => rw [z.value_held hv, z.value_held (hget ▸ hv)]
  | none =>
    have hstored : z.stored g' id = z.stored g id := by
      unfold stored origin
      rw [he]
    obtain ⟨w, hw, -⟩ := z.told_stored g id
    rw [z.value_empty hv, z.value_empty (hget ▸ hv), hstored]
    exact hw.congr h

theorem fill_congr (id : Id k) (h : g.Alike g') (he : g'.entity id.node = g.entity id.node) :
    z.fill g' id = z.fill g id := by
  rw [fill, fill, z.value_congr h he, get_of_entity he]

/-- What a slot reads as refers to what is there. -/
theorem refs_value (h : z.Safe g) (id : Id k) : ∀ t ∈ z.refs (z.value g id), g.present t.node := by
  cases hv : z.get (g.get id) with
  | some v =>
    rw [z.value_held hv]
    exact h id v hv
  | none =>
    obtain ⟨w, hw, hrefs⟩ := z.told_stored g id
    rw [z.value_empty hv, hw.value]
    exact hrefs

end LazySlot

/-! ## The slots that comparisons read -/

/-- The reference that encloses a scope's types. -/
def ResolutionScope.refs : Option ResolutionScope → List TypeDefOrRef
  | some (.typeRef r) => [.typeRef r]
  | _ => []

/-- The references of a signature that may be missing. -/
def optionRefs {α : Type} (refs : α → List TypeDefOrRef) : Option α → List TypeDefOrRef
  | some x => refs x
  | none => []

theorem present_optionRefs {α : Type} {refs : α → List TypeDefOrRef} {g : Graph} {v : Option α}
    (h : ∀ x ∈ v, ∀ r ∈ refs x, g.present r.node) : ∀ r ∈ optionRefs refs v, g.present r.node := by
  cases v with
  | none => simp [optionRefs]
  | some x => exact h x rfl

/-- The slot of the scope of a reference. -/
def TypeRefId.lazyScope : LazySlot .typeRef (Option ResolutionScope) where
  get := (·.scope)
  set v e := { e with scope := v }
  absent := none
  compute loader rid := do
    match ← rowAt (·.typeRefs) loader rid with
    | none => return none
    | some row => resolutionScope loader row.scope
  refs := ResolutionScope.refs
  get_set _ _ := rfl
  set_set _ _ _ := rfl
  origin_set _ _ := rfl
  get_ofRow _ _ _ _ h := by
    obtain ⟨_, _, rfl⟩ := Option.map_eq_some_iff.mp h
    rfl
  get_blank := rfl
  ne_module := by decide
  ne_customAttribute := by decide
  refs_absent := rfl
  told g loader rid := by
    have hrow := fromStores_rowAt (g := g) (·.typeRefs) loader rid
    cases hstored : (g.store? loader).bind fun s => Store.nth s.typeRefs rid with
    | none =>
      rw [hstored] at hrow
      exact ⟨none, hrow.bind (.pure _), by simp [ResolutionScope.refs]⟩
    | some row =>
      rw [hstored] at hrow
      obtain ⟨v, hv, hpresent⟩ := fromStores_resolutionScope g loader row.scope
      refine ⟨v, hrow.bind hv, fun t ht => ?_⟩
      unfold ResolutionScope.refs at ht
      split at ht
      · obtain rfl := List.mem_singleton.mp ht
        exact hpresent _ rfl
      · cases ht

/-- The slot of the signature of a specification. -/
def TypeSpecId.lazySig : LazySlot .typeSpec (Option Sig) where
  get := (·.sig)
  set v e := { e with sig := v }
  absent := none
  compute loader rid := do
    match ← rowAt (·.typeSpecs) loader rid with
    | none => return none
    | some row => typeSig loader row.signature
  refs := optionRefs TypeSig.refs
  get_set _ _ := rfl
  set_set _ _ _ := rfl
  origin_set _ _ := rfl
  get_ofRow _ _ _ _ h := by
    obtain ⟨_, _, rfl⟩ := Option.map_eq_some_iff.mp h
    rfl
  get_blank := rfl
  ne_module := by decide
  ne_customAttribute := by decide
  refs_absent := rfl
  told g loader rid := by
    have hrow := fromStores_rowAt (g := g) (·.typeSpecs) loader rid
    cases hstored : (g.store? loader).bind fun s => Store.nth s.typeSpecs rid with
    | none =>
      rw [hstored] at hrow
      exact ⟨none, hrow.bind (.pure _), by simp [optionRefs]⟩
    | some row =>
      rw [hstored] at hrow
      obtain ⟨v, hv, hrefs⟩ := fromStores_typeSig g loader row.signature
      exact ⟨v, hrow.bind hv, present_optionRefs hrefs⟩

/-- The slot of the signature of a method. -/
def MethodDefId.lazySig : LazySlot .methodDef (Option (MethodSig TypeDefOrRef)) where
  get := (·.sig)
  set v e := { e with sig := v }
  absent := none
  compute := signatureOf (·.methodDefs) (·.signature) Signature.method?
  refs := optionRefs MethodSig.refs
  get_set _ _ := rfl
  set_set _ _ _ := rfl
  origin_set _ _ := rfl
  get_ofRow _ _ _ _ h := by
    obtain ⟨_, _, rfl⟩ := Option.map_eq_some_iff.mp h
    rfl
  get_blank := rfl
  ne_module := by decide
  ne_customAttribute := by decide
  refs_absent := rfl
  told g loader rid := by
    have hpart : ∀ (s : Signature TypeDefOrRef) b, s.method? = some b → ∀ r ∈ b.refs, r ∈ s.refs := by
      intro s b hb
      cases s <;> cases hb
      exact fun _ => id
    obtain ⟨v, hv, hrefs⟩ := fromStores_signatureOf g loader hpart rid
    exact ⟨v, hv, present_optionRefs hrefs⟩

/-- The slot of the signature of a field. -/
def FieldId.lazySig : LazySlot .field (Option Sig) where
  get := (·.sig)
  set v e := { e with sig := v }
  absent := none
  compute := signatureOf (·.fields) (·.signature) Signature.field?
  refs := optionRefs TypeSig.refs
  get_set _ _ := rfl
  set_set _ _ _ := rfl
  origin_set _ _ := rfl
  get_ofRow _ _ _ _ h := by
    obtain ⟨_, _, rfl⟩ := Option.map_eq_some_iff.mp h
    rfl
  get_blank := rfl
  ne_module := by decide
  ne_customAttribute := by decide
  refs_absent := rfl
  told g loader rid := by
    have hpart : ∀ (s : Signature TypeDefOrRef) b, s.field? = some b → ∀ r ∈ b.refs, r ∈ s.refs := by
      intro s b hb
      cases s <;> cases hb
      exact fun _ => id
    obtain ⟨v, hv, hrefs⟩ := fromStores_signatureOf g loader hpart rid
    exact ⟨v, hv, present_optionRefs hrefs⟩

/-! ## Graphs that have been consulted -/

namespace Graph

variable {g g' g'' : Graph}

/-- An entity as it reads once the slots that comparisons read are filled. -/
def filled (g : Graph) (n : Node) : Entity :=
  match n.kind with
  | .typeRef => TypeRefId.lazyScope.fill g ⟨n.key⟩
  | .typeSpec => TypeSpecId.lazySig.fill g ⟨n.key⟩
  | .methodDef => MethodDefId.lazySig.fill g ⟨n.key⟩
  | .field => FieldId.lazySig.fill g ⟨n.key⟩
  | _ => g.entity n

theorem filled_congr (h : g.Alike g') {n : Node} (he : g'.entity n = g.entity n) :
    g'.filled n = g.filled n := by
  obtain ⟨kind, key⟩ := n
  cases kind with
  | typeRef => exact TypeRefId.lazyScope.fill_congr ⟨key⟩ h he
  | typeSpec => exact TypeSpecId.lazySig.fill_congr ⟨key⟩ h he
  | methodDef => exact MethodDefId.lazySig.fill_congr ⟨key⟩ h he
  | field => exact FieldId.lazySig.fill_congr ⟨key⟩ h he
  | _ => exact he

/-- **The graph after some consulting.** -/
structure Consulted (g g' : Graph) : Prop extends Alike g g' where
  filled : ∀ {n}, n.kind ≠ .customAttribute → g'.filled n = g.filled n
  present : ∀ {n}, n.kind ≠ .customAttribute → g'.present n = g.present n
  noted : ∀ e c, g'.noted e c = g.noted e c

namespace Consulted

theorem refl (g : Graph) : g.Consulted g where
  toAlike := .refl g
  filled _ := rfl
  present _ := rfl
  noted _ _ := rfl

theorem trans (h : g.Consulted g') (k : g'.Consulted g'') : g.Consulted g'' where
  toAlike := h.toAlike.trans k.toAlike
  filled hn := (k.filled hn).trans (h.filled hn)
  present hn := (k.present hn).trans (h.present hn)
  noted e c := (k.noted e c).trans (h.noted e c)

/-- Asking for back-references is consulting. -/
theorem of_asked {children : Node → Prop} (h : g.Asked children g') : g.Consulted g' where
  toAlike := h.toAlike
  filled _ := filled_congr h.toAlike (h.entity _)
  present _ := h.present _
  noted := h.noted

theorem childKind_ne (e : Edge) : e.childKind ≠ .customAttribute := by
  cases e <;> decide

/-- Reading from stores is consulting. -/
theorem of_quiet (h : g.Quiet g') : g.Consulted g' where
  toAlike := h.toAlike
  filled hn := filled_congr h.toAlike (h.entity hn)
  present := h.present
  noted e c := by
    have horigin : g'.origin ⟨e.childKind, c⟩ = g.origin ⟨e.childKind, c⟩ := by
      unfold origin
      rw [h.entity (childKind_ne e)]
    rw [Graph.noted, Graph.noted, h.recorded, h.toAlike.stored horigin]

section Slots

variable {k : Kind} {ρ : Type} [Recorded k ρ] [Recorded.Lawful k] {α : Type} {z : LazySlot k α}
  {id : Id k}

/-- Filling a slot with what it reads as is consulting, for an entity that is there. -/
theorem of_fill (hz : ∀ (g : Graph) (id : Id k), g.filled id.node = z.fill g id)
    (hp : g.present id.node) : g.Consulted (g.update id (z.set (some (z.value g id)))) := by
  have hl := loader?_put (g := g) z.ne_module id (z.set (some (z.value g id)) (g.get id))
  have halike : g.Alike (g.update id (z.set (some (z.value g id)))) := .of_put hl hp
  have hget : (g.update id (z.set (some (z.value g id)))).get id =
      z.set (some (z.value g id)) (g.get id) := get_put id _
  have hother : ∀ n, id.node ≠ n →
      (g.update id (z.set (some (z.value g id)))).entity n = g.entity n :=
    fun n hn => entity_put_of_ne hl hn
  have horigin : ∀ n, (g.update id (z.set (some (z.value g id)))).origin n = g.origin n := by
    intro n
    unfold origin
    by_cases hn : id.node = n
    · rw [← hn, Recorded.Lawful.entity_node (ρ := ρ), hget, z.origin_set,
        ← Recorded.Lawful.entity_node (ρ := ρ)]
    · rw [hother n hn]
  refine ⟨halike, fun {n} _ => ?_, fun _ => present_put hl hp _, fun e c => ?_⟩
  · by_cases hn : id.node = n
    · have hvalue : z.value (g.update id (z.set (some (z.value g id)))) id = z.value g id :=
        z.value_held ((congrArg z.get hget).trans (z.get_set _ _))
      rw [← hn, hz, hz, LazySlot.fill, LazySlot.fill, hvalue, hget, z.set_set]
    · exact filled_congr halike (hother n hn)
  · rw [Graph.noted, Graph.noted, halike.stored (horigin _)]
    rfl

/-- Reading a slot of an entity that is there is consulting. -/
theorem of_read (hz : ∀ (g : Graph) (id : Id k), g.filled id.node = z.fill g id)
    (hp : g.present id.node) : g.Consulted ((z.read id).run g).2 := by
  cases hv : z.get (g.get id) with
  | some v =>
    rw [z.run_held hv]
    exact refl g
  | none =>
    obtain ⟨v, htold, -⟩ := z.told_stored g id
    have hread := htold.quiet
    -- the slot is still empty when its value has been computed
    have hentity := hread.entity (n := id.node) z.ne_customAttribute
    have hvalue : z.value ((z.stored g id).run g).2 id = ((z.stored g id).run g).1 := by
      rw [z.value_congr hread.toAlike hentity, z.value_empty hv]
    rw [z.run_empty hv, ← hvalue]
    exact (of_quiet hread).trans (of_fill hz ((hread.present z.ne_customAttribute).trans hp))

omit [Recorded.Lawful k] in
/-- A slot reads the same in every graph that has been consulted. -/
theorem value (hz : ∀ (g : Graph) (id : Id k), g.filled id.node = z.fill g id)
    (h : g.Consulted g') (id : Id k) : z.value g' id = z.value g id := by
  have hfilled := h.filled (n := id.node) z.ne_customAttribute
  rw [hz, hz] at hfilled
  exact z.value_of_fill hfilled

end Slots

/-- What exists is the same, attributes apart. -/
theorem alive (h : g.Consulted g') {n : Node} (hn : n.kind ≠ .customAttribute) :
    g'.alive n = g.alive n := by
  rw [alive_eq_present, alive_eq_present, h.present hn]
  simp only [h.loader]

end Consulted

/-! ## Intact graphs -/

/-- **Whatever is referred to is there**: containers are of the kinds that contain, and
what the slots that comparisons read refer to exists. -/
structure Intact (g : Graph) : Prop where
  owner : ∀ {e c o}, g.owners.get? (e, c) = some (some o) → o.kind ∈ e.ownerKinds
  scope : TypeRefId.lazyScope.Safe g
  spec : TypeSpecId.lazySig.Safe g
  method : MethodDefId.lazySig.Safe g
  field : FieldId.lazySig.Safe g

namespace Intact

/-- A back-reference reads as a container. -/
theorem noted_kind (hg : g.Intact) {e : Edge} {c : Key} {o : Node} (h : g.noted e c = some o) :
    o.kind ∈ e.ownerKinds := by
  unfold noted at h
  cases hv : g.owners.get? (e, c) with
  | none =>
    rw [hv] at h
    exact (stored_container h).2
  | some v =>
    rw [hv] at h
    obtain rfl : v = some o := h
    exact hg.owner hv

theorem ownerKind_ne {e : Edge} {k : Kind} (h : k ∈ e.ownerKinds) : k ≠ .customAttribute := by
  rintro rfl
  revert h
  cases e <;> decide

section Slots

variable {k : Kind} {ρ : Type} [Recorded k ρ] [Recorded.Lawful k] {α : Type} {z : LazySlot k α}

/-- A slot that refers to what is there still does after consulting. -/
theorem safe (hz : ∀ (g : Graph) (id : Id k), g.filled id.node = z.fill g id)
    (hg : z.Safe g) (h : g.Consulted g') : z.Safe g' := by
  intro id v hv t ht
  have hvalue : z.value g id = v := by rw [← h.value hz, z.value_held hv]
  rw [h.present t.ne_customAttribute]
  exact z.refs_value hg id t (hvalue ▸ ht)

end Slots

/-- **Consulting keeps a graph intact.** -/
theorem consulted (hg : g.Intact) (h : g.Consulted g') : g'.Intact where
  owner {e c o} ho := by
    have hnoted : g'.noted e c = some o := by
      rw [noted, ho]
      rfl
    exact hg.noted_kind (h.noted e c ▸ hnoted)
  scope := safe (fun _ _ => rfl) hg.scope h
  spec := safe (fun _ _ => rfl) hg.spec h
  method := safe (fun _ _ => rfl) hg.method h
  field := safe (fun _ _ => rfl) hg.field h

end Intact

/-- A graph in which nothing has been read is intact. -/
theorem Intact.of_unmade (howner : ∀ {e c o}, g.owners.get? (e, c) ≠ some (some o))
    (hmade : ∀ n : Node, n.kind ≠ .module → g.entities.get? n = none) : g.Intact where
  owner ho := absurd ho howner
  scope id v hv := by cases (TypeRefId.lazyScope.get_unmade (hmade id.node nofun)).symm.trans hv
  spec id v hv := by cases (TypeSpecId.lazySig.get_unmade (hmade id.node nofun)).symm.trans hv
  method id v hv := by cases (MethodDefId.lazySig.get_unmade (hmade id.node nofun)).symm.trans hv
  field id v hv := by cases (FieldId.lazySig.get_unmade (hmade id.node nofun)).symm.trans hv

/-! ## What is read alike -/

section Reads

/-- A slot of an entity that is there reads alike in every graph that has been consulted. -/
theorem LazySlot.yields {k : Kind} {ρ : Type} [Recorded k ρ] [Recorded.Lawful k] {α : Type}
    {z : LazySlot k α} (hz : ∀ (g : Graph) (id : Id k), g.filled id.node = z.fill g id)
    {id : Id k} (hp : g.present id.node) : Yields g.Consulted (z.read id) (z.value g id) := by
  intro g' h
  refine ⟨h.value hz id, h.trans (.of_read hz ?_)⟩
  rw [h.present z.ne_customAttribute, hp]

/-- So does a back-reference. -/
theorem Intact.yields_owner (hg : g.Intact) (e : Edge) (c : Key) :
    Yields g.Consulted (Ownership.owner e c) ((g.noted e c).filter g.alive) := by
  intro g' h
  obtain ⟨hasked, hvalue, -⟩ := owner_run g' e c
  refine ⟨?_, h.trans (.of_asked hasked)⟩
  rw [hvalue, h.noted]
  cases ho : g.noted e c with
  | none => rfl
  | some o =>
    have halive := h.alive (ownerKind_ne (hg.noted_kind ho))
    simp [Option.filter_some, halive]

end Reads
end Graph
end CliMetadata
