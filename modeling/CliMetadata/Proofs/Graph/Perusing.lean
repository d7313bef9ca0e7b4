import CliMetadata.Graph.Modules
import CliMetadata.Proofs.Graph.Perused
import CliMetadata.Proofs.Graph.References

/-!
# Reading leads to graphs that have been read

Every accessor keeps the relation `Graph.Peruses`.  It is shown for what fills a slot and for what
reads a list, and follows for the rest from the way in which it is put together.  A slot may be
filled with what is computed for it, since **what the stores tell refers to rows**; and a list may be
written down, since what it takes over is what the store lists for its container and nothing else
contains.
-/

namespace CliMetadata

open CliMetadata.Graph Loading Stateful

/-! ## Entities that are made -/

section Made

variable {k : Kind} {ρ : Type} [Recorded k ρ]

variable [Recorded.Lawful k]

theorem shared_peruses (hk : k ≠ .module) (l p : Nat) : Keeps Peruses (shared k l p) := by
  intro g
  rw [shared_run]
  split
  · exact refl_of Peruses g
  · next hc =>
    split
    · exact refl_of Peruses g
    · next r hr =>
      refine Peruses.of_put_same (fun l' => loader?_put hk _ r l') ?_
      rw [Recorded.Lawful.entity_node (ρ := ρ), get_of_not_contains hc hr]

/-- What refers to nothing, or to what there is, is made. -/
theorem makeUnread_peruses (hk : k ≠ .module) (hk' : k ≠ .assembly) (r : ρ)
    (hvalues : k ∉ [.typeRef, .typeSpec, .memberRef] →
      ∀ v ∈ (Recorded.pack k r).values, v.OfRows) : Keeps Peruses (makeUnread k r) :=
  fun _ => Peruses.of_grow hk hk' hvalues

end Made

/-! ## Reading from stores -/

section Stores

variable {α : Type} {l : Nat}

theorem rowAt_peruses (table : Store → List α) (rid : Nat) : Keeps Peruses (rowAt table l rid) :=
  fun g => refl_of Peruses g

theorem parent?_peruses (relation : Relation) (child : Token) :
    Keeps Peruses (parent? l relation child) := fun g => refl_of Peruses g

theorem children_peruses (relation : Relation) (owner : Token) :
    Keeps Peruses (children l relation owner) := fun _ => .of_eq rfl rfl rfl rfl

theorem carried_peruses (n : Node) (carried : List CustomAttributeId) :
    Keeps Peruses (modify ((attributeSlot n).publish carried) : GraphM Unit) :=
  fun _ => .of_eq rfl rfl rfl rfl

theorem methodOf_peruses (kind : CodedKind) (index : CodedIndex) :
    Keeps Peruses (methodOf kind l index) := by
  unfold methodOf
  refine Keeps.ite ?_ (Keeps.pure _)
  split
  · exact (shared_peruses (by decide) _ _).bind fun _ => Keeps.pure _
  · exact (shared_peruses (by decide) _ _).bind fun _ => Keeps.pure _
  · exact Keeps.pure _

theorem attributes_peruses (parent : Token) : Keeps Peruses (attributes l parent) := by
  refine (children_peruses _ _).bind fun rids => keeps_collect (fun rid => ?_) rids
  refine (rowAt_peruses _ _).bind fun row => ?_
  cases row with
  | none => exact Keeps.pure _
  | some row =>
    refine (methodOf_peruses _ _).bind fun _ => Keeps.get.bind fun _ => ?_
    exact (makeUnread_peruses (by decide) (by decide) _ (by simp [Entity.values, Recorded.pack])).map

theorem sharedWithAttributes_peruses {k : Kind} {ρ : Type} [Recorded k ρ] [Recorded.Lawful k]
    (hk : k ≠ .module) (hk' : k ≠ .customAttribute) (token : ρ → Token) (place : Nat) :
    Keeps Peruses (sharedWithAttributes k token l place) := by
  intro g
  let id : Id k := ⟨.row l place⟩
  unfold sharedWithAttributes
  rw [run_get_bind]
  by_cases hc : g.entities.contains id.node
  · rw [if_pos hc]
    exact refl_of Peruses g
  · rw [if_neg hc]
    cases hr : (g.store? l).bind fun s => Recorded.ofRow? k s l place with
    | none => exact refl_of Peruses g
    | some r =>
      -- the entity reads the same after its attributes, and is written down like this
      have hcolumns := (quiet_attributes l (token r) g).entity (n := id.node) hk'
      rw [Recorded.Lawful.entity_node (ρ := ρ) g, get_of_not_contains hc hr] at hcolumns
      refine trans_of Peruses (attributes_peruses (l := l) (token r) g) ?_
      refine trans_of Peruses (Peruses.of_put_same (loader?_put hk id r) hcolumns) ?_
      exact Peruses.of_eq rfl rfl rfl rfl

theorem assemblyRef_peruses (place : Nat) : Keeps Peruses (Loading.assemblyRef l place) :=
  sharedWithAttributes_peruses (by decide) (by decide) _ _

theorem moduleRef_peruses (place : Nat) : Keeps Peruses (Loading.moduleRef l place) :=
  sharedWithAttributes_peruses (by decide) (by decide) _ _

theorem file_peruses (place : Nat) : Keeps Peruses (Loading.file l place) :=
  sharedWithAttributes_peruses (by decide) (by decide) _ _

theorem securities_peruses (parent : Token) : Keeps Peruses (securities l parent) := by
  refine (children_peruses _ _).bind fun rids => keeps_collect (fun rid => ?_) rids
  refine (rowAt_peruses _ _).bind fun row => ?_
  cases row with
  | none => exact Keeps.pure _
  | some row =>
    refine Keeps.get.bind fun _ => (attributes_peruses _).bind fun carried => ?_
    refine (makeUnread_peruses (by decide) (by decide) _
      (by simp [Entity.values, Recorded.pack])).bind fun id => ?_
    exact (carried_peruses id.node carried).bind fun _ => Keeps.pure _

theorem constant_peruses (parent : Token) : Keeps Peruses (Loading.constant l parent) := by
  refine (children_peruses _ _).bind fun rids => ?_
  cases rids with
  | nil => exact Keeps.pure _
  | cons rid _ =>
    refine (rowAt_peruses _ _).bind fun row => ?_
    cases row with
    | none => exact Keeps.pure _
    | some row =>
      exact Keeps.get.bind fun _ => (makeUnread_peruses (by decide) (by decide) _
        (by simp [Entity.values, Recorded.pack])).map

theorem implMap_peruses (method : Token) : Keeps Peruses (Loading.implMap l method) := by
  refine (children_peruses _ _).bind fun rids => ?_
  cases rids with
  | nil => exact Keeps.pure _
  | cons rid _ =>
    refine (rowAt_peruses _ _).bind fun row => ?_
    cases row with
    | none => exact Keeps.pure _
    | some row =>
      refine Keeps.get.bind fun _ => (moduleRef_peruses _).bind fun _ => ?_
      exact (makeUnread_peruses (by decide) (by decide) _
        (by simp [Entity.values, Recorded.pack])).map

end Stores

/-! ## What coded indices refer to -/

section Coded

variable {l : Nat} {k : Kind} {ρ α β : Type} [Recorded k ρ]

/-- A computation that gives rows alone. -/
def GivesRows (x : GraphM (Option (Id k))) : Prop :=
  ∀ (g : Graph) (id : Id k), (x.run g).1 = some id → id.key.IsRow

theorem shared_rows (p : Nat) : GivesRows (shared k l p) := by
  intro g id h
  rw [shared_run] at h
  split at h
  · cases h
    trivial
  · split at h
    · cases h
    · cases h
      trivial

theorem sharedWithAttributes_rows (token : ρ → Token) (p : Nat) :
    GivesRows (sharedWithAttributes k token l p) := by
  intro g id h
  unfold sharedWithAttributes at h
  rw [run_get_bind] at h
  by_cases hc : g.entities.contains (⟨.row l p⟩ : Id k).node
  · rw [if_pos hc] at h
    cases h
    trivial
  · rw [if_neg hc] at h
    cases hr : (g.store? l).bind fun s => Recorded.ofRow? k s l p with
    | none =>
      rw [hr] at h
      cases h
    | some r =>
      rw [hr] at h
      cases h
      trivial

omit [Recorded k ρ] in
theorem GivesRows.map {x : GraphM (Option (Id k))} (hx : GivesRows x) {g : Graph} {f : Id k → β}
    {b : β} (h : ((do return (← x).map f : GraphM (Option β)).run g).1 = some b) :
    ∃ id, f id = b ∧ id.key.IsRow := by
  obtain ⟨id, hid, hb⟩ := Option.map_eq_some_iff.mp h
  exact ⟨id, hb, hx g id hid⟩

/-- What is read and put into something. -/
theorem Keeps.put_into {R : Graph → Graph → Prop} [IsPreorder Graph R] {x : GraphM α}
    (hx : Keeps R x) (f : α → β) : Keeps R (do return f (← x) : GraphM β) :=
  hx.bind fun _ => Keeps.pure _

variable {g : Graph} (index : CodedIndex)

theorem typeDefOrRef_peruses : Keeps Peruses (typeDefOrRef l index) := by
  unfold typeDefOrRef
  refine Keeps.ite ?_ (Keeps.pure _)
  split
  · exact (shared_peruses (by decide) _ _).put_into _
  · exact (shared_peruses (by decide) _ _).put_into _
  · exact (shared_peruses (by decide) _ _).put_into _
  · exact Keeps.pure _

theorem typeDefOrRef_rows : (SlotValue.type ((typeDefOrRef l index).run g).1).OfRows := by
  intro n hn
  obtain ⟨t, ht, rfl⟩ := List.mem_map.mp hn
  have h := Option.mem_toList.mp ht
  unfold typeDefOrRef at h
  split at h
  · split at h
    · obtain ⟨id, rfl, hid⟩ := (shared_rows _).map h
      exact hid
    · obtain ⟨id, rfl, hid⟩ := (shared_rows _).map h
      exact hid
    · obtain ⟨id, rfl, hid⟩ := (shared_rows _).map h
      exact hid
    · cases h
  · cases h

theorem resolutionScope_peruses : Keeps Peruses (resolutionScope l index) := by
  unfold resolutionScope
  refine Keeps.ite ?_ (Keeps.pure _)
  split
  · exact Keeps.pure _
  · exact (moduleRef_peruses _).put_into _
  · exact (assemblyRef_peruses _).put_into _
  · exact (shared_peruses (by decide) _ _).put_into _
  · exact Keeps.pure _

/-- A scope is a row, or the module that it is read through. -/
theorem resolutionScope_rows {s : ResolutionScope}
    (h : ((resolutionScope l index).run g).1 = some s) :
    s = .module ⟨.built l⟩ ∨ s.node.key.IsRow ∧ ∀ m, s ≠ .module m := by
  unfold resolutionScope at h
  split at h
  · split at h
    · exact .inl (Option.some.inj (Option.ite_none_right_eq_some.mp h).2).symm
    · obtain ⟨id, rfl, hid⟩ := (sharedWithAttributes_rows _ _).map h
      exact .inr ⟨hid, nofun⟩
    · obtain ⟨id, rfl, hid⟩ := (sharedWithAttributes_rows _ _).map h
      exact .inr ⟨hid, nofun⟩
    · obtain ⟨id, rfl, hid⟩ := (shared_rows _).map h
      exact .inr ⟨hid, nofun⟩
    · cases h
  · cases h

theorem memberParent_peruses : Keeps Peruses (memberParent l index) := by
  unfold memberParent
  refine Keeps.ite ?_ (Keeps.pure _)
  split
  · exact (shared_peruses (by decide) _ _).put_into _
  · exact (shared_peruses (by decide) _ _).put_into _
  · exact (shared_peruses (by decide) _ _).put_into _
  · exact (moduleRef_peruses _).put_into _
  · exact (shared_peruses (by decide) _ _).put_into _
  · exact Keeps.pure _

theorem memberParent_rows : (SlotValue.parent ((memberParent l index).run g).1).OfRows := by
  intro n hn
  obtain ⟨p, hp, rfl⟩ := List.mem_map.mp hn
  have h := Option.mem_toList.mp hp
  unfold memberParent at h
  split at h
  · split at h
    · obtain ⟨id, rfl, hid⟩ := (shared_rows _).map h
      exact hid
    · obtain ⟨id, rfl, hid⟩ := (shared_rows _).map h
      exact hid
    · obtain ⟨id, rfl, hid⟩ := (shared_rows _).map h
      exact hid
    · obtain ⟨id, rfl, hid⟩ := (sharedWithAttributes_rows _ _).map h
      exact hid
    · obtain ⟨id, rfl, hid⟩ := (shared_rows _).map h
      exact hid
    · cases h
  · cases h

theorem implementation_peruses : Keeps Peruses (Loading.implementation l index) := by
  unfold Loading.implementation
  refine Keeps.ite ?_ (Keeps.pure _)
  split
  · exact (file_peruses _).put_into _
  · exact (assemblyRef_peruses _).put_into _
  · exact (shared_peruses (by decide) _ _).put_into _
  · exact Keeps.pure _

theorem implementation_rows :
    (SlotValue.implementation ((Loading.implementation l index).run g).1).OfRows := by
  intro n hn
  obtain ⟨i, hi, rfl⟩ := List.mem_map.mp hn
  have h := Option.mem_toList.mp hi
  unfold Loading.implementation at h
  split at h
  · split at h
    · obtain ⟨id, rfl, hid⟩ := (sharedWithAttributes_rows _ _).map h
      exact hid
    · obtain ⟨id, rfl, hid⟩ := (sharedWithAttributes_rows _ _).map h
      exact hid
    · obtain ⟨id, rfl, hid⟩ := (shared_rows _).map h
      exact hid
    · cases h
  · cases h

end Coded

/-! ## What stored signatures refer to -/

section Signatures

variable {g : Graph} {l : Nat}

/-- A reference that the stores tell is to a row. -/
theorem typeOf_row {token : Token} {t : TypeDefOrRef} (h : g.typeOf l token = some t) :
    t.node.key.IsRow :=
  typeDefOrRef_rows _ t.node (List.mem_map_of_mem (Option.mem_toList.mpr h))

theorem countSignature_peruses : Keeps Peruses (countSignature l) := fun _ => .of_eq rfl rfl rfl rfl

theorem typeOfToken_peruses (token : Token) : Keeps Peruses (typeOfToken l token).run :=
  typeDefOrRef_peruses _

theorem signature_peruses (index : Nat) : Keeps Peruses (signature l index) := by
  refine countSignature_peruses.bind fun _ => Keeps.get.bind fun g => ?_
  split
  · exact Keeps.sequential.signatureTraverse typeOfToken_peruses _
  · exact Keeps.pure _

theorem typeSig_peruses (index : Nat) : Keeps Peruses (typeSig l index) := by
  refine countSignature_peruses.bind fun _ => Keeps.get.bind fun g => ?_
  split
  · exact Keeps.sequential.traverse typeOfToken_peruses _
  · exact Keeps.pure _

theorem signature_rows {index : Nat} {sig : Signature TypeDefOrRef}
    (h : ((signature l index).run g).1 = some sig) : ∀ r ∈ sig.refs, r.node.key.IsRow := by
  unfold signature at h
  rw [run_bind, run_get_bind] at h
  generalize ((countSignature l).run g).2 = g₁ at h
  split at h
  · next stored _ =>
    have hvalue := (fromStores_signatureTraverse (fromStores_typeOfToken g₁ l) stored).value
    intro r hr
    obtain ⟨token, htoken⟩ := Signature.refs_traverse (hvalue.symm.trans h) r hr
    exact typeOf_row htoken
  · cases h

theorem typeSig_rows {index : Nat} :
    (SlotValue.typeSig ((typeSig l index).run g).1).OfRows := by
  intro n hn
  obtain ⟨r, hr, rfl⟩ := List.mem_map.mp hn
  unfold typeSig at hr
  rw [run_bind, run_get_bind] at hr
  generalize ((countSignature l).run g).2 = g₁ at hr
  split at hr
  · next stored _ =>
    have hvalue := (fromStores_traverse (fromStores_typeOfToken g₁ l) stored).value
    replace hr := (congrArg (fun v => r ∈ optionRefs TypeSig.refs v) hvalue).mp hr
    cases htraverse : stored.traverse (Graph.typeOf _ l) with
    | none =>
      rw [htraverse] at hr
      exact absurd hr List.not_mem_nil
    | some t =>
      rw [htraverse] at hr
      obtain ⟨token, htoken⟩ := TypeSig.refs_traverse htraverse r hr
      exact typeOf_row htoken
  · exact absurd hr List.not_mem_nil

variable {α β : Type} (table : Store → List α) (index : α → Nat)
  (part : Signature TypeDefOrRef → Option β)

theorem signatureOf_peruses (rid : Nat) : Keeps Peruses (signatureOf table index part l rid) := by
  refine (rowAt_peruses _ _).bind fun row => ?_
  cases row with
  | none => exact Keeps.pure _
  | some row => exact (signature_peruses _).put_into _

/-- A part of a stored signature refers to rows. -/
theorem signatureOf_rows {refs : β → List TypeDefOrRef}
    (hpart : ∀ s b, part s = some b → ∀ r ∈ refs b, r ∈ s.refs) (rid : Nat) :
    ∀ r ∈ optionRefs refs ((signatureOf table index part l rid).run g).1, r.node.key.IsRow := by
  unfold signatureOf
  rw [run_bind, rowAt_run]
  split
  · exact fun r hr => absurd hr List.not_mem_nil
  · next row _ =>
    intro r hr
    rw [run_bind] at hr
    cases hsig : ((signature l (index row)).run g).1 with
    | none =>
      rw [hsig] at hr
      exact absurd hr List.not_mem_nil
    | some sig =>
      rw [hsig] at hr
      cases hb : part sig with
      | none =>
        have : optionRefs refs (part sig) = [] := by rw [hb]; rfl
        exact absurd (this ▸ hr) List.not_mem_nil
      | some b =>
        have : optionRefs refs (part sig) = refs b := by rw [hb]; rfl
        exact signature_rows hsig r (hpart sig b hb r (this ▸ hr))

end Signatures

/-! ## Slots -/

section Slots

variable {k : Kind} {ρ α : Type} [Recorded k ρ]

/-- How a slot is kept among what is an entity's own, and what it tells resolving. -/
structure SlotLaws (k : Kind) {ρ α : Type} [Recorded k ρ] (get : ρ → Slot α)
    (set : Slot α → ρ → ρ) (told : α → List SlotValue) : Prop where
  bare : ∀ v r, (Recorded.pack k (set (some v) r)).bare = (Recorded.pack k r).bare
  keeps : ∀ v r, get r = none →
    (Recorded.pack k r).values ⊆ (Recorded.pack k (set (some v) r)).values
  values : ∀ v r, ∀ w ∈ (Recorded.pack k (set (some v) r)).values,
    w ∈ (Recorded.pack k r).values ∨ w ∈ told v

variable {get : ρ → Slot α} {set : Slot α → ρ → ρ} {told : α → List SlotValue} {absent : α}
  {compute : (loader rid : Nat) → GraphM α}

/-- A slot that tells resolving nothing. -/
theorem SlotLaws.plain
    (bare : ∀ v r, (Recorded.pack k (set (some v) r)).bare = (Recorded.pack k r).bare)
    (values : ∀ v r, (Recorded.pack k (set (some v) r)).values = (Recorded.pack k r).values) :
    SlotLaws k get set fun _ => [] where
  bare := bare
  keeps v r _ := (values v r).symm ▸ List.Subset.refl _
  values v r _ hw := .inl (values v r ▸ hw)

variable [Recorded.Lawful k] {id : Id k}

/-- A slot that holds nothing is filled with what refers to rows and to modules that exist. -/
theorem SlotLaws.publish (h : SlotLaws k get set told) {g : Graph} {v : α}
    (hl : ∀ l, ((Graph.slot id get set).publish v g).loader? l = g.loader? l)
    (hempty : get (g.get id) = none) (hrows : ∀ w ∈ told v, w.OfRows)
    (hmodules : ∀ m ∈ (Recorded.pack k (set (some v) (g.get id))).modules,
      m ∈ (Recorded.pack k (g.get id)).modules ∨ g.alive m.node) :
    g.Peruses ((Graph.slot id get set).publish v g) := by
  have hentity := Recorded.Lawful.entity_node (ρ := ρ) g id
  refine Peruses.of_put hl ?_ ?_ ?_
  · rw [hentity]
    exact ⟨h.bare v _, h.keeps v _ hempty⟩
  · rw [hentity]
    exact fun w hw => (h.values v _ w hw).imp_right (hrows w)
  · rw [hentity]
    exact hmodules

/-- **Reading a slot**, where what is computed for it refers to rows. -/
theorem SlotLaws.read (h : SlotLaws k get set told)
    (hl : ∀ v g l, ((Graph.slot id get set).publish v g).loader? l = g.loader? l)
    (hmodules : ∀ v r, (Recorded.pack k (set (some v) r)).modules = (Recorded.pack k r).modules)
    (hcompute : ∀ l rid, Keeps Peruses (compute l rid)) (habsent : ∀ w ∈ told absent, w.OfRows)
    (hrows : ∀ l rid g, ∀ w ∈ told ((compute l rid).run g).1, w.OfRows) :
    Keeps Peruses (readSlot id (Graph.slot id get set) absent compute) := by
  refine Keeps.get.bind fun _ => keeps_getRelaxed (keeps_fromStore hcompute) fun g hempty => ?_
  refine h.publish (hl _ _) hempty ?_ fun m hm => .inl (hmodules _ _ ▸ hm)
  unfold fromStore
  rw [run_get_bind]
  split
  · exact hrows _ _ g
  · exact habsent

/-- Reading a slot that tells resolving nothing. -/
theorem SlotLaws.read_plain (h : SlotLaws k get set fun _ => []) (hk : k ≠ .module)
    (hmodules : ∀ v r, (Recorded.pack k (set (some v) r)).modules = (Recorded.pack k r).modules)
    (hcompute : ∀ l rid, Keeps Peruses (compute l rid)) :
    Keeps Peruses (readSlot id (Graph.slot id get set) absent compute) :=
  h.read (fun _ _ => loader?_put hk _ _) hmodules hcompute (by simp) (by simp)

end Slots

/-- What refers to nothing refers to rows. -/
theorem SlotValue.OfRows.nil {v : SlotValue} (h : v.nodes = []) : v.OfRows := by
  intro n hn
  rw [h] at hn
  exact absurd hn List.not_mem_nil

/-- One value that refers to rows. -/
theorem SlotValue.OfRows.single {v : SlotValue} (h : v.OfRows) : ∀ w ∈ [v], w.OfRows := by
  intro w hw
  rwa [List.mem_singleton.mp hw]

theorem SlotValue.ofRows_sig {refs : List TypeDefOrRef} {v : SlotValue}
    (hnodes : v.nodes = refs.map TypeDefOrRef.node) (h : ∀ r ∈ refs, r.node.key.IsRow) :
    v.OfRows := by
  intro n hn
  rw [hnodes] at hn
  obtain ⟨r, hr, rfl⟩ := List.mem_map.mp hn
  exact h r hr

/-- What is computed for an entity has a property that it has for every open module, and where
nothing is computed. -/
theorem fromStore_gives {α : Type} {g : Graph} {origin : Origin} {absent : α}
    {compute : (loader rid : Nat) → GraphM α} {P : α → Prop} (habsent : P absent)
    (h : ∀ l rid, origin = .row l rid → (g.loader? l).isSome → P ((compute l rid).run g).1) :
    P ((fromStore origin absent compute).run g).1 := by
  unfold fromStore
  rw [run_get_bind]
  cases origin with
  | inMemory => exact habsent
  | row l rid =>
    by_cases hopen : (g.loader? l).isSome
    · rw [reader?, if_pos hopen]
      exact h l rid rfl hopen
    · rw [reader?, if_neg hopen]
      exact habsent

theorem alive_of_loader {g : Graph} {l : Nat} (h : (g.loader? l).isSome) :
    g.alive ⟨.module, .built l⟩ := by
  unfold loader? at h
  cases hget : g.entities.get? ⟨.module, .built l⟩ with
  | none =>
    rw [hget] at h
    cases h
  | some _ => simp [alive, Index.contains, hget]

/-! ### Types -/

namespace TypeDefId

theorem baseLaws : SlotLaws .typeDef TypeDef.base (fun v r => { r with base := v })
    fun v => [.type v] where
  bare _ _ := rfl
  keeps _ r h := by simp [Recorded.pack, Entity.values, h]
  values _ _ := by simp [Recorded.pack, Entity.values]

theorem base_peruses (t : TypeDefId) : Keeps Peruses t.base := by
  refine baseLaws.read (fun _ _ => loader?_put (by decide) _ _) (fun _ _ => rfl)
    (fun l rid => ?_) (.single (.nil rfl)) fun l rid g => .single ?_
  · refine (rowAt_peruses _ _).bind fun row => ?_
    cases row with
    | none => exact Keeps.pure _
    | some row => exact typeDefOrRef_peruses _
  · rw [run_bind, rowAt_run]
    split
    · exact .nil rfl
    · exact typeDefOrRef_rows _

end TypeDefId

namespace TypeRefId

theorem scopeLaws : SlotLaws .typeRef TypeRef.scope (fun v r => { r with scope := v })
    fun v => [.scope v] where
  bare _ _ := rfl
  keeps _ r h := by simp [Recorded.pack, Entity.values, h]
  values _ _ := by simp [Recorded.pack, Entity.values]

/-- The scope of a row is a row, or the module that it is read through. -/
theorem lazyScope_rows {g : Graph} {l : Nat} (hopen : (g.loader? l).isSome) (rid : Nat) :
    (SlotValue.scope ((lazyScope.compute l rid).run g).1).OfRows ∧
      ∀ m, ((lazyScope.compute l rid).run g).1 = some (.module m) → g.alive m.node := by
  have hrow : ∀ row : TypeRefRow,
      (SlotValue.scope ((resolutionScope l row.scope).run g).1).OfRows ∧
        ∀ m, ((resolutionScope l row.scope).run g).1 = some (.module m) → g.alive m.node := by
    intro row
    cases hscope : ((resolutionScope l row.scope).run g).1 with
    | none => exact ⟨.nil rfl, nofun⟩
    | some s =>
      rcases resolutionScope_rows _ hscope with rfl | ⟨hrow, hne⟩
      · refine ⟨.nil rfl, fun m hm => ?_⟩
        cases hm
        exact alive_of_loader hopen
      · refine ⟨fun n hn => ?_, fun m hm => absurd (Option.some.inj hm) (hne m)⟩
        cases s with
        | module m => exact absurd rfl (hne m)
        | moduleRef _ | assemblyRef _ | typeRef _ =>
          rw [List.mem_singleton.mp hn]
          exact hrow
  unfold lazyScope
  dsimp only
  rw [run_bind, rowAt_run]
  split
  · exact ⟨.nil rfl, nofun⟩
  · exact hrow _

theorem storedScope_peruses (g : Graph) (r : TypeRefId) : Keeps Peruses (storedScope g r) := by
  refine keeps_fromStore fun l rid => (rowAt_peruses _ _).bind fun row => ?_
  cases row with
  | none => exact Keeps.pure _
  | some row => exact resolutionScope_peruses _

theorem scope_peruses (r : TypeRefId) : Keeps Peruses r.scope := by
  intro g
  rw [scope_eq]
  refine keeps_getRelaxed (storedScope_peruses g r) (fun g' hempty => ?_) g
  obtain ⟨hrows, hmodules⟩ : (SlotValue.scope ((storedScope g r).run g').1).OfRows ∧
      ∀ m, ((storedScope g r).run g').1 = some (.module m) → g'.alive m.node :=
    fromStore_gives (P := fun v => (SlotValue.scope v).OfRows ∧
        ∀ m, v = some (.module m) → g'.alive m.node)
      ⟨.nil rfl, by rintro _ ⟨⟩⟩ fun l rid _ hopen => lazyScope_rows hopen rid
  have hlater := keeps_storedScope g r g'
  generalize ((storedScope g r).run g').1 = v at hrows hmodules ⊢
  refine scopeLaws.publish (loader?_put (by decide) _ _) hempty (.single hrows) fun m hm => ?_
  rcases List.mem_cons.mp hm with rfl | hm
  · exact .inl List.mem_cons_self
  · right
    cases v with
    | none => exact absurd hm List.not_mem_nil
    | some s =>
      cases s with
      | module m' =>
        rw [List.mem_singleton.mp hm]
        exact hlater.alive (hmodules m' rfl)
      | moduleRef | assemblyRef | typeRef => exact absurd hm List.not_mem_nil

end TypeRefId

namespace TypeSpecId

theorem sigLaws : SlotLaws .typeSpec TypeSpec.sig (fun v r => { r with sig := v })
    fun v => [.typeSig v] where
  bare _ _ := rfl
  keeps _ r h := by simp [Recorded.pack, Entity.values, h]
  values _ _ := by simp [Recorded.pack, Entity.values]

theorem sig_peruses (s : TypeSpecId) : Keeps Peruses s.sig := by
  refine sigLaws.read (fun _ _ => loader?_put (by decide) _ _) (fun _ _ => rfl)
    (fun l rid => ?_) (.single (.nil rfl)) fun l rid g => .single ?_
  · refine (rowAt_peruses _ _).bind fun row => ?_
    cases row with
    | none => exact Keeps.pure _
    | some row => exact typeSig_peruses _
  · rw [run_bind, rowAt_run]
    split
    · exact .nil rfl
    · exact typeSig_rows

end TypeSpecId

/-! ### Members -/

/-- A slot that is filled with a part of a stored signature. -/
theorem SlotLaws.read_signature {k : Kind} {ρ α β : Type} [Recorded k ρ] [Recorded.Lawful k]
    {get : ρ → Slot (Option β)} {set : Slot (Option β) → ρ → ρ} {told : Option β → SlotValue}
    {refs : β → List TypeDefOrRef} (h : SlotLaws k get set fun v => [told v]) (hk : k ≠ .module)
    (hmodules : ∀ v r, (Recorded.pack k (set (some v) r)).modules = (Recorded.pack k r).modules)
    (hnodes : ∀ v, (told v).nodes = (optionRefs refs v).map TypeDefOrRef.node)
    {table : Store → List α} {index : α → Nat} {part : Signature TypeDefOrRef → Option β}
    (hpart : ∀ s b, part s = some b → ∀ r ∈ refs b, r ∈ s.refs) {id : Id k} :
    Keeps Peruses (readSlot id (Graph.slot id get set) none (signatureOf table index part)) :=
  h.read (fun _ _ => loader?_put hk _ _) hmodules (fun _ _ => signatureOf_peruses _ _ _ _)
    (.single (.nil (hnodes none))) fun _ _ _ =>
      .single (SlotValue.ofRows_sig (hnodes _) (signatureOf_rows _ _ _ hpart _))

namespace FieldId

theorem sigLaws : SlotLaws .field Field.sig (fun v r => { r with sig := v })
    fun v => [.typeSig v] where
  bare _ _ := rfl
  keeps _ r h := by simp [Recorded.pack, Entity.values, h]
  values _ _ := by simp [Recorded.pack, Entity.values]

theorem sig_peruses (f : FieldId) : Keeps Peruses f.sig := by
  refine sigLaws.read_signature (by decide) (fun _ _ => rfl) (fun _ => rfl) fun s b hb => ?_
  cases s <;> cases hb
  exact fun _ => id

theorem constant_peruses (f : FieldId) : Keeps Peruses f.constant :=
  (SlotLaws.plain (fun _ _ => rfl) fun _ _ => rfl).read_plain (by decide) (fun _ _ => rfl)
    fun _ _ => CliMetadata.constant_peruses _

end FieldId

namespace MethodDefId

theorem sigLaws : SlotLaws .methodDef MethodDef.sig (fun v r => { r with sig := v })
    fun v => [.methodSig v] where
  bare _ _ := rfl
  keeps _ r h := by simp [Recorded.pack, Entity.values, h]
  values _ _ := by simp [Recorded.pack, Entity.values]

theorem sig_peruses (m : MethodDefId) : Keeps Peruses m.sig := by
  refine sigLaws.read_signature (by decide) (fun _ _ => rfl) (fun _ => rfl) fun s b hb => ?_
  cases s <;> cases hb
  exact fun _ => id

theorem body_peruses (m : MethodDefId) : Keeps Peruses m.body :=
  (SlotLaws.plain (fun _ _ => rfl) fun _ _ => rfl).read_plain (by decide) (fun _ _ => rfl)
    fun _ _ => Keeps.get.bind fun _ => Keeps.pure _

theorem implMap_peruses (m : MethodDefId) : Keeps Peruses m.implMap :=
  (SlotLaws.plain (fun _ _ => rfl) fun _ _ => rfl).read_plain (by decide) (fun _ _ => rfl)
    fun _ _ => CliMetadata.implMap_peruses _

theorem semantics_peruses (m : MethodDefId) : Keeps Peruses m.semantics :=
  (SlotLaws.plain (fun _ _ => rfl) fun _ _ => rfl).read_plain (by decide) (fun _ _ => rfl)
    fun _ _ => Keeps.get.bind fun _ => Keeps.pure _

theorem debugInfos_peruses (m : MethodDefId) : Keeps Peruses m.debugInfos :=
  (SlotLaws.plain (fun _ _ => rfl) fun _ _ => rfl).read_plain (by decide) (fun _ _ => rfl)
    fun _ _ => Keeps.get.bind fun _ => Keeps.pure _

theorem overrides_peruses (m : MethodDefId) : Keeps Peruses m.overrides := by
  refine (SlotLaws.plain (fun _ _ => rfl) fun _ _ => rfl).read_plain (by decide) (fun _ _ => rfl)
    fun l rid => (parent?_peruses _ _).bind fun declaring => ?_
  cases declaring with
  | none => exact Keeps.pure _
  | some declaring =>
    refine (children_peruses _ _).bind fun rids => keeps_collect (fun place => ?_) rids
    refine (rowAt_peruses _ _).bind fun row => ?_
    cases row with
    | none => exact Keeps.pure _
    | some row =>
      refine Keeps.ite ?_ (Keeps.pure _)
      exact (methodOf_peruses _ _).bind fun _ => (methodOf_peruses _ _).put_into _

end MethodDefId

theorem ParamId.constant_peruses (p : ParamId) : Keeps Peruses p.constant :=
  (SlotLaws.plain (fun _ _ => rfl) fun _ _ => rfl).read_plain (by decide) (fun _ _ => rfl)
    fun _ _ => CliMetadata.constant_peruses _

theorem accessorsOf_peruses (l : Nat) (association : Token) :
    Keeps Peruses (accessorsOf l association) := by
  refine (children_peruses _ _).bind fun rids => keeps_collect (fun place => ?_) rids
  refine (rowAt_peruses _ _).bind fun row => ?_
  cases row with
  | none => exact Keeps.pure _
  | some row => exact (shared_peruses (by decide) _ _).put_into _

namespace PropertyId

theorem sig_peruses (p : PropertyId) : Keeps Peruses p.sig :=
  (SlotLaws.plain (fun _ _ => rfl) fun _ _ => rfl).read_plain (by decide) (fun _ _ => rfl)
    fun _ _ => signatureOf_peruses _ _ _ _

theorem accessors_peruses (p : PropertyId) : Keeps Peruses p.accessors :=
  (SlotLaws.plain (fun _ _ => rfl) fun _ _ => rfl).read_plain (by decide) (fun _ _ => rfl)
    fun _ _ => (accessorsOf_peruses _ _).put_into _

theorem constant_peruses (p : PropertyId) : Keeps Peruses p.constant :=
  (SlotLaws.plain (fun _ _ => rfl) fun _ _ => rfl).read_plain (by decide) (fun _ _ => rfl)
    fun _ _ => CliMetadata.constant_peruses _

end PropertyId

namespace EventId

theorem eventType_peruses (e : EventId) : Keeps Peruses e.eventType := by
  refine (SlotLaws.plain (fun _ _ => rfl) fun _ _ => rfl).read_plain (by decide) (fun _ _ => rfl)
    fun l rid => (rowAt_peruses _ _).bind fun row => ?_
  cases row with
  | none => exact Keeps.pure _
  | some row => exact typeDefOrRef_peruses _

theorem accessors_peruses (e : EventId) : Keeps Peruses e.accessors :=
  (SlotLaws.plain (fun _ _ => rfl) fun _ _ => rfl).read_plain (by decide) (fun _ _ => rfl)
    fun _ _ => (accessorsOf_peruses _ _).put_into _

end EventId

theorem GenericParamId.constraints_peruses (p : GenericParamId) : Keeps Peruses p.constraints := by
  refine (SlotLaws.plain (fun _ _ => rfl) fun _ _ => rfl).read_plain (by decide) (fun _ _ => rfl)
    fun l rid => (children_peruses _ _).bind fun rids => keeps_collect (fun place => ?_) rids
  refine (rowAt_peruses _ _).bind fun row => ?_
  cases row with
  | none => exact Keeps.pure _
  | some row =>
    refine (typeDefOrRef_peruses _).bind fun _ => (attributes_peruses _).bind fun carried => ?_
    refine (makeUnread_peruses (by decide) (by decide) _
      (by simp [Entity.values, Recorded.pack])).bind fun id => ?_
    exact (carried_peruses id.node carried).bind fun _ => Keeps.pure _

namespace MemberRefId

theorem parentLaws : SlotLaws .memberRef MemberRef.parent (fun v r => { r with parent := v })
    fun v => [.parent v] where
  bare _ _ := rfl
  keeps _ r h := by simp [Recorded.pack, Entity.values, h]
  values _ _ := by simp +contextual [Recorded.pack, Entity.values, or_imp]

theorem parent_peruses (m : MemberRefId) : Keeps Peruses m.parent := by
  refine parentLaws.read (fun _ _ => loader?_put (by decide) _ _) (fun _ _ => rfl)
    (fun l rid => ?_) (.single (.nil rfl)) fun l rid g => .single ?_
  · refine (rowAt_peruses _ _).bind fun row => ?_
    cases row with
    | none => exact Keeps.pure _
    | some row => exact memberParent_peruses _
  · rw [run_bind, rowAt_run]
    split
    · exact .nil rfl
    · exact memberParent_rows _

theorem sigLaws : SlotLaws .memberRef MemberRef.sig (fun v r => { r with sig := v })
    fun v => [.signature v] where
  bare _ _ := rfl
  keeps _ r h := by simp [Recorded.pack, Entity.values, h]
  values _ _ := by simp +contextual [Recorded.pack, Entity.values, or_imp]

theorem sig_peruses (m : MemberRefId) : Keeps Peruses m.sig := by
  have hpart : ∀ s b : Signature TypeDefOrRef, some s = some b → ∀ r ∈ b.refs, r ∈ s.refs := by
    rintro s _ ⟨⟩
    exact fun _ => id
  exact sigLaws.read_signature (by decide) (fun _ _ => rfl) (fun _ => rfl) hpart

end MemberRefId

namespace MethodSpecId

theorem method_peruses (s : MethodSpecId) : Keeps Peruses s.method := by
  refine (SlotLaws.plain (fun _ _ => rfl) fun _ _ => rfl).read_plain (by decide) (fun _ _ => rfl)
    fun l rid => (rowAt_peruses _ _).bind fun row => ?_
  cases row with
  | none => exact Keeps.pure _
  | some row => exact methodOf_peruses _ _

theorem args_peruses (s : MethodSpecId) : Keeps Peruses s.args :=
  (SlotLaws.plain (fun _ _ => rfl) fun _ _ => rfl).read_plain (by decide) (fun _ _ => rfl)
    fun _ _ => signatureOf_peruses _ _ _ _

end MethodSpecId

/-! ### What modules export -/

namespace ExportedTypeId

theorem implementationLaws : SlotLaws .exportedType ExportedType.implementation
    (fun v r => { r with implementation := v }) fun v => [.implementation v] where
  bare _ _ := rfl
  keeps _ r h := by simp [Recorded.pack, Entity.values, h]
  values _ _ := by simp [Recorded.pack, Entity.values]

theorem implementation_peruses (e : ExportedTypeId) : Keeps Peruses e.implementation := by
  refine implementationLaws.read (fun _ _ => loader?_put (by decide) _ _) (fun _ _ => rfl)
    (fun l rid => ?_) (.single (.nil rfl)) fun l rid g => .single ?_
  · refine (rowAt_peruses _ _).bind fun row => ?_
    cases row with
    | none => exact Keeps.pure _
    | some row => exact CliMetadata.implementation_peruses _
  · rw [run_bind, rowAt_run]
    split
    · exact .nil rfl
    · exact implementation_rows _

end ExportedTypeId

namespace ResourceId

theorem implementation_peruses (r : ResourceId) : Keeps Peruses r.implementation := by
  refine (SlotLaws.plain (fun _ _ => rfl) fun _ _ => rfl).read_plain (by decide) (fun _ _ => rfl)
    fun l rid => (rowAt_peruses _ _).bind fun row => ?_
  cases row with
  | none => exact Keeps.pure _
  | some row => exact CliMetadata.implementation_peruses _

theorem data_peruses (r : ResourceId) : Keeps Peruses r.data := by
  refine (implementation_peruses r).bind fun i => ?_
  cases i with
  | some _ => exact Keeps.pure _
  | none =>
    exact (SlotLaws.plain (fun _ _ => rfl) fun _ _ => rfl).read_plain (by decide) (fun _ _ => rfl)
      fun _ _ => Keeps.get.bind fun _ => Keeps.pure _

end ResourceId

namespace ModuleId

/-- A module that is given other contents and read through the same stays open. -/
theorem loader?_update {g : Graph} {m : ModuleId} {f : Module → Module}
    (hf : ∀ r, (f r).loader = r.loader) (l : Nat) : (g.update m f).loader? l = g.loader? l := by
  by_cases hm : m.node = ⟨.module, .built l⟩
  · obtain ⟨key⟩ := m
    cases congrArg Node.key hm
    have hget : (g.get (⟨.built l⟩ : ModuleId)).loader = g.loader? l := by
      unfold Graph.get Graph.loader?
      cases hentry : g.entities.get? ⟨.module, .built l⟩ with
      | none =>
        rw [show g.entities.get? (⟨.built l⟩ : ModuleId).node = none from hentry]
        rfl
      | some e =>
        rw [show g.entities.get? (⟨.built l⟩ : ModuleId).node = some e from hentry]
        cases e <;> rfl
    rw [← hget, ← hf]
    unfold Graph.update Graph.put Graph.loader?
    rw [show (⟨.module, .built l⟩ : Node) = (⟨.built l⟩ : ModuleId).node from rfl,
      Index.get?_set_same]
    rfl
  · unfold Graph.update Graph.put Graph.loader?
    rw [Index.get?_set_other _ _ hm]

theorem exportedTypesLaws : SlotLaws .module Module.exportedTypes
    (fun v r => { r with exportedTypes := v }) fun v => [.exported v] where
  bare _ _ := rfl
  keeps _ r h := by simp [Recorded.pack, Entity.values, h]
  values _ _ := by simp [Recorded.pack, Entity.values]

theorem exportedTypes_peruses (m : ModuleId) : Keeps Peruses m.exportedTypes := by
  refine exportedTypesLaws.read (fun v g => loader?_update fun _ => rfl) (fun _ _ => rfl)
    (fun l rid => ?_) (.single (.nil rfl)) fun l rid g => .single fun n hn => ?_
  · exact (children_peruses _ _).bind fun rids => keeps_collect (shared_peruses (by decide) _) rids
  · obtain ⟨e, he, rfl⟩ := List.mem_map.mp hn
    exact collect_all (fun p g' e' h => shared_rows p g' e' h) _ _ e he

theorem resources_peruses (m : ModuleId) : Keeps Peruses m.resources := by
  refine (SlotLaws.plain (fun _ _ => rfl) fun _ _ => rfl).read
    (fun v g => loader?_update fun _ => rfl) (fun _ _ => rfl) (fun l rid => ?_) (by simp) (by simp)
  exact (children_peruses _ _).bind fun rids => keeps_collect (shared_peruses (by decide) _) rids

end ModuleId

/-! ## Containers -/

section Containers

variable {e : Edge} {o : Node} {c : Key} {l : Nat} {g : Graph}

theorem owner_peruses (e : Edge) (c : Key) : Keeps Peruses (Ownership.owner e c) :=
  fun g => .of_asked (owner_run g e c).1

/-- A private copy of a row is made with nothing read. -/
theorem copyChild_unread (e : Edge) (l p : Nat) (g : Graph) :
    (Ownership.copyChild e l p).run g = (none, g) ∨
      e ≠ .assemblyModules ∧ ∃ (k : Kind) (ρ : Type) (_ : Recorded k ρ) (_ : Recorded.Lawful k)
        (r : ρ), k = e.childKind ∧ (Recorded.pack k r).values = [] ∧
          (Ownership.copyChild e l p).run g = (some (.built g.built), g.grow k r) := by
  have copied : ∀ (k : Kind) {ρ : Type} [Recorded k ρ] [Recorded.Lawful k],
      (∀ s r, Recorded.ofRow? k s l p = some r → (Recorded.pack k r).values = []) →
      let x : GraphM (Option Key) := do return (← copy k l p).map (·.key)
      x.run g = (none, g) ∨ ∃ (ρ : Type) (_ : Recorded k ρ) (_ : Recorded.Lawful k) (r : ρ),
        (Recorded.pack k r).values = [] ∧ x.run g = (some (.built g.built), g.grow k r) := by
    intro k ρ _ _ hvalues
    dsimp only
    rw [run_bind]
    unfold copy
    rw [run_get_bind]
    cases hr : (g.store? l).bind fun s => Recorded.ofRow? k s l p with
    | none => exact .inl rfl
    | some r =>
      obtain ⟨s, -, hs⟩ := Option.bind_eq_some_iff.mp hr
      exact .inr ⟨ρ, _, ‹_›, r, hvalues s r hs, rfl⟩
  cases e with
  | assemblyModules => exact .inl rfl
  | moduleTypes | nestedTypes | fields | methods | properties | events | params | genericParams =>
    refine (copied _ fun s r hs => ?_).imp_right fun ⟨ρ, hρ, hlawful, r, hvalues, hr⟩ =>
      ⟨nofun, _, ρ, hρ, hlawful, r, rfl, hvalues, hr⟩
    obtain ⟨_, _, rfl⟩ := Option.map_eq_some_iff.mp hs
    rfl

/-- A child that the store lists is taken over by a container that exists. -/
theorem takeOver_peruses (he : e ≠ .assemblyModules) (ho : g.alive o) (hknown : g.Known o.key)
    (hc : g.Offered e c) : g.Peruses ((Ownership.takeOver e l o c).run g).2 := by
  have hasked := keepsAsked_free e o c g
  refine fun hg => trans_of Peruses (.of_asked hasked) ?_ hg
  unfold Ownership.takeOver
  rw [run_bind]
  have hknown₁ := hknown.mono (Nat.le_of_eq hasked.built.symm)
  have ho₁ := (hasked.alive _).trans ho
  cases hv : ((Ownership.free e o c).run g).1 with
  | true =>
    rw [if_pos rfl]
    obtain ⟨hrivals, hsame⟩ := free_noted.mp hv
    have hfree : g.Free e o c := by
      refine ⟨fun e' hrival => ?_, fun o' ho' => hsame o' ho' (hg.noted ho').1⟩
      have hnone := hrivals e' hrival
      cases hnoted : g.noted e' c with
      | none => rfl
      | some o' =>
        rw [hnoted, Option.filter_some, if_pos (hg.noted hnoted).1] at hnone
        cases hnone
    exact .of_take ho₁ hknown₁ (hc.congr fun l => (hasked.loader l).symm) (hfree.asked hasked)
  | false =>
    rw [if_neg Bool.false_ne_true, run_get_bind]
    generalize ((Ownership.free e o c).run g).2 = g₁ at ho₁ hknown₁
    cases (g₁.origin ⟨e.childKind, c⟩).rid? with
    | none => exact refl_of Peruses g₁
    | some rid =>
      dsimp only
      rw [run_bind]
      rcases copyChild_unread e l rid g₁ with hnone | ⟨-, k, ρ, _, _, r, hk, hvalues, hcopy⟩
      · rw [hnone]
        exact refl_of Peruses g₁
      · rw [hcopy]
        exact .of_copy ho₁ hknown₁ he hk hvalues

/-- So are several. -/
theorem adopt_peruses (he : e ≠ .assemblyModules) : ∀ {cs : List Key} {g : Graph}, g.alive o →
    g.Known o.key → (∀ c ∈ cs, g.Offered e c) → g.Peruses ((Ownership.adopt e l o cs).run g).2
  | [], g, _, _, _ => refl_of Peruses g
  | c :: cs, g, ho, hknown, hcs => by
    intro hg
    have hstep := takeOver_peruses (l := l) he ho hknown (hcs c List.mem_cons_self)
    obtain ⟨-, hread⟩ := hstep hg
    refine trans_of Peruses hstep ?_ hg
    have hrest := adopt_peruses he (hread.alive ho) (hknown.mono hread.built) fun c' hc' =>
      (hcs c' (List.mem_cons_of_mem _ hc')).congr fun l => (hread.loader l).symm
    rw [Ownership.adopt, collect, run_bind]
    cases ((Ownership.takeOver e l o c).run g).1 with
    | none => exact hrest
    | some x => exact hrest

/-- What is collected has been read for an entry of the list. -/
theorem collect_mem {ι β : Type} {f : ι → GraphM (Option β)} : ∀ {is : List ι} {g : Graph} {x : β},
    x ∈ ((collect f is).run g).1 → ∃ i ∈ is, ∃ g', ((f i).run g').1 = some x
  | [], _, _, hx => absurd hx List.not_mem_nil
  | i :: is, g, x, hx => by
    have hrest : ∀ {g' : Graph}, x ∈ ((collect f is).run g').1 →
        ∃ i' ∈ i :: is, ∃ g', ((f i').run g').1 = some x := fun hx =>
      let ⟨i', hi', hread⟩ := collect_mem hx
      ⟨i', List.mem_cons_of_mem _ hi', hread⟩
    rw [collect, run_bind] at hx
    cases hy : ((f i).run g).1 with
    | none =>
      rw [hy] at hx
      exact hrest hx
    | some y =>
      rw [hy] at hx
      rcases List.mem_cons.mp hx with rfl | hx
      · exact ⟨i, List.mem_cons_self, g, hy⟩
      · exact hrest hx

/-- What a store lists for a container that exists is taken over. -/
theorem storedItems_peruses (rid : Nat) (ho : g.alive o) (hknown : g.Known o.key) :
    g.Peruses ((Ownership.storedItems e o l rid).run g).2 := by
  by_cases he : e = .assemblyModules
  · subst he
    obtain ⟨g₁, hasked, hrun⟩ := storedItems_assembly (l := l) o rid g
    rw [hrun]
    exact .of_asked hasked
  · unfold Ownership.storedItems
    rw [run_bind, run_bind, run_get_bind]
    generalize howner : (if e = .moduleTypes then Store.moduleToken
      else Token.ofParts o.kind.table rid) = owner
    obtain ⟨hchildren, hrids⟩ := children_run g l (Ownership.relation e) owner
    generalize ((children l (Ownership.relation e) owner).run g).2 = g₁ at hchildren
    generalize ((children l (Ownership.relation e) owner).run g).1 = rids at hrids
    have hcandidates : ∀ rids, Keeps (Asked fun _ => False) (collect (Ownership.sharedChild e l) rids) :=
      keeps_collect fun p g => (sharedChild_run he g l p).1
    generalize hlisted : (if e = .nestedTypes then rids.filter (· != rid) else rids) = listed
    have hasked := hchildren.trans (hcandidates listed g₁)
    refine trans_of Peruses (.of_asked hasked) (adopt_peruses he ((hasked.alive _).trans ho)
      (hknown.mono (Nat.le_of_eq hasked.built.symm)) fun c hc => ?_)
    obtain ⟨p, hp, g', hread⟩ := collect_mem ((ordered_perm _ e _).mem_iff.mp hc)
    have hp : p ∈ rids := by
      rw [← hlisted] at hp
      split at hp
      · exact List.mem_of_mem_filter hp
      · exact hp
    cases hs : g.store? l with
    | none =>
      rw [hs] at hrids
      rw [hrids] at hp
      exact absurd hp List.not_mem_nil
    | some s =>
      rw [hs] at hrids
      rw [hrids] at hp
      exact ⟨he, l, p, s, owner, sharedChild_row hread, (store?_congr hasked.loader l).trans hs, hp⟩

/-- **Reading a list.** -/
theorem items_peruses (e : Edge) (o : Node) : Keeps Peruses (Ownership.items e o) := by
  intro g hg
  let compute := fromStore (g.origin o) [] (Ownership.storedItems e o)
  have hcompute : g.Peruses (compute.run g).2 ∧
      ∀ c ∈ g.population e o, (compute.run g).2.Known c := by
    show g.Peruses ((fromStore _ _ _).run g).2 ∧ ∀ c ∈ ((fromStore _ _ _).run g).1,
      ((fromStore _ _ _).run g).2.Known c
    unfold fromStore
    rw [run_get_bind]
    cases horigin : g.origin o with
    | inMemory => exact ⟨refl_of Peruses g, fun c hc => absurd hc List.not_mem_nil⟩
    | row l rid =>
      by_cases hopen : (g.loader? l).isSome
      · rw [reader?, if_pos hopen]
        exact ⟨storedItems_peruses rid (alive_of_origin horigin) (hg.sourced horigin),
          storedItems_known e o l rid g⟩
      · rw [reader?, if_neg hopen]
        exact ⟨refl_of Peruses g, fun c hc => absurd hc List.not_mem_nil⟩
  have hitems : (Ownership.items e o).run g = ((listSlot e o).getRelaxed compute).run g := rfl
  rw [hitems]
  cases hheld : (listSlot e o).peek g with
  | some cs =>
    rw [getRelaxed_held hheld]
    exact refl_of Peruses g hg
  | none =>
    cases hfilled : (listSlot e o).peek (compute.run g).2 with
    | some cs =>
      rw [getRelaxed_filled hheld hfilled]
      exact hcompute.1 hg
    | none =>
      rw [getRelaxed_empty hheld hfilled]
      exact Peruses.of_setList hcompute.1 hfilled hcompute.2 hg

end Containers

/-! ## What is carried -/

theorem customAttributes_peruses (n : Node) : Keeps Peruses (customAttributes n) :=
  Keeps.get.bind fun _ => keeps_getRelaxed (keeps_fromStore fun _ _ => attributes_peruses _)
    fun _ _ => .of_eq rfl rfl rfl rfl

theorem declSecurities_peruses (n : Node) : Keeps Peruses (declSecurities n) :=
  Keeps.get.bind fun _ => keeps_getRelaxed (keeps_fromStore fun _ _ => securities_peruses _)
    fun _ _ => .of_eq rfl rfl rfl rfl

end CliMetadata
