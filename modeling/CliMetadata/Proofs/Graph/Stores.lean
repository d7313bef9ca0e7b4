import CliMetadata.Proofs.Ownership.BackReferences

/-!
# What is read from stores

What a coded index or a stored signature refers to is told by the stores and by which
rows are there, and by nothing else.  `Graph.FromStores g x v` says so of a computation:
it gives `v` in every graph that reads the same from rows as `g` does (`Graph.Alike`).

Reading of this sort makes entities of rows, and attributes for them.  **Nothing that
was there before reads differently after it** (`Graph.Quiet`): no slot of an entity is
filled by it and no back-reference is recorded.  Attributes are the exception, since
they are given numbers of their own when they are made; so everything here is about the
other kinds.
-/

namespace CliMetadata

open CliMetadata.Graph Loading Stateful

namespace Graph

variable {g g' g'' : Graph}

theorem Alike.refl (g : Graph) : g.Alike g := ⟨fun _ => rfl, fun _ _ _ => rfl⟩

theorem Alike.trans (h : g.Alike g') (k : g'.Alike g'') : g.Alike g'' :=
  ⟨fun l => (k.loader l).trans (h.loader l), fun i l p => (k.rows i l p).trans (h.rows i l p)⟩

/-- **The graph after some reading from stores.** -/
structure Quiet (g g' : Graph) : Prop extends Alike g g' where
  entity : ∀ {n}, n.kind ≠ .customAttribute → g'.entity n = g.entity n
  present : ∀ {n}, n.kind ≠ .customAttribute → g'.present n = g.present n
  recorded : ∀ key, g'.owners.get? key = g.owners.get? key
  lists : g'.lists = g.lists

namespace Quiet

theorem refl (g : Graph) : g.Quiet g where
  toAlike := .refl g
  entity _ := rfl
  present _ := rfl
  recorded _ := rfl
  lists := rfl

theorem trans (h : g.Quiet g') (k : g'.Quiet g'') : g.Quiet g'' where
  toAlike := h.toAlike.trans k.toAlike
  entity hn := (k.entity hn).trans (h.entity hn)
  present hn := (k.present hn).trans (h.present hn)
  recorded key := (k.recorded key).trans (h.recorded key)
  lists := k.lists.trans h.lists

instance : IsPreorder Graph Quiet where
  refl := refl
  trans _ _ _ := trans

/-- Entities of rows are made. -/
theorem of_asked (h : g.Asked (fun _ => False) g') : g.Quiet g' where
  toAlike := h.toAlike
  entity _ := h.entity _
  present _ := h.present _
  recorded _ := h.others id
  lists := h.lists

/-- A change of nothing that is looked at here. -/
theorem of_eq (hentities : g'.entities = g.entities) (howners : g'.owners = g.owners)
    (hlists : g'.lists = g.lists) : g.Quiet g' := by
  have hl : ∀ l, g'.loader? l = g.loader? l := fun l => by
    unfold Graph.loader?
    rw [hentities]
  have hpresent : ∀ n, g'.present n = g.present n := fun n =>
    present_congr hl (fun h => hentities ▸ h) fun h => contains_present (hentities ▸ h)
  exact ⟨⟨hl, fun _ _ _ => hpresent _⟩, fun _ => entity_congr (by rw [hentities]) hl,
    fun _ => hpresent _, fun _ => by rw [howners], hlists⟩

/-- An entity that is present is written down as it reads. -/
theorem of_put {k : Kind} {ρ : Type} [Recorded k ρ] [Recorded.Lawful k] {id : Id k} {r : ρ}
    (hk : k ≠ .module) (hp : g.present id.node) (he : g.entity id.node = Recorded.pack k r) :
    g.Quiet (g.put id r) := by
  have hl := loader?_put (g := g) hk id r
  refine ⟨.of_put hl hp, fun {n} _ => ?_, fun _ => present_put hl hp _, fun _ => rfl, rfl⟩
  by_cases hn : id.node = n
  · rw [← hn, entity_put, he]
  · exact entity_put_of_ne hl hn

/-- An attribute is made. -/
theorem of_attribute {id : CustomAttributeId} {r : CustomAttribute}
    (hid : ∀ l p, id.key ≠ .row l p) : g.Quiet (g.put id r) := by
  have hl := loader?_put (k := .customAttribute) (g := g) (by decide) id r
  have hpresent : ∀ {n : Node}, id.node ≠ n → (g.put id r).present n = g.present n := by
    intro n hn
    refine present_congr hl contains_put fun h => contains_present ?_
    rwa [Index.contains, put, Index.get?_set_other _ _ hn] at h
  have hne : ∀ {n : Node}, n.kind ≠ .customAttribute → id.node ≠ n := by
    rintro _ hkind rfl
    exact hkind rfl
  refine ⟨⟨hl, fun k l p => hpresent ?_⟩, fun hkind => entity_put_of_ne hl (hne hkind),
    fun hkind => hpresent (hne hkind), fun _ => rfl, rfl⟩
  intro h
  exact hid l p (congrArg Node.key h)

end Quiet

/-- **What a computation gives is told by the stores**: it is `v` wherever the same is
read from rows, and the graph reads as before. -/
def FromStores {α : Type} (g : Graph) (x : GraphM α) (v : α) : Prop :=
  ∀ g', g.Alike g' → (x.run g').1 = v ∧ g'.Quiet (x.run g').2

namespace FromStores

variable {α β : Type} {x : GraphM α} {v : α}

theorem value (h : g.FromStores x v) : (x.run g).1 = v := (h g (.refl g)).1

theorem quiet (h : g.FromStores x v) : g.Quiet (x.run g).2 := (h g (.refl g)).2

/-- A computation that is told by the stores gives the same where the same is read from
rows. -/
theorem congr (h : g.FromStores x v) (k : g.Alike g') : (x.run g').1 = (x.run g).1 :=
  (h g' k).1.trans h.value.symm

theorem pure (a : α) : g.FromStores (Pure.pure a) a := fun g' _ => ⟨rfl, .refl g'⟩

theorem bind {f : α → GraphM β} {w : β} (hx : g.FromStores x v) (hf : g.FromStores (f v) w) :
    g.FromStores (x >>= f) w := by
  intro g' h
  obtain ⟨hvalue, hquiet⟩ := hx g' h
  obtain ⟨hresult, hafter⟩ := hf _ (h.trans hquiet.toAlike)
  rw [run_bind, hvalue]
  exact ⟨hresult, hquiet.trans hafter⟩

/-- A change that the stores tell nothing of. -/
theorem modify {f : Graph → Graph} (hf : ∀ g' : Graph, g'.Quiet (f g')) :
    g.FromStores (modify f : GraphM Unit) () := fun g' _ => ⟨rfl, hf g'⟩

end FromStores
end Graph

/-! ## Rows -/

section Rows

variable {g : Graph}

theorem fromStores_rowAt {α : Type} (table : Store → List α) (loader rid : Nat) :
    g.FromStores (rowAt table loader rid)
      ((g.store? loader).bind fun s => Store.nth (table s) rid) := by
  intro g' h
  rw [rowAt_run, h.store?]
  exact ⟨rfl, .refl g'⟩

/-- An entity of a row is given where it is there or can be made. -/
theorem fromStores_shared {k : Kind} {ρ : Type} [Recorded k ρ] [Recorded.Rowed k]
    (loader place : Nat) :
    g.FromStores (shared k loader place)
      (if g.present ⟨k, .row loader place⟩ then some ⟨.row loader place⟩ else none) := by
  intro g' h
  rw [shared_value, h.rows]
  exact ⟨rfl, .of_asked (keepsAsked_shared loader place g')⟩

theorem quiet_methodOf (kind : CodedKind) (loader : Nat) (index : CodedIndex) :
    Keeps Quiet (methodOf kind loader index) := by
  have shared : ∀ (k : Kind) {ρ : Type} [Recorded k ρ] [Recorded.Rowed k],
      Keeps Quiet (shared k loader index.row) := fun k => fun g => (fromStores_shared _ _).quiet
  unfold methodOf
  split
  · split
    · exact (shared .methodDef).bind fun _ => Keeps.pure _
    · exact (shared .memberRef).bind fun _ => Keeps.pure _
    · exact Keeps.pure _
  · exact Keeps.pure _

/-- Attributes are given numbers when they are made, so the stores do not tell which. -/
theorem quiet_attributes (loader : Nat) (parent : Token) :
    Keeps Quiet (attributes loader parent) := by
  refine Keeps.bind (Keeps.bind (fun g => Quiet.of_eq rfl rfl rfl) fun _ =>
    Keeps.get.bind fun _ => Keeps.pure _) fun rids => keeps_collect (fun rid => ?_) rids
  refine Keeps.bind (fun g => Quiet.refl g) fun row => ?_
  cases row with
  | none => exact Keeps.pure _
  | some row =>
    refine (quiet_methodOf _ _ _).bind fun constructor => Keeps.get.bind fun _ => Keeps.map ?_
    intro g
    exact (Quiet.of_attribute (fun _ _ => by rintro ⟨⟩)).trans (Quiet.of_eq rfl rfl rfl)

/-- So is one whose attributes are read with its columns. -/
theorem fromStores_sharedWithAttributes {k : Kind} {ρ : Type} [Recorded k ρ] [Recorded.Rowed k]
    (hk : k ≠ .customAttribute) (token : ρ → Token) (loader place : Nat) :
    g.FromStores (sharedWithAttributes k token loader place)
      (if g.present ⟨k, .row loader place⟩ then some ⟨.row loader place⟩ else none) := by
  intro g' h
  let id : Id k := ⟨.row loader place⟩
  have hrow : _ = g'.hasRow id.node := ofRow?_isSome (k := k) (ρ := ρ) g' loader place
  rw [← h.rows, show (⟨k, .row loader place⟩ : Node) = id.node from rfl]
  unfold sharedWithAttributes
  rw [run_get_bind]
  by_cases hc : g'.entities.contains id.node
  · rw [if_pos hc, if_pos (contains_present hc)]
    exact ⟨rfl, .refl g'⟩
  · rw [if_neg hc]
    cases hr : (g'.store? loader).bind fun s => Recorded.ofRow? k s loader place with
    | none =>
      have habsent : ¬g'.present id.node := by
        rw [Graph.present, ← hrow, hr]
        simpa using hc
      rw [if_neg habsent]
      exact ⟨rfl, .refl g'⟩
    | some r =>
      have hpresent : g'.present id.node := by
        rw [Graph.present, ← hrow, hr]
        simp
      rw [if_pos hpresent]
      -- the entity reads the same after its attributes, and is written down like this
      have hread := quiet_attributes loader (token r) g'
      have hcolumns := hread.entity (n := id.node) hk
      rw [Recorded.Lawful.entity_node (ρ := ρ), Recorded.Lawful.entity_node (ρ := ρ),
        get_of_not_contains hc hr, ← Recorded.Lawful.entity_node (ρ := ρ)] at hcolumns
      have hput := Quiet.of_put (Recorded.Rowed.ne_module (ρ := ρ))
        ((hread.present hk).trans hpresent) hcolumns
      exact ⟨rfl, hread.trans (hput.trans (.of_eq rfl rfl rfl))⟩

end Rows

/-! ## Coded indices -/

section CodedIndices

variable {g : Graph} {loader : Nat} {index : CodedIndex}

/-- What a coded index stands for where a kind of rows is meant. -/
theorem present_of_shared {k : Kind} {β : Type} {make : Id k → β} {b : β} {place : Nat}
    (h : (if g.present ⟨k, .row loader place⟩ then some (⟨.row loader place⟩ : Id k)
      else none).map make = some b) :
    ∃ id : Id k, g.present id.node ∧ make id = b := by
  split at h
  · next hp => exact ⟨⟨.row loader place⟩, hp, Option.some.inj h⟩
  · cases h

/-- The type that a coded index refers to is there. -/
theorem fromStores_typeDefOrRef (g : Graph) (loader : Nat) (index : CodedIndex) :
    ∃ v, g.FromStores (typeDefOrRef loader index) v ∧ ∀ t ∈ v, g.present t.node := by
  unfold typeDefOrRef
  split
  · split
    · refine ⟨_, (fromStores_shared _ _).bind (.pure _), fun t ht => ?_⟩
      obtain ⟨id, hid, rfl⟩ := present_of_shared ht
      exact hid
    · refine ⟨_, (fromStores_shared _ _).bind (.pure _), fun t ht => ?_⟩
      obtain ⟨id, hid, rfl⟩ := present_of_shared ht
      exact hid
    · refine ⟨_, (fromStores_shared _ _).bind (.pure _), fun t ht => ?_⟩
      obtain ⟨id, hid, rfl⟩ := present_of_shared ht
      exact hid
    · exact ⟨_, .pure _, by simp⟩
  · exact ⟨_, .pure _, by simp⟩

/-- The reference that a coded index of a scope refers to is there. -/
theorem fromStores_resolutionScope (g : Graph) (loader : Nat) (index : CodedIndex) :
    ∃ v, g.FromStores (resolutionScope loader index) v ∧
      ∀ r, v = some (.typeRef r) → g.present r.node := by
  unfold resolutionScope
  split
  · split
    · refine ⟨_, .pure _, fun r hr => ?_⟩
      split at hr <;> cases hr
    · refine ⟨_, (fromStores_sharedWithAttributes (by decide) _ _ _).bind (.pure _), ?_⟩
      intro r hr
      obtain ⟨_, _, ⟨⟩⟩ := present_of_shared hr
    · refine ⟨_, (fromStores_sharedWithAttributes (by decide) _ _ _).bind (.pure _), ?_⟩
      intro r hr
      obtain ⟨_, _, ⟨⟩⟩ := present_of_shared hr
    · refine ⟨_, (fromStores_shared _ _).bind (.pure _), fun r hr => ?_⟩
      obtain ⟨id, hid, hmake⟩ := present_of_shared hr
      cases hmake
      exact hid
    · exact ⟨_, .pure _, by simp⟩
  · exact ⟨_, .pure _, by simp⟩

end CodedIndices

/-! ## Signatures -/

section Traversal

variable {ρ σ : Type} {g : Graph}

/-- What comes after a part that may be missing. -/
theorem Graph.FromStores.optional {α β : Type} {x : OptionT GraphM α} {f : α → OptionT GraphM β}
    {a : Option α} {b : α → Option β} (hx : g.FromStores x.run a)
    (hf : ∀ v, g.FromStores (f v).run (b v)) : g.FromStores (x >>= f).run (a >>= b) := by
  rw [OptionT.run_bind]
  refine FromStores.bind hx ?_
  cases a with
  | none => exact .pure _
  | some v => exact hf v

/-- A whole that is put together. -/
theorem Graph.FromStores.whole {α : Type} (a : α) :
    g.FromStores (Pure.pure a : OptionT GraphM α).run (Pure.pure a) := .pure _

variable {f : ρ → OptionT GraphM σ} {φ : ρ → Option σ}

mutual

/-- A signature over what its references are told to be by the stores is told by them. -/
theorem fromStores_traverse (hf : ∀ x, g.FromStores (f x).run (φ x)) : ∀ t : TypeSig ρ,
    g.FromStores (t.traverse f).run (t.traverse φ)
  | .leaf _ | .param _ _ => by
    rw [TypeSig.traverse, TypeSig.traverse]
    exact .whole _
  | .named _ x => by
    rw [TypeSig.traverse, TypeSig.traverse]
    exact (hf x).optional fun _ => .whole _
  | .wrap _ t => by
    rw [TypeSig.traverse, TypeSig.traverse]
    exact (fromStores_traverse hf t).optional fun _ => .whole _
  | .modified _ x t => by
    rw [TypeSig.traverse, TypeSig.traverse]
    exact (hf x).optional fun _ => (fromStores_traverse hf t).optional fun _ => .whole _
  | .inst t ts => by
    rw [TypeSig.traverse, TypeSig.traverse]
    exact (fromStores_traverse hf t).optional fun _ =>
      (fromStores_traverseAll hf ts).optional fun _ => .whole _
  | .fnPtr _ t ps vs => by
    rw [TypeSig.traverse, TypeSig.traverse]
    exact (fromStores_traverse hf t).optional fun _ =>
      (fromStores_traverseAll hf ps).optional fun _ =>
        (fromStores_traverseAll hf vs).optional fun _ => .whole _

/-- So are several. -/
theorem fromStores_traverseAll (hf : ∀ x, g.FromStores (f x).run (φ x)) : ∀ ts : List (TypeSig ρ),
    g.FromStores (TypeSig.traverseAll f ts).run (TypeSig.traverseAll φ ts)
  | [] => by
    rw [TypeSig.traverseAll, TypeSig.traverseAll]
    exact .whole _
  | t :: ts => by
    rw [TypeSig.traverseAll, TypeSig.traverseAll]
    exact (fromStores_traverse hf t).optional fun _ =>
      (fromStores_traverseAll hf ts).optional fun _ => .whole _

end

mutual

/-- What a signature refers to after a traversal is what its references were replaced
by. -/
theorem TypeSig.refs_traverse : ∀ {t : TypeSig ρ} {t' : TypeSig σ}, t.traverse φ = some t' →
    ∀ r ∈ t'.refs, ∃ x, φ x = some r
  | .leaf _, _, h | .param _ _, _, h => by
    cases h
    simp [refs]
  | .named _ x, _, h => by
    simp only [traverse, Option.bind_eq_bind, Option.bind_eq_some_iff] at h
    obtain ⟨y, hy, ⟨⟩⟩ := h
    simpa [refs] using ⟨x, hy⟩
  | .wrap _ t, _, h => by
    simp only [traverse, Option.bind_eq_bind, Option.bind_eq_some_iff] at h
    obtain ⟨t', ht, ⟨⟩⟩ := h
    simpa only [refs] using refs_traverse ht
  | .modified _ x t, _, h => by
    simp only [traverse, Option.bind_eq_bind, Option.bind_eq_some_iff] at h
    obtain ⟨y, hy, t', ht, ⟨⟩⟩ := h
    intro r hr
    rcases List.mem_cons.mp hr with rfl | hr
    · exact ⟨x, hy⟩
    · exact refs_traverse ht r hr
  | .inst t ts, _, h => by
    simp only [traverse, Option.bind_eq_bind, Option.bind_eq_some_iff] at h
    obtain ⟨t', ht, ts', hts, ⟨⟩⟩ := h
    intro r hr
    rcases List.mem_append.mp hr with hr | hr
    · exact refs_traverse ht r hr
    · exact refs_traverseAll hts r hr
  | .fnPtr _ t ps vs, _, h => by
    simp only [traverse, Option.bind_eq_bind, Option.bind_eq_some_iff] at h
    obtain ⟨t', ht, ps', hps, vs', hvs, ⟨⟩⟩ := h
    intro r hr
    rcases List.mem_append.mp hr with hr | hr
    · exact refs_traverse ht r hr
    · rcases List.mem_append.mp hr with hr | hr
      · exact refs_traverseAll hps r hr
      · exact refs_traverseAll hvs r hr

/-- So it is for several. -/
theorem TypeSig.refs_traverseAll : ∀ {ts : List (TypeSig ρ)} {ts' : List (TypeSig σ)},
    traverseAll φ ts = some ts' → ∀ r ∈ refsAll ts', ∃ x, φ x = some r
  | [], _, h => by
    cases h
    simp [refsAll]
  | t :: ts, _, h => by
    simp only [traverseAll, Option.bind_eq_bind, Option.bind_eq_some_iff] at h
    obtain ⟨t', ht, ts', hts, ⟨⟩⟩ := h
    intro r hr
    rcases List.mem_append.mp hr with hr | hr
    · exact refs_traverse ht r hr
    · exact refs_traverseAll hts r hr

end

/-- A method signature is traversed as the pointer that it makes. -/
theorem fromStores_methodSig (hf : ∀ x, g.FromStores (f x).run (φ x)) (m : MethodSig ρ) :
    g.FromStores (m.traverse f).run (m.traverse φ) := by
  unfold MethodSig.traverse
  exact (fromStores_traverse hf _).optional fun _ =>
    (fromStores_traverseAll hf _).optional fun _ =>
      (fromStores_traverseAll hf _).optional fun _ => .whole _

theorem fromStores_propertySig (hf : ∀ x, g.FromStores (f x).run (φ x)) (p : PropertySig ρ) :
    g.FromStores (p.traverse f).run (p.traverse φ) := by
  unfold PropertySig.traverse
  exact (fromStores_traverse hf _).optional fun _ =>
    (fromStores_traverseAll hf _).optional fun _ => .whole _

/-- So is a signature of any sort. -/
theorem fromStores_signatureTraverse (hf : ∀ x, g.FromStores (f x).run (φ x)) :
    ∀ s : Signature ρ, g.FromStores (s.traverse f).run (s.traverse φ)
  | .field t => (fromStores_traverse hf t).optional fun _ => .whole _
  | .method m => (fromStores_methodSig hf m).optional fun _ => .whole _
  | .property p => (fromStores_propertySig hf p).optional fun _ => .whole _
  | .locals ts | .instantiation ts => (fromStores_traverseAll hf ts).optional fun _ => .whole _

theorem MethodSig.refs_traverse {m : MethodSig ρ} {m' : MethodSig σ} (h : m.traverse φ = some m') :
    ∀ r ∈ m'.refs, ∃ x, φ x = some r := by
  simp only [traverse, Option.bind_eq_bind, Option.bind_eq_some_iff] at h
  obtain ⟨t, ht, ps, hps, vs, hvs, ⟨⟩⟩ := h
  intro r hr
  rcases List.mem_append.mp hr with hr | hr
  · exact TypeSig.refs_traverse ht r hr
  · rcases List.mem_append.mp hr with hr | hr
    · exact TypeSig.refs_traverseAll hps r hr
    · exact TypeSig.refs_traverseAll hvs r hr

theorem PropertySig.refs_traverse {p : PropertySig ρ} {p' : PropertySig σ}
    (h : p.traverse φ = some p') : ∀ r ∈ p'.refs, ∃ x, φ x = some r := by
  simp only [traverse, Option.bind_eq_bind, Option.bind_eq_some_iff] at h
  obtain ⟨t, ht, ps, hps, ⟨⟩⟩ := h
  intro r hr
  rcases List.mem_append.mp hr with hr | hr
  · exact TypeSig.refs_traverse ht r hr
  · exact TypeSig.refs_traverseAll hps r hr

theorem Signature.refs_traverse : ∀ {s : Signature ρ} {s' : Signature σ},
    s.traverse φ = some s' → ∀ r ∈ s'.refs, ∃ x, φ x = some r
  | .field t, _, h => by
    simp only [traverse, Option.bind_eq_bind, Option.bind_eq_some_iff] at h
    obtain ⟨t', ht, ⟨⟩⟩ := h
    exact TypeSig.refs_traverse ht
  | .method m, _, h => by
    simp only [traverse, Option.bind_eq_bind, Option.bind_eq_some_iff] at h
    obtain ⟨m', hm, ⟨⟩⟩ := h
    exact MethodSig.refs_traverse hm
  | .property p, _, h => by
    simp only [traverse, Option.bind_eq_bind, Option.bind_eq_some_iff] at h
    obtain ⟨p', hp, ⟨⟩⟩ := h
    exact PropertySig.refs_traverse hp
  | .locals ts, _, h | .instantiation ts, _, h => by
    simp only [traverse, Option.bind_eq_bind, Option.bind_eq_some_iff] at h
    obtain ⟨ts', hts, ⟨⟩⟩ := h
    exact TypeSig.refs_traverseAll hts

end Traversal

section Stored

variable (g : Graph) (loader : Nat)

/-- The type that a token stands for, as the stores tell it. -/
def Graph.typeOf (token : Token) : Option TypeDefOrRef :=
  ((typeDefOrRef loader (.ofToken token)).run g).1

theorem fromStores_typeOfToken (token : Token) :
    g.FromStores (typeOfToken loader token).run (g.typeOf loader token) := by
  obtain ⟨v, hv, -⟩ := fromStores_typeDefOrRef g loader (.ofToken token)
  rw [Graph.typeOf, hv.value]
  exact hv

theorem typeOf_present {token : Token} {t : TypeDefOrRef} (h : g.typeOf loader token = some t) :
    g.present t.node := by
  obtain ⟨v, hv, hpresent⟩ := fromStores_typeDefOrRef g loader (.ofToken token)
  rw [Graph.typeOf, hv.value] at h
  exact hpresent t h

theorem fromStores_countSignature : g.FromStores (countSignature loader) () :=
  .modify fun _ => .of_eq rfl rfl rfl

/-- A stored type signature is told by the stores, and the types that it refers to are
there. -/
theorem fromStores_typeSig (index : Nat) :
    ∃ v, g.FromStores (typeSig loader index) v ∧ ∀ t ∈ v, ∀ r ∈ t.refs, g.present r.node := by
  refine ⟨((g.store? loader).bind fun s => s.typeSig? index).bind
    (TypeSig.traverse (g.typeOf loader)), ?_, fun t ht r hr => ?_⟩
  · refine (fromStores_countSignature g loader).bind fun g' h => ?_
    rw [run_get_bind, h.store?]
    cases (g.store? loader).bind fun s => s.typeSig? index with
    | none => exact ⟨rfl, .refl g'⟩
    | some stored => exact fromStores_traverse (fromStores_typeOfToken g loader) stored g' h
  · obtain ⟨stored, -, ht⟩ := Option.bind_eq_some_iff.mp ht
    obtain ⟨token, htoken⟩ := TypeSig.refs_traverse ht r hr
    exact typeOf_present g loader htoken

/-- So is a stored signature of any sort. -/
theorem fromStores_signature (index : Nat) :
    ∃ v, g.FromStores (signature loader index) v ∧ ∀ s ∈ v, ∀ r ∈ s.refs, g.present r.node := by
  refine ⟨((g.store? loader).bind fun s => s.signature? index).bind
    (Signature.traverse (g.typeOf loader)), ?_, fun s hs r hr => ?_⟩
  · refine (fromStores_countSignature g loader).bind fun g' h => ?_
    rw [run_get_bind, h.store?]
    cases (g.store? loader).bind fun s => s.signature? index with
    | none => exact ⟨rfl, .refl g'⟩
    | some stored => exact fromStores_signatureTraverse (fromStores_typeOfToken g loader) stored g' h
  · obtain ⟨stored, -, hs⟩ := Option.bind_eq_some_iff.mp hs
    obtain ⟨token, htoken⟩ := Signature.refs_traverse hs r hr
    exact typeOf_present g loader htoken

/-- So is a part of what the row of a table refers to. -/
theorem fromStores_signatureOf {α β : Type} {table : Store → List α} {index : α → Nat}
    {part : Signature TypeDefOrRef → Option β} {refs : β → List TypeDefOrRef}
    (hpart : ∀ s b, part s = some b → ∀ r ∈ refs b, r ∈ s.refs) (rid : Nat) :
    ∃ v, g.FromStores (signatureOf table index part loader rid) v ∧
      ∀ b ∈ v, ∀ r ∈ refs b, g.present r.node := by
  have hrow := fromStores_rowAt (g := g) table loader rid
  cases hstored : (g.store? loader).bind fun s => Store.nth (table s) rid with
  | none =>
    rw [hstored] at hrow
    exact ⟨none, hrow.bind (.pure _), by simp⟩
  | some row =>
    rw [hstored] at hrow
    obtain ⟨v, hv, hrefs⟩ := fromStores_signature g loader (index row)
    refine ⟨v.bind part, hrow.bind (hv.bind (.pure _)), fun b hb r hr => ?_⟩
    obtain ⟨s, hs, hb⟩ := Option.bind_eq_some_iff.mp hb
    exact hrefs s hs r (hpart s b hb r hr)

end Stored

end CliMetadata
