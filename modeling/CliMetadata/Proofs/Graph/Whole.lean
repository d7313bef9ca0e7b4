import CliMetadata.Proofs.Graph.Consulting
import CliMetadata.Proofs.Ownership.Stored

/-!
# Graphs in which nothing is missing

`Graph.Intact` is what comparing asks of a graph.  Looking members up asks for a little
more, and for all of it before anything has been read: `Graph.Whole` says that containers
are of the kinds that contain, that what the slots of entities refer to is there, and so is
what lists hold.

Reading adds to a graph.  `Graph.Extended g g'` says that nothing is lost by it and that
**whatever is new refers to what is there**, so a whole graph stays whole
(`Graph.Whole.extended`).  A module that has just been opened is whole
(`Store.loaded_whole`), whatever its store holds, and so is every graph that operations on
containers lead to, if what its slots refer to is there (`Graph.Reaches.whole`).
-/

namespace CliMetadata

open CliMetadata.Graph Loading Stateful

/-- The slot of the signature of a reference to a member. -/
def MemberRefId.lazySig : LazySlot .memberRef (Option (Signature TypeDefOrRef)) where
  get := (·.sig)
  set v e := { e with sig := v }
  absent := none
  compute := signatureOf (·.memberRefs) (·.signature) some
  refs := optionRefs Signature.refs
  get_set _ _ := rfl
  set_set _ _ _ := rfl
  origin_set _ _ := rfl
  get_ofRow _ _ _ _ h := by
    obtain ⟨_, _, rfl⟩ := Option.map_eq_some_iff.mp h
    rfl
  get_blank := rfl
  ne_module := by decide
  ne_customAttribute := by decide
  refs_absent := rfl
  told g loader rid := by
    have hpart : ∀ (s b : Signature TypeDefOrRef), some s = some b → ∀ r ∈ b.refs, r ∈ s.refs := by
      rintro s _ ⟨⟩
      exact fun _ => id
    obtain ⟨v, hv, hrefs⟩ := fromStores_signatureOf g loader hpart rid
    exact ⟨v, hv, present_optionRefs hrefs⟩

/-- The types that the slots of an entity refer to: its scope or its signature. -/
def Entity.refs : Entity → List TypeDefOrRef
  | .typeRef e => optionRefs ResolutionScope.refs e.scope
  | .typeSpec e => optionRefs (optionRefs TypeSig.refs) e.sig
  | .methodDef e => optionRefs (optionRefs MethodSig.refs) e.sig
  | .field e => optionRefs (optionRefs TypeSig.refs) e.sig
  | .memberRef e => optionRefs (optionRefs Signature.refs) e.sig
  | _ => []

namespace Graph

variable {g g' g'' : Graph}

/-- **Nothing is missing that is referred to.** -/
structure Whole (g : Graph) : Prop where
  owner : ∀ {e c o}, g.owners.get? (e, c) = some (some o) → o.kind ∈ e.ownerKinds
  refs : ∀ n, ∀ t ∈ (g.entity n).refs, g.present t.node
  listed : ∀ {e o cs c}, g.lists.get? (e, o) = some cs → c ∈ cs → g.present ⟨e.childKind, c⟩

/-- What is held by a slot that counts among the references of its entities is there. -/
theorem Whole.safe (h : g.Whole) {k : Kind} {ρ : Type} [Recorded k ρ] [Recorded.Lawful k] {α : Type}
    {z : LazySlot k α} (hz : ∀ r, (Recorded.pack k r).refs = optionRefs z.refs (z.get r)) :
    z.Safe g := by
  intro id v hv t ht
  refine h.refs id.node t ?_
  rw [Recorded.Lawful.entity_node (ρ := ρ), hz, hv]
  exact ht

/-- A graph in which nothing is missing is intact. -/
theorem Whole.intact (h : g.Whole) : g.Intact where
  owner := h.owner
  scope := h.safe fun _ => rfl
  spec := h.safe fun _ => rfl
  method := h.safe fun _ => rfl
  field := h.safe fun _ => rfl

/-! ## Additions -/

/-- **The graph after some additions**: what was there is there, and what is new refers to
what is there. -/
structure Extended (g g' : Graph) : Prop where
  present : ∀ {n}, n.kind ≠ .customAttribute → g.present n → g'.present n
  refs : ∀ n, ∀ t ∈ (g'.entity n).refs, t ∈ (g.entity n).refs ∨ g'.present t.node
  owner : ∀ {e c o}, g'.owners.get? (e, c) = some (some o) →
    o.kind ∈ e.ownerKinds ∨ g.owners.get? (e, c) = some (some o)
  listed : ∀ {e o cs c}, g'.lists.get? (e, o) = some cs → c ∈ cs →
    g'.present ⟨e.childKind, c⟩ ∨ g.lists.get? (e, o) = some cs

/-- **Additions keep a graph whole.** -/
theorem Whole.extended (h : g.Whole) (k : g.Extended g') : g'.Whole where
  owner ho := (k.owner ho).elim id h.owner
  refs n t ht := (k.refs n t ht).elim (fun ht => k.present t.ne_customAttribute (h.refs n t ht)) id
  listed hl hc := (k.listed hl hc).elim id fun hl =>
    k.present (Consulted.childKind_ne _) (h.listed hl hc)

namespace Extended

theorem refl (g : Graph) : g.Extended g where
  present _ h := h
  refs _ _ ht := Or.inl ht
  owner ho := Or.inr ho
  listed hl _ := Or.inr hl

theorem trans (h : g.Extended g') (k : g'.Extended g'') : g.Extended g'' where
  present hn hp := k.present hn (h.present hn hp)
  refs n t ht := by
    rcases k.refs n t ht with ht | hp
    · exact (h.refs n t ht).imp_right (k.present t.ne_customAttribute)
    · exact Or.inr hp
  owner ho := (k.owner ho).elim Or.inl h.owner
  listed hl hc := by
    rcases k.listed hl hc with hp | hl
    · exact Or.inl hp
    · exact (h.listed hl hc).imp_left (k.present (Consulted.childKind_ne _))

instance : IsPreorder Graph Extended where
  refl := refl
  trans _ _ _ := trans

/-- Asking for back-references adds containers that the stores name. -/
theorem of_asked {children : Node → Prop} (h : g.Asked children g') : g.Extended g' where
  present _ hp := (h.present _).trans hp
  refs n t ht := Or.inl (h.entity n ▸ ht)
  owner {e c o} ho := by
    cases hv : g.owners.get? (e, c) with
    | some v => exact Or.inr ((h.recorded hv).symm.trans ho)
    | none =>
      have hstored : g.stored e c = some o := by
        have hnoted := h.noted e c
        rw [noted, noted, ho, hv] at hnoted
        exact hnoted.symm
      exact Or.inl (stored_container hstored).2
  listed hl _ := Or.inr (h.lists ▸ hl)

/-- Reading from stores adds nothing but what its rows say. -/
theorem of_quiet (h : g.Quiet g') : g.Extended g' where
  present hn hp := (h.present hn).trans hp
  refs n t ht := by
    by_cases hn : n.kind = .customAttribute
    · obtain ⟨kind, key⟩ := n
      obtain rfl : kind = .customAttribute := hn
      cases ht
    · exact Or.inl (h.entity hn ▸ ht)
  owner ho := Or.inr (h.recorded _ ▸ ho)
  listed hl _ := Or.inr (h.lists ▸ hl)

section Put

variable {k : Kind} {ρ : Type} [Recorded k ρ] [Recorded.Lawful k] {id : Id k} {r : ρ}

/-- An entity that is written down refers to what it did, or to what is there. -/
theorem of_put (hk : k ≠ .module)
    (hr : ∀ t ∈ (Recorded.pack k r).refs, t ∈ (g.entity id.node).refs ∨ g.present t.node) :
    g.Extended (g.put id r) := by
  have hl := loader?_put (g := g) hk id r
  have hpresent : ∀ {n : Node}, g.present n → (g.put id r).present n := by
    intro n hp
    unfold Graph.present at hp ⊢
    rw [Bool.or_eq_true] at hp ⊢
    exact hp.imp contains_put ((hasRow_congr hl n).trans ·)
  refine ⟨fun _ => hpresent, fun n t ht => ?_, Or.inr, fun hl _ => Or.inr hl⟩
  by_cases hn : id.node = n
  · subst hn
    rw [entity_put] at ht
    exact (hr t ht).imp_right hpresent
  · rw [entity_put_of_ne hl hn] at ht
    exact Or.inl ht

/-- Reading a slot adds what the slot is filled with. -/
theorem of_read {α : Type} {z : LazySlot k α}
    (hz : ∀ v (r : ρ), (Recorded.pack k (z.set (some v) r)).refs = z.refs v) (id : Id k) :
    Keeps Extended (z.read id) := by
  intro g
  cases hv : z.get (g.get id) with
  | some v =>
    rw [z.run_held hv]
    exact refl g
  | none =>
    obtain ⟨v, htold, hrefs⟩ := z.told_stored g id
    rw [z.run_empty hv, htold.value]
    refine (of_quiet htold.quiet).trans (of_put z.ne_module fun t ht => ?_)
    rw [hz] at ht
    exact Or.inr ((htold.quiet.present t.ne_customAttribute).trans (hrefs t ht))

end Put

/-- A back-reference is recorded. -/
theorem setOwner {e : Edge} {c : Key} {o : Node} (ho : o.kind ∈ e.ownerKinds) :
    g.Extended ((ownerSlot e c).publish (some o) g) where
  present _ hp := hp
  refs _ _ ht := Or.inl ht
  owner {e' c' o'} h := by
    replace h : (g.owners.set (e, c) (some o)).get? (e', c') = some (some o') := h
    rw [Index.get?_set] at h
    split at h
    · next heq =>
      cases heq
      cases h
      exact Or.inl ho
    · exact Or.inr h
  listed hl _ := Or.inr hl

/-- A list is recorded of what is there. -/
theorem setList {e : Edge} {o : Node} {cs : List Key} (hcs : ∀ c ∈ cs, g.present ⟨e.childKind, c⟩) :
    g.Extended ((listSlot e o).publish cs g) where
  present _ hp := hp
  refs _ _ ht := Or.inl ht
  owner h := Or.inr h
  listed {e' o' cs' c} hl hc := by
    replace hl : (g.lists.set (e, o) cs).get? (e', o') = some cs' := hl
    rw [Index.get?_set] at hl
    split at hl
    · next heq =>
      cases heq
      cases hl
      exact Or.inl (hcs c hc)
    · exact Or.inr hl

/-- An entity is made under a new number that refers to nothing yet. -/
theorem of_make {k : Kind} {ρ : Type} [Recorded k ρ] [Recorded.Lawful k] (hk : k ≠ .module) {r : ρ}
    (hr : (Recorded.pack k r).refs = []) :
    g.Extended ((makeUnread k r).run g).2 ∧
      ((makeUnread k r).run g).2.present ((makeUnread k r).run g).1.node := by
  let id : Id k := ⟨.built g.built⟩
  have hput : g.Extended (g.put id r) := of_put hk fun t ht => by
    rw [hr] at ht
    cases ht
  have hcontains : (g.put id r).entities.contains id.node := by
    rw [Index.contains, put, Index.get?_set_same]
    rfl
  -- the next number is not looked at
  exact ⟨⟨hput.present, hput.refs, hput.owner, hput.listed⟩, contains_present hcontains⟩

end Extended

/-! ## Reading lists -/

/-- A computation adds to a graph, and what it gives is there then. -/
def Offers (g : Graph) (e : Edge) (x : GraphM (Option Key)) : Prop :=
  g.Extended (x.run g).2 ∧ ∀ c, (x.run g).1 = some c → (x.run g).2.present ⟨e.childKind, c⟩

section Lists

variable {e : Edge} {o : Node} {l : Nat}

theorem offers_copyChild (e : Edge) (l p : Nat) : g.Offers e (Ownership.copyChild e l p) := by
  have copied : ∀ (k : Kind) {ρ : Type} [Recorded k ρ] [Recorded.Rowed k],
      (∀ s r, Recorded.ofRow? k s l p = some r → (Recorded.pack k r).refs = []) →
      let run := (do return (← copy k l p).map (·.key) : GraphM (Option Key)).run g
      g.Extended run.2 ∧ ∀ c, run.1 = some c → run.2.present ⟨k, c⟩ := by
    intro k ρ _ _ hnew
    dsimp only
    rw [run_bind]
    unfold copy
    rw [run_get_bind]
    cases hrow : (g.store? l).bind fun s => Recorded.ofRow? k s l p with
    | none => exact ⟨.refl g, by rintro _ ⟨⟩⟩
    | some r =>
      obtain ⟨s, -, hr⟩ := Option.bind_eq_some_iff.mp hrow
      obtain ⟨hmade, hpresent⟩ := Extended.of_make (Recorded.Rowed.ne_module (ρ := ρ)) (hnew s r hr)
      refine ⟨hmade, ?_⟩
      rintro _ ⟨⟩
      exact hpresent
  cases e with
  | assemblyModules => exact ⟨.refl g, by rintro _ ⟨⟩⟩
  | moduleTypes | nestedTypes | fields | methods | properties | events | params | genericParams =>
    refine copied _ fun s r h => ?_
    obtain ⟨_, _, rfl⟩ := Option.map_eq_some_iff.mp h
    rfl

/-- A container takes over what is there, or a private copy of it. -/
theorem offers_takeOver (ho : o.kind ∈ e.ownerKinds) {c : Key} (hc : g.present ⟨e.childKind, c⟩) :
    g.Offers e (Ownership.takeOver e l o c) := by
  have hfree := Extended.of_asked (keepsAsked_free e o c g)
  unfold Ownership.takeOver
  unfold Offers
  rw [run_bind]
  cases ((Ownership.free e o c).run g).1 with
  | true =>
    rw [if_pos rfl]
    have howned := hfree.trans (.setOwner (c := c) ho)
    refine ⟨howned, ?_⟩
    rintro _ ⟨⟩
    exact howned.present (Consulted.childKind_ne e) hc
  | false =>
    rw [if_neg Bool.false_ne_true, run_get_bind]
    generalize ((Ownership.free e o c).run g).2 = g₁ at hfree
    cases (g₁.origin ⟨e.childKind, c⟩).rid? with
    | none => exact ⟨hfree, by rintro _ ⟨⟩⟩
    | some rid =>
      obtain ⟨hcopy, hpresent⟩ := g₁.offers_copyChild e l rid
      dsimp only
      rw [run_bind]
      cases hx : ((Ownership.copyChild e l rid).run g₁).1 with
      | none => exact ⟨hfree.trans hcopy, by rintro _ ⟨⟩⟩
      | some copied =>
        have howned := hcopy.trans (.setOwner (c := copied) ho)
        refine ⟨hfree.trans howned, ?_⟩
        rintro _ ⟨⟩
        exact hpresent copied hx

/-- So it does with all that is read for it. -/
theorem adopt_extended (ho : o.kind ∈ e.ownerKinds) : ∀ {cs : List Key} {g : Graph},
    (∀ c ∈ cs, g.present ⟨e.childKind, c⟩) →
    g.Extended ((Ownership.adopt e l o cs).run g).2 ∧
      ∀ c ∈ ((Ownership.adopt e l o cs).run g).1,
        ((Ownership.adopt e l o cs).run g).2.present ⟨e.childKind, c⟩
  | [], g, _ => ⟨.refl g, fun _ hc => absurd hc List.not_mem_nil⟩
  | c :: cs, g, hcs => by
    have hne := Consulted.childKind_ne e
    obtain ⟨hfirst, htaken⟩ := offers_takeOver (l := l) ho (hcs c List.mem_cons_self)
    obtain ⟨hrest, hothers⟩ := adopt_extended ho fun c' hc' =>
      hfirst.present hne (hcs c' (List.mem_cons_of_mem _ hc'))
    rw [adopt_cons]
    refine ⟨hfirst.trans hrest, fun x hx => ?_⟩
    rcases List.mem_append.mp hx with hx | hx
    · exact hrest.present hne (htaken x (Option.mem_toList.mp hx))
    · exact hothers x hx

theorem storedItems_extended (he : e ≠ .assemblyModules) (ho : o.kind ∈ e.ownerKinds) (rid : Nat)
    (g : Graph) :
    g.Extended ((Ownership.storedItems e o l rid).run g).2 ∧
      ∀ c ∈ ((Ownership.storedItems e o l rid).run g).1,
        ((Ownership.storedItems e o l rid).run g).2.present ⟨e.childKind, c⟩ := by
  unfold Ownership.storedItems
  rw [run_bind, run_bind, run_get_bind]
  generalize (if e = .nestedTypes then _ else _ : List Nat) = rids
  have hchildren := (children_run g l (Ownership.relation e)
    (if e = .moduleTypes then Store.moduleToken else Token.ofParts o.kind.table rid)).1
  generalize ((children l (Ownership.relation e) _).run g).2 = g₁ at hchildren
  obtain ⟨hshared, -, hmade⟩ := sharedChildren_run he l rids g₁
  generalize (collect (Ownership.sharedChild e l) rids).run g₁ = shared at hshared hmade
  obtain ⟨hadopt, hpresent⟩ := adopt_extended (l := l) ho fun c hc =>
    contains_present (hmade c ((ordered_perm shared.2 e shared.1).mem_iff.mp hc))
  exact ⟨((Extended.of_asked hchildren).trans (.of_asked hshared)).trans hadopt, hpresent⟩

/-- **Reading a list adds what it lists.** -/
theorem keepsExtended_items (he : e ≠ .assemblyModules) (ho : o.kind ∈ e.ownerKinds) :
    Keeps Extended (Ownership.items e o) := by
  have hstored : ∀ (origin : Origin) (g : Graph),
      let run := (fromStore origin [] (Ownership.storedItems e o)).run g
      g.Extended run.2 ∧ ∀ c ∈ run.1, run.2.present ⟨e.childKind, c⟩ := by
    intro origin g
    unfold fromStore
    rw [run_get_bind]
    cases g.reader? origin with
    | none => exact ⟨.refl g, fun _ hc => absurd hc List.not_mem_nil⟩
    | some row => exact storedItems_extended he ho row.2 g
  refine Keeps.get.bind fun g => keeps_getRelaxed (fun g' => (hstored _ g').1) fun g' _ => ?_
  exact Extended.setList (hstored _ g').2

end Lists

/-! ## Reading references to members -/

theorem quiet_memberParent (loader : Nat) (index : CodedIndex) :
    Keeps Quiet (memberParent loader index) := by
  have shared : ∀ (k : Kind) {ρ : Type} [Recorded k ρ] [Recorded.Rowed k],
      Keeps Quiet (shared k loader index.row) := fun k => fun g => (fromStores_shared _ _).quiet
  unfold memberParent
  split
  · split
    · exact (shared .typeDef).bind fun _ => Keeps.pure _
    · exact (shared .typeRef).bind fun _ => Keeps.pure _
    · exact (shared .typeSpec).bind fun _ => Keeps.pure _
    · refine Keeps.bind (fun g => ?_) fun _ => Keeps.pure _
      exact (fromStores_sharedWithAttributes (by decide) _ _ _).quiet
    · exact (shared .methodDef).bind fun _ => Keeps.pure _
    · exact Keeps.pure _
  · exact Keeps.pure _

/-- Reading the parent of a reference adds nothing that slots refer to. -/
theorem keepsExtended_parent (m : MemberRefId) : Keeps Extended m.parent := by
  have hquiet : ∀ {x : GraphM (Option MemberParent)}, Keeps Quiet x → Keeps Extended x :=
    fun h g => .of_quiet (h g)
  refine keeps_readSlot (fun loader rid => ?_) fun g v _ => ?_
  · refine hquiet (Keeps.bind (fun g => Quiet.refl g) fun row => ?_)
    cases row with
    | none => exact Keeps.pure _
    | some row => exact quiet_memberParent loader row.parent
  · exact Extended.of_put (by decide) fun t ht => Or.inl ht

/-- Reading its signature adds what that refers to. -/
theorem keepsExtended_sig (m : MemberRefId) : Keeps Extended m.sig :=
  .of_read (z := MemberRefId.lazySig) (fun _ _ => rfl) m

end Graph

/-- An entity that has not been made refers to nothing yet. -/
theorem Graph.refs_unmade {g : Graph} {n : Node} (h : g.entities.get? n = none) :
    (g.entity n).refs = [] := by
  have unmade : ∀ {k : Kind} {ρ : Type} [Recorded k ρ] {α : Type} (z : LazySlot k α) {key : Key},
      g.entities.get? ⟨k, key⟩ = none → optionRefs z.refs (z.get (g.get (⟨key⟩ : Id k))) = [] := by
    intro k ρ _ α z key hkey
    rw [z.get_unmade hkey]
    rfl
  obtain ⟨kind, key⟩ := n
  cases kind with
  | typeRef => exact unmade TypeRefId.lazyScope h
  | typeSpec => exact unmade TypeSpecId.lazySig h
  | methodDef => exact unmade MethodDefId.lazySig h
  | field => exact unmade FieldId.lazySig h
  | memberRef => exact unmade MemberRefId.lazySig h
  | _ => rfl

/-- **A module that has just been opened is whole**, whatever its store holds. -/
theorem Store.loaded_whole {s : Store} {policy : InitPolicy} {row : ModuleRow}
    (h : s.moduleRow? = some row) : (s.loaded policy).Whole where
  owner ho := by cases (s.loaded_owners h ho).2.2
  refs n t ht := by
    by_cases hn : ⟨.module, .built 0⟩ = n
    · subst hn
      cases ht
    · rw [refs_unmade (by rw [s.loaded_entities h, if_neg hn])] at ht
      cases ht
  listed hl := by cases (s.loaded_lists h _).symm.trans hl

namespace Graph

variable {g : Graph}

/-- **So is every graph that operations on containers lead to**, if what its slots refer to is
there: of containment no more is asked than what all operations keep. -/
theorem Reaches.whole {g₀ : Graph} (h : g₀.Sound) (k : g₀.Reaches g)
    (refs : ∀ n, ∀ t ∈ (g.entity n).refs, g.present t.node) : g.Whole := by
  have hsound := (k.kept h).sound
  refine ⟨fun ho => (hsound.owned.container ho).kind, refs, fun hl hc => ?_⟩
  exact contains_present (hsound.wellMade.owner (hsound.owned.listed ((held_eq hl).symm ▸ hc)))

/-- Whether anything is missing can be told from what there are entries for. -/
theorem whole_iff_entries : g.Whole ↔
    (∀ p ∈ g.owners.entries, ∀ o ∈ p.2.toList, o.kind ∈ p.1.1.ownerKinds) ∧
    (∀ p ∈ g.entities.entries, ∀ t ∈ (g.entity p.1).refs, g.present t.node) ∧
    ∀ p ∈ g.lists.entries, ∀ c ∈ p.2, g.present ⟨p.1.1.childKind, c⟩ := by
  constructor
  · intro h
    refine ⟨?_, fun p _ => h.refs p.1, ?_⟩
    · rintro ⟨⟨e, c⟩, v⟩ hp o ho
      obtain rfl := Option.mem_toList.mp ho
      exact h.owner (g.owners.mem_entries.mp hp)
    · rintro ⟨⟨e, o⟩, cs⟩ hp c hc
      exact h.listed (g.lists.mem_entries.mp hp) hc
  · rintro ⟨owner, refs, listed⟩
    refine ⟨fun ho => owner _ (g.owners.mem_entries.mpr ho) _ (List.mem_singleton.mpr rfl), ?_,
      fun hl hc => listed _ (g.lists.mem_entries.mpr hl) _ hc⟩
    intro n t ht
    cases hn : g.entities.get? n with
    | some e => exact refs _ (g.entities.mem_entries.mpr hn) t ht
    | none =>
      rw [refs_unmade hn] at ht
      cases ht

instance (g : Graph) : Decidable g.Whole := decidable_of_iff _ whole_iff_entries.symm

end Graph

end CliMetadata
