import CliMetadata.Proofs.Graph.Perusing
import CliMetadata.Proofs.Ownership.Steps

/-!
# The steps of reading

Whatever is read of a graph, reading takes steps of few sorts: something is recorded beside the
entities, the entity of a row is made as it reads, an entity gets the next number, an empty slot is
filled, and a list that has not been read is written down.  `Graph.Steps S R` says that a relation
allows each of them, where `S` is asked of the entities whose slots are filled.  **Such a relation is
kept by every computation over the stores, by asking for containers and by reading lists**; there is
one lemma for each.

A slot among what is an entity's own is an `OwnSlot`.  A list is written down with children that are
`Graph.Filed`: the containers that they are in have been recorded with them.
-/

namespace CliMetadata

open CliMetadata.Graph Loading Stateful

/-! ## Slots -/

/-- A slot among what is an entity's own. -/
inductive OwnSlot where
  | exportedTypes | resources | base | scope | specSig | fieldSig | fieldConstant | methodSig | body
  | implMap | semantics | overrides | debugInfos | paramConstant | propertySig | propertyAccessors
  | propertyConstant | eventType | eventAccessors | memberParent | memberSig | genericMethod | args
  | constraints | exportedFrom | resourceKept | resourceData
deriving DecidableEq

namespace OwnSlot

/-- The kind of the entities that have the slot. -/
def kind : OwnSlot → Kind
  | exportedTypes | resources => .module
  | base => .typeDef
  | scope => .typeRef
  | specSig => .typeSpec
  | fieldSig | fieldConstant => .field
  | methodSig | body | implMap | semantics | overrides | debugInfos => .methodDef
  | paramConstant => .param
  | propertySig | propertyAccessors | propertyConstant => .property
  | eventType | eventAccessors => .event
  | memberParent | memberSig => .memberRef
  | genericMethod | args => .methodSpec
  | constraints => .genericParam
  | exportedFrom => .exportedType
  | resourceKept | resourceData => .resource

/-- Whether the slot of an entity has been filled. -/
def isFilled : OwnSlot → Entity → Bool
  | exportedTypes, .module e => e.exportedTypes.isSome
  | resources, .module e => e.resources.isSome
  | base, .typeDef e => e.base.isSome
  | scope, .typeRef e => e.scope.isSome
  | specSig, .typeSpec e => e.sig.isSome
  | fieldSig, .field e => e.sig.isSome
  | fieldConstant, .field e => e.constant.isSome
  | methodSig, .methodDef e => e.sig.isSome
  | body, .methodDef e => e.body.isSome
  | implMap, .methodDef e => e.implMap.isSome
  | semantics, .methodDef e => e.semantics.isSome
  | overrides, .methodDef e => e.overrides.isSome
  | debugInfos, .methodDef e => e.debugInfos.isSome
  | paramConstant, .param e => e.constant.isSome
  | propertySig, .property e => e.sig.isSome
  | propertyAccessors, .property e => e.accessors.isSome
  | propertyConstant, .property e => e.constant.isSome
  | eventType, .event e => e.eventType.isSome
  | eventAccessors, .event e => e.accessors.isSome
  | memberParent, .memberRef e => e.parent.isSome
  | memberSig, .memberRef e => e.sig.isSome
  | genericMethod, .methodSpec e => e.method.isSome
  | args, .methodSpec e => e.args.isSome
  | constraints, .genericParam e => e.constraints.isSome
  | exportedFrom, .exportedType e => e.implementation.isSome
  | resourceKept, .resource e => e.implementation.isSome
  | resourceData, .resource e => e.data.isSome
  | _, _ => false

/-- **Which slot it is**, as a field of the structure of a kind; what does not depend on it is
not changed with it. -/
structure Is (p : OwnSlot) (k : Kind) {ρ α : Type} [Recorded k ρ] (get : ρ → Slot α)
    (set : Slot α → ρ → ρ) : Prop where
  kind : p.kind = k
  isFilled : ∀ r, p.isFilled (Recorded.pack k r) = (get r).isSome
  get_set : ∀ v r, get (set v r) = v
  others : ∀ q ≠ p, ∀ v r, q.isFilled (Recorded.pack k (set v r)) = q.isFilled (Recorded.pack k r)
  rid : ∀ v r, (Recorded.pack k (set v r)).rid = (Recorded.pack k r).rid
  fixedToken? : ∀ v r,
    (Recorded.pack k (set v r)).fixedToken? = (Recorded.pack k r).fixedToken?
  loader? : ∀ (id : Id k) v g l, ((Graph.slot id get set).publish v g).loader? l = g.loader? l

/-- What does not depend on a slot stays when the slot is filled. -/
theorem Is.publish_congr {p : OwnSlot} {k : Kind} {ρ α β : Type} [Recorded k ρ] [Recorded.Lawful k]
    {get : ρ → Slot α} {set : Slot α → ρ → ρ} (hp : p.Is k get set) {f : Entity → β}
    (hf : ∀ v r, f (Recorded.pack k (set v r)) = f (Recorded.pack k r)) (id : Id k) (v : α)
    (g : Graph) (n : Node) : f (((Graph.slot id get set).publish v g).entity n) = f (g.entity n) := by
  by_cases hid : id.node = n
  · subst hid
    rw [Recorded.Lawful.entity_node (ρ := ρ) g]
    exact (congrArg f (entity_put id _)).trans (hf _ _)
  · exact congrArg f (entity_put_of_ne (hp.loader? id v g) hid)

end OwnSlot

/-! ## Steps -/

/-- What is done with what is looked up; nothing, where nothing is found. -/
theorem Keeps.found {σ α β : Type} {R : σ → σ → Prop} [IsPreorder σ R] {x : StateM σ (Option α)}
    {f : Option α → StateM σ β} (hsome : ∀ a, Keeps R (f (some a)))
    (hx : ∀ s, (x.run s).2 = s := by intro; rfl)
    (hnone : Keeps R (f none) := by exact Keeps.pure _) : Keeps R (x >>= f) := by
  have hlookUp : Keeps R x := fun s => (hx s).symm ▸ refl_of R s
  refine hlookUp.bind fun a => ?_
  cases a with
  | none => exact hnone
  | some a => exact hsome a

/-- A list is gone through for its effects. -/
theorem Keeps.forM {σ α : Type} {R : σ → σ → Prop} [IsPreorder σ R] {f : α → StateM σ Unit}
    (hf : ∀ a, Keeps R (f a)) : ∀ as : List α, Keeps R (as.forM f)
  | [] => Keeps.pure ()
  | a :: as => (hf a).bind fun _ => Keeps.forM hf as

/-- What an index holds is not lost when something is set. -/
theorem Index.isSome_set {κ α : Type} [Coded κ] [DecidableEq κ] (m : Index κ α)
    (k : κ) (v : α) {k' : κ} (h : (m.get? k').isSome) : ((m.set k v).get? k').isSome := by
  rw [Index.get?_set]
  split
  · rfl
  · exact h

namespace Graph

variable {g g' : Graph}

/-- **A child whose containers have been recorded**: the one that lists it, and for the entity of a row
also whether a container of the rival sort has it. -/
structure Filed (g : Graph) (e : Edge) (c : Key) : Prop where
  known : g.Known c
  recorded : (g.owners.get? (e, c)).isSome
  rival : ∀ e', e.rival? = some e' → c.IsRow → (g.owners.get? (e', c)).isSome

theorem loader?_congr (h : g'.entities = g.entities) (l : Nat) : g'.loader? l = g.loader? l := by
  unfold loader?
  rw [h]

/-- Two graphs that differ in nothing but what is recorded beside the entities, none of which is
lost. -/
structure Alongside (g g' : Graph) : Prop where
  built : g'.built = g.built
  entities : g'.entities = g.entities
  lists : g'.lists = g.lists
  owners : ∀ x, (g.owners.get? x).isSome → (g'.owners.get? x).isSome
  attributes : ∀ n, (g.attributes.get? n).isSome → (g'.attributes.get? n).isSome
  securities : ∀ n, (g.securities.get? n).isSome → (g'.securities.get? n).isSome

/-- **A relation that allows the steps of reading.**  `S` is asked of an entity whose slot is
filled. -/
structure Steps (S : Graph → Node → Prop) (R : Graph → Graph → Prop) : Prop where
  lasting : ∀ {g g' n}, R g g' → S g n → S g' n
  alongside : ∀ {g g'}, g.Alongside g' → R g g'
  /-- The entity of a row is made as it reads. -/
  made : ∀ {g : Graph} {k : Kind} {ρ : Type} [Recorded k ρ] [Recorded.Lawful k] {id : Id k} {r : ρ},
    k ≠ .module → g.present id.node → g.entity id.node = Recorded.pack k r → R g (g.put id r)
  /-- An entity gets the next number. -/
  grown : ∀ {g : Graph} {k : Kind} {ρ : Type} [Recorded k ρ] {r : ρ}, k ≠ .module → R g (g.grow k r)
  /-- An empty slot is filled. -/
  filled : ∀ {g : Graph} {p : OwnSlot} {k : Kind} {ρ α : Type} [Recorded k ρ] [Recorded.Lawful k]
    {get : ρ → Slot α} {set : Slot α → ρ → ρ} {id : Id k} {v : α}, p.Is k get set → S g id.node →
      get (g.get id) = none → R g ((Graph.slot id get set).publish v g)
  /-- A list that has not been read is written down. -/
  listed : ∀ {g : Graph} {e : Edge} {o : Node} {cs : List Key}, g.lists.get? (e, o) = none →
    (∀ c ∈ cs, g.Filed e c) → R g (g.setList e o cs)

namespace Steps

variable {S : Graph → Node → Prop} {R : Graph → Graph → Prop} (h : Steps S R) {l : Nat}

include h

/-! ### Rows and what they carry -/

theorem children (relation : Relation) (owner : Token) :
    Keeps R (Loading.children l relation owner) :=
  fun _ => h.alongside ⟨rfl, rfl, rfl, fun _ => id, fun _ => id, fun _ => id⟩

theorem carried (n : Node) (v : List CustomAttributeId) :
    Keeps R (modify ((attributeSlot n).publish v) : GraphM Unit) :=
  fun _ => h.alongside ⟨rfl, rfl, rfl, fun _ => id, fun _ => Index.isSome_set _ _ _, fun _ => id⟩

theorem makeUnread (k : Kind) {ρ : Type} [Recorded k ρ] (hk : k ≠ .module) (r : ρ) :
    Keeps R (makeUnread k r) := fun _ => h.grown hk

theorem countSignature : Keeps R (Loading.countSignature l) :=
  fun _ => h.alongside ⟨rfl, rfl, rfl, fun _ => id, fun _ => id, fun _ => id⟩

variable [IsPreorder Graph R]

theorem shared (k : Kind) {ρ : Type} [Recorded k ρ] [Recorded.Rowed k] (place : Nat) :
    Keeps R (Loading.shared k l place) := by
  intro g
  rw [shared_run]
  split
  · exact refl_of R g
  · next hc =>
    have hrow := ofRow?_isSome (k := k) (ρ := ρ) g l place
    split
    · exact refl_of R g
    · next r hr =>
      rw [hr] at hrow
      refine h.made (Recorded.Rowed.ne_module (ρ := ρ)) ?_ ?_
      · exact Bool.or_eq_true _ _ ▸ .inr hrow.symm
      · rw [Recorded.Lawful.entity_node (ρ := ρ), get_of_not_contains hc hr]

theorem methodOf (kind : CodedKind) (index : CodedIndex) :
    Keeps R (Loading.methodOf kind l index) := by
  unfold Loading.methodOf
  refine Keeps.ite ?_ (Keeps.pure _)
  split
  · exact (h.shared .methodDef _).put_into _
  · exact (h.shared .memberRef _).put_into _
  · exact Keeps.pure _

theorem attributes (parent : Token) : Keeps R (Loading.attributes l parent) := by
  refine (h.children _ _).bind fun rids => keeps_collect (fun rid => ?_) rids
  refine Keeps.found fun row => ?_
  exact (h.methodOf _ _).bind fun _ => Keeps.get.bind fun _ =>
    (h.makeUnread .customAttribute (by decide) _).map

theorem sharedWithAttributes (k : Kind) {ρ : Type} [Recorded k ρ] [Recorded.Rowed k]
    (hk : k ≠ .customAttribute) (token : ρ → Token) (place : Nat) :
    Keeps R (Loading.sharedWithAttributes k token l place) := by
  intro g
  let id : Id k := ⟨.row l place⟩
  have hrow : _ = g.hasRow id.node := ofRow?_isSome (k := k) (ρ := ρ) g l place
  unfold Loading.sharedWithAttributes
  rw [run_get_bind]
  by_cases hc : g.entities.contains id.node
  · rw [if_pos hc]
    exact refl_of R g
  · rw [if_neg hc]
    cases hr : (g.store? l).bind fun s => Recorded.ofRow? k s l place with
    | none => exact refl_of R g
    | some r =>
      rw [hr] at hrow
      have hpresent : g.present id.node := Bool.or_eq_true _ _ ▸ .inr hrow.symm
      -- the entity reads the same after its attributes, and is made like this
      have hquiet := quiet_attributes l (token r) g
      have hreads := hquiet.entity (n := id.node) hk
      rw [Recorded.Lawful.entity_node (ρ := ρ) g, get_of_not_contains hc hr] at hreads
      refine trans_of R (h.attributes (l := l) (token r) g) ?_
      refine trans_of R (h.made (Recorded.Rowed.ne_module (ρ := ρ)) ?_ hreads) ?_
      · exact (hquiet.present hk).trans hpresent
      · exact h.carried _ _ _

theorem assemblyRef (place : Nat) : Keeps R (Loading.assemblyRef l place) :=
  h.sharedWithAttributes .assemblyRef (by decide) _ _

theorem moduleRef (place : Nat) : Keeps R (Loading.moduleRef l place) :=
  h.sharedWithAttributes .moduleRef (by decide) _ _

theorem file (place : Nat) : Keeps R (Loading.file l place) :=
  h.sharedWithAttributes .file (by decide) _ _

theorem securities (parent : Token) : Keeps R (Loading.securities l parent) := by
  refine (h.children _ _).bind fun rids => keeps_collect (fun rid => ?_) rids
  refine Keeps.found fun row => ?_
  refine Keeps.get.bind fun _ => (h.attributes _).bind fun carried => ?_
  exact (h.makeUnread .security (by decide) _).bind fun id =>
    (h.carried id.node carried).bind fun _ => Keeps.pure _

theorem constant (parent : Token) : Keeps R (Loading.constant l parent) := by
  refine (h.children _ _).bind fun rids => ?_
  cases rids with
  | nil => exact Keeps.pure _
  | cons rid _ =>
    refine Keeps.found fun row => ?_
    exact Keeps.get.bind fun _ => (h.makeUnread .constant (by decide) _).map

theorem implMap (method : Token) : Keeps R (Loading.implMap l method) := by
  refine (h.children _ _).bind fun rids => ?_
  cases rids with
  | nil => exact Keeps.pure _
  | cons rid _ =>
    refine Keeps.found fun row => ?_
    exact Keeps.get.bind fun _ => (h.moduleRef _).bind fun _ =>
      (h.makeUnread .implMap (by decide) _).map

/-! ### Coded indices and signatures -/

theorem typeDefOrRef (index : CodedIndex) : Keeps R (Loading.typeDefOrRef l index) := by
  unfold Loading.typeDefOrRef
  refine Keeps.ite ?_ (Keeps.pure _)
  split
  · exact (h.shared .typeDef _).put_into _
  · exact (h.shared .typeRef _).put_into _
  · exact (h.shared .typeSpec _).put_into _
  · exact Keeps.pure _

theorem resolutionScope (index : CodedIndex) : Keeps R (Loading.resolutionScope l index) := by
  unfold Loading.resolutionScope
  refine Keeps.ite ?_ (Keeps.pure _)
  split
  · exact Keeps.pure _
  · exact (h.moduleRef _).put_into _
  · exact (h.assemblyRef _).put_into _
  · exact (h.shared .typeRef _).put_into _
  · exact Keeps.pure _

theorem memberParent (index : CodedIndex) : Keeps R (Loading.memberParent l index) := by
  unfold Loading.memberParent
  refine Keeps.ite ?_ (Keeps.pure _)
  split
  · exact (h.shared .typeDef _).put_into _
  · exact (h.shared .typeRef _).put_into _
  · exact (h.shared .typeSpec _).put_into _
  · exact (h.moduleRef _).put_into _
  · exact (h.shared .methodDef _).put_into _
  · exact Keeps.pure _

theorem implementation (index : CodedIndex) : Keeps R (Loading.implementation l index) := by
  unfold Loading.implementation
  refine Keeps.ite ?_ (Keeps.pure _)
  split
  · exact (h.file _).put_into _
  · exact (h.assemblyRef _).put_into _
  · exact (h.shared .exportedType _).put_into _
  · exact Keeps.pure _

theorem typeOrMethod (index : CodedIndex) : Keeps R (Loading.typeOrMethod l index) := by
  unfold Loading.typeOrMethod
  refine Keeps.ite ?_ (Keeps.pure _)
  split
  · exact (h.shared .typeDef _).put_into _
  · exact (h.shared .methodDef _).put_into _
  · exact Keeps.pure _

theorem typeSig (index : Nat) : Keeps R (Loading.typeSig l index) := by
  refine h.countSignature.bind fun _ => Keeps.get.bind fun g => ?_
  split
  · exact Keeps.sequential.traverse (fun _ => h.typeDefOrRef _) _
  · exact Keeps.pure _

theorem signature (index : Nat) : Keeps R (Loading.signature l index) := by
  refine h.countSignature.bind fun _ => Keeps.get.bind fun g => ?_
  split
  · exact Keeps.sequential.signatureTraverse (fun _ => h.typeDefOrRef _) _
  · exact Keeps.pure _

theorem signatureOf {α β : Type} (table : Store → List α) (index : α → Nat)
    (part : Signature TypeDefOrRef → Option β) (rid : Nat) :
    Keeps R (Loading.signatureOf table index part l rid) := by
  exact Keeps.found fun _ => (h.signature _).put_into _

/-! ### What slots are filled with -/

theorem accessorsOf (association : Token) : Keeps R (CliMetadata.accessorsOf l association) := by
  refine (h.children _ _).bind fun places => keeps_collect (fun place => ?_) places
  refine Keeps.found fun row => ?_
  exact (h.shared .methodDef _).put_into _

/-! ### Containers -/

theorem storedOwner (e : Edge) (rid : Nat) : Keeps R (Ownership.storedOwner e l rid) := by
  unfold Ownership.storedOwner
  cases e with
  | moduleTypes => exact Keeps.bind (fun g => refl_of R g) fun _ => Keeps.pure _
  | nestedTypes | fields | methods | properties | events =>
    exact Keeps.found fun _ =>
      Keeps.ite ((h.shared .typeDef _).put_into _) (Keeps.pure _)
  | params =>
    exact Keeps.found fun _ =>
      Keeps.ite ((h.shared .methodDef _).put_into _) (Keeps.pure _)
  | genericParams =>
    exact Keeps.found fun _ => h.typeOrMethod _
  | assemblyModules => exact Keeps.pure _

omit [IsPreorder Graph R] in
/-- A container is recorded for a child. -/
theorem contained (g : Graph) (e : Edge) (c : Key) (o : Option Node) : R g (g.setOwner e c o) :=
  h.alongside ⟨rfl, rfl, rfl, fun _ => Index.isSome_set _ _ _, fun _ => id, fun _ => id⟩

theorem owner (e : Edge) (c : Key) : Keeps R (Ownership.owner e c) := by
  refine Keeps.get.bind fun g => Keeps.bind ?_ fun _ => Keeps.get.bind fun _ => Keeps.pure _
  exact keeps_getRelaxed (keeps_fromStore fun _ => h.storedOwner e) fun g _ => h.contained _ e c _

theorem claimed (e : Edge) (c : Key) : Keeps R (Ownership.claimed e c) := by
  unfold Ownership.claimed
  cases e.rival? with
  | none => exact Keeps.pure _
  | some rival => exact (h.owner rival c).put_into _

theorem free (e : Edge) (o : Node) (c : Key) : Keeps R (Ownership.free e o c) := by
  refine (h.claimed e c).bind fun claimed => Keeps.ite (Keeps.pure _) ?_
  refine (h.owner e c).bind fun held => ?_
  cases held with
  | none => exact Keeps.pure _
  | some o' => exact Keeps.pure _

theorem sharedChild (e : Edge) (place : Nat) : Keeps R (Ownership.sharedChild e l place) := by
  by_cases he : e = .assemblyModules
  · subst he
    exact Keeps.pure _
  · obtain ⟨ρ, _, _, hshared, -⟩ := e.tabled he
    rw [hshared]
    exact (h.shared e.childKind place).put_into _

theorem takeOver (e : Edge) (o : Node) (c : Key) : Keeps R (Ownership.takeOver e l o c) := by
  refine (h.free e o c).bind fun free => Keeps.ite ?_ (Keeps.get.bind fun g => ?_)
  · exact Keeps.bind (fun g => h.contained g e c _) fun _ => Keeps.pure _
  · cases (g.origin ⟨e.childKind, c⟩).rid? with
    | none => exact Keeps.pure _
    | some rid =>
      intro g
      dsimp only
      rw [run_bind]
      rcases copyChild_cases e l rid g with hnone | ⟨he, k, ρ, _, r, hk, hcopy⟩
      · rw [hnone]
        exact refl_of R g
      · have hmodule : k ≠ .module := by
          rw [hk]
          cases e <;> first | exact absurd rfl he | decide
        rw [hcopy]
        exact trans_of R (h.grown hmodule) (h.contained _ e _ _)

theorem storedItems (e : Edge) (o : Node) (rid : Nat) : Keeps R (Ownership.storedItems e o l rid) := by
  refine (h.children _ _).bind fun rids => (keeps_collect (h.sharedChild e) _).bind fun _ => ?_
  exact Keeps.get.bind fun g => keeps_collect (h.takeOver e o) _

end Steps

/-! ## Children that are listed -/

/-- Two graphs of which the second has recorded all containers that the first has. -/
structure Recording (g g' : Graph) : Prop where
  built : g.built ≤ g'.built
  owners : ∀ x, (g.owners.get? x).isSome → (g'.owners.get? x).isSome

instance : IsPreorder Graph Recording where
  refl _ := ⟨Nat.le_refl _, fun _ => id⟩
  trans _ _ _ h k := ⟨Nat.le_trans h.built k.built, fun x => k.owners x ∘ h.owners x⟩

/-- Reading loses no container that has been recorded. -/
theorem recording_steps : Steps (fun _ _ => True) Recording where
  lasting _ _ := trivial
  alongside h := ⟨Nat.le_of_eq h.built.symm, h.owners⟩
  made _ _ _ := ⟨Nat.le_refl _, fun _ => id⟩
  grown _ := ⟨Nat.le_succ _, fun _ => id⟩
  filled _ _ _ := ⟨Nat.le_refl _, fun _ => id⟩
  listed _ _ := ⟨Nat.le_refl _, fun _ => id⟩

theorem Filed.mono {e : Edge} {c : Key} (hc : g.Filed e c) (h : g.Recording g') : g'.Filed e c where
  known := hc.known.mono h.built
  recorded := h.owners _ hc.recorded
  rival e' he' hrow := h.owners _ (hc.rival e' he' hrow)

section Taking

variable {e : Edge} {l : Nat} {o : Node}

/-- Whether a child is free is found out by asking for its container of the rival sort. -/
theorem free_rival {e' : Edge} (he : e.rival? = some e') (c : Key) (g : Graph) :
    (((Ownership.free e o c).run g).2.owners.get? (e', c)).isSome := by
  have hclaimed : (((Ownership.claimed e c).run g).2.owners.get? (e', c)).isSome := by
    unfold Ownership.claimed
    rw [he]
    exact Option.isSome_iff_exists.mpr ⟨_, (owner_run g e' c).2.2⟩
  unfold Ownership.free
  rw [run_bind]
  refine (Keeps.ite (R := Recording) (Keeps.pure _) ?_ _).owners _ hclaimed
  refine (recording_steps.owner e c).bind fun held => ?_
  cases held with
  | none => exact Keeps.pure _
  | some o' => exact Keeps.pure _

/-- **What a container lists for a child** has its containers recorded. -/
theorem takeOver_filed {c x : Key} (hc : g.Known c)
    (hx : ((Ownership.takeOver e l o c).run g).1 = some x) :
    ((Ownership.takeOver e l o c).run g).2.Filed e x := by
  have hset : ∀ (g₁ : Graph) (c' : Key), ((g₁.setOwner e c' (some o)).owners.get? (e, c')).isSome :=
    fun _ _ => Option.isSome_iff_exists.mpr ⟨_, Index.get?_set_same _ _ _⟩
  have hfree := recording_steps.free e o c g
  have hrival := fun e' (he' : e.rival? = some e') => free_rival (o := o) he' c g
  unfold Ownership.takeOver at hx ⊢
  rw [run_bind] at hx ⊢
  generalize (Ownership.free e o c).run g = tested at hx hfree hrival ⊢
  obtain ⟨answer, g₁⟩ := tested
  cases answer with
  | true =>
    cases hx
    exact ⟨hc.mono hfree.built, hset g₁ c, fun e' he' _ =>
      (recording_steps.contained g₁ e c _).owners _ (hrival e' he')⟩
  | false =>
    rw [if_neg Bool.false_ne_true, run_get_bind] at hx ⊢
    dsimp only at hx ⊢
    cases hrid : (g₁.origin ⟨e.childKind, c⟩).rid? with
    | none =>
      rw [hrid] at hx
      cases hx
    | some rid =>
      rw [hrid] at hx
      dsimp only at hx ⊢
      rw [run_bind] at hx ⊢
      rcases copyChild_cases e l rid g₁ with hnone | ⟨-, k, ρ, _, r, -, hcopy⟩
      · rw [hnone] at hx
        cases hx
      · -- a private copy is no row
        rw [hcopy] at hx ⊢
        cases hx
        exact ⟨Nat.lt_succ_self _, hset _ _, fun _ _ hrow => hrow.elim⟩

theorem adopt_filed : ∀ (cs : List Key) {g : Graph}, (∀ c ∈ cs, g.Known c) →
    ∀ x ∈ ((Ownership.adopt e l o cs).run g).1, ((Ownership.adopt e l o cs).run g).2.Filed e x
  | [], _, _, _, hx => absurd hx List.not_mem_nil
  | c :: cs, g, hcs, x, hx => by
    have hfirst := recording_steps.takeOver (l := l) e o c g
    have hrest := keeps_collect (recording_steps.takeOver (l := l) e o) cs
      ((Ownership.takeOver e l o c).run g).2
    rw [adopt_cons] at hx ⊢
    rcases List.mem_append.mp hx with hx | hx
    · exact (takeOver_filed (hcs c List.mem_cons_self) (Option.mem_toList.mp hx)).mono hrest
    · exact adopt_filed cs
        (fun c' hc' => (hcs c' (List.mem_cons_of_mem _ hc')).mono hfirst.built) x hx

theorem storedItems_filed (rid : Nat) (g : Graph) :
    ∀ c ∈ ((Ownership.storedItems e o l rid).run g).1,
      ((Ownership.storedItems e o l rid).run g).2.Filed e c := by
  unfold Ownership.storedItems
  rw [run_bind, run_bind, run_get_bind]
  refine adopt_filed _ fun c hc => ?_
  obtain ⟨p, rfl⟩ := collect_all (P := fun c => ∃ p, c = .row l p)
    (fun p _ _ h => ⟨p, sharedChild_row h⟩) _ _ c ((ordered_perm _ e _).mem_iff.mp hc)
  trivial

end Taking

/-! ## Reading -/

namespace Steps

variable {S : Graph → Node → Prop} {R : Graph → Graph → Prop} (h : Steps S R) [IsPreorder Graph R]

include h

theorem items (e : Edge) (o : Node) : Keeps R (Ownership.items e o) := by
  refine Keeps.get.bind fun g => ?_
  refine keeps_getRelaxed (keeps_fromStore fun _ => h.storedItems e o) fun g' hempty => ?_
  refine h.listed hempty fun c hc => ?_
  unfold fromStore at hc ⊢
  rw [run_get_bind] at hc ⊢
  split at hc
  · exact storedItems_filed _ g' c hc
  · exact absurd hc List.not_mem_nil

theorem customAttributes (n : Node) : Keeps R (CliMetadata.customAttributes n) := by
  refine Keeps.get.bind fun g => ?_
  exact keeps_getRelaxed (keeps_fromStore fun _ _ => h.attributes _) fun g' _ => h.carried n _ _

theorem declSecurities (n : Node) : Keeps R (CliMetadata.declSecurities n) := by
  refine Keeps.get.bind fun g => ?_
  refine keeps_getRelaxed (keeps_fromStore fun _ _ => h.securities _) fun g' _ => ?_
  exact h.alongside ⟨rfl, rfl, rfl, fun _ => id, fun _ => id, fun _ => Index.isSome_set _ _ _⟩

/-- A slot among what is an entity's own. -/
theorem slot {p : OwnSlot} {k : Kind} {ρ α : Type} [Recorded k ρ] [Recorded.Lawful k]
    {get : ρ → Slot α} {set : Slot α → ρ → ρ} {id : Id k} {absent : α}
    {compute : (loader rid : Nat) → GraphM α} (hp : p.Is k get set)
    (hc : ∀ loader rid, Keeps R (compute loader rid)) {g : Graph} (hS : S g id.node) :
    R g ((readSlot id (Graph.slot id get set) absent compute).run g).2 := by
  have hcompute : R g ((fromStore (g.origin id.node) absent compute).run g).2 :=
    keeps_fromStore hc g
  unfold readSlot
  rw [run_get_bind]
  cases hv : (Graph.slot id get set).peek g with
  | some v =>
    rw [getRelaxed_held hv]
    exact refl_of R g
  | none =>
    cases hw : (Graph.slot id get set).peek ((fromStore (g.origin id.node) absent compute).run g).2 with
    | some w =>
      rw [getRelaxed_filled hv hw]
      exact hcompute
    | none =>
      rw [getRelaxed_empty hv hw]
      exact trans_of R hcompute (h.filled hp (h.lasting hcompute hS) hw)

end Steps
end Graph

end CliMetadata
