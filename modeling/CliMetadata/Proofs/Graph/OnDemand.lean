import CliMetadata.Graph.Initialisation
import CliMetadata.Proofs.Graph.Contents
import CliMetadata.Proofs.Graph.ReadingSteps

/-!
# What is read on demand

A `Demand` is a property of an entity that is read from its store when it is asked for: a slot among
what is its own (`OwnSlot`), its attributes or security declarations, the container that a child is in,
or the children of a container.  `Demand.all` lists the demands of an entity.

**Every demand keeps a relation that allows the steps of reading** (`Graph.Steps.read`).  Once a
property has been read it is held, and what is held is not read again.

`Store.Visited` says that a graph is that of a store that has been opened, after any reading of what
there is, in any order, and after asking for any rows by their numbers (`RowAccessor`).
-/

namespace CliMetadata

open CliMetadata.Graph Loading Stateful

/-! ## Demands -/

/-- The bytes that the row of a resource refers to, wherever the resource is kept. -/
def ResourceId.embedded (r : ResourceId) : GraphM (Option (List UInt8)) :=
  readSlot r r.dataSlot none fun loader _ => do
    let g ← get
    return (g.store? loader).bind fun s => s.resource? (g.get r).offset

namespace OwnSlot

/-- Every slot. -/
def all : List OwnSlot :=
  [exportedTypes, resources, base, scope, specSig, fieldSig, fieldConstant, methodSig, body, implMap,
    semantics, overrides, debugInfos, paramConstant, propertySig, propertyAccessors, propertyConstant,
    eventType, eventAccessors, memberParent, memberSig, genericMethod, args, constraints, exportedFrom,
    resourceKept, resourceData]

/-- Reads the slot of an entity. -/
def read (c : Key) : OwnSlot → GraphM Unit
  | exportedTypes => touch (ModuleId.exportedTypes ⟨c⟩)
  | resources => touch (ModuleId.resources ⟨c⟩)
  | base => touch (TypeDefId.base ⟨c⟩)
  | scope => touch (TypeRefId.scope ⟨c⟩)
  | specSig => touch (TypeSpecId.sig ⟨c⟩)
  | fieldSig => touch (FieldId.sig ⟨c⟩)
  | fieldConstant => touch (FieldId.constant ⟨c⟩)
  | methodSig => touch (MethodDefId.sig ⟨c⟩)
  | body => touch (MethodDefId.body ⟨c⟩)
  | implMap => touch (MethodDefId.implMap ⟨c⟩)
  | semantics => touch (MethodDefId.semantics ⟨c⟩)
  | overrides => touch (MethodDefId.overrides ⟨c⟩)
  | debugInfos => touch (MethodDefId.debugInfos ⟨c⟩)
  | paramConstant => touch (ParamId.constant ⟨c⟩)
  | propertySig => touch (PropertyId.sig ⟨c⟩)
  | propertyAccessors => touch (PropertyId.accessors ⟨c⟩)
  | propertyConstant => touch (PropertyId.constant ⟨c⟩)
  | eventType => touch (EventId.eventType ⟨c⟩)
  | eventAccessors => touch (EventId.accessors ⟨c⟩)
  | memberParent => touch (MemberRefId.parent ⟨c⟩)
  | memberSig => touch (MemberRefId.sig ⟨c⟩)
  | genericMethod => touch (MethodSpecId.method ⟨c⟩)
  | args => touch (MethodSpecId.args ⟨c⟩)
  | constraints => touch (GenericParamId.constraints ⟨c⟩)
  | exportedFrom => touch (ExportedTypeId.implementation ⟨c⟩)
  | resourceKept => touch (ResourceId.implementation ⟨c⟩)
  | resourceData => touch (ResourceId.embedded ⟨c⟩)

end OwnSlot

/-- **A property that is read on demand**, of some entity. -/
inductive Demand where
  | own (p : OwnSlot) (c : Key)
  | attributes (n : Node)
  | securities (n : Node)
  | owner (e : Edge) (c : Key)
  | items (e : Edge) (o : Node)
deriving DecidableEq

namespace Demand

/-- The entity that has the property. -/
def node : Demand → Node
  | own p c => ⟨p.kind, c⟩
  | attributes n | securities n => n
  | owner e c => ⟨e.childKind, c⟩
  | items _ o => o

/-- Reads the property. -/
def read : Demand → GraphM Unit
  | own p c => p.read c
  | attributes n => touch (customAttributes n)
  | securities n => touch (declSecurities n)
  | owner e c => touch (Ownership.owner e c)
  | items e o => touch (Ownership.items e o)

/-- Whether the property has been read. -/
def held (g : Graph) : Demand → Bool
  | own p c => p.isFilled (g.entity ⟨p.kind, c⟩)
  | attributes n => (g.attributes.get? n).isSome
  | securities n => (g.securities.get? n).isSome
  | owner e c => (g.owners.get? (e, c)).isSome
  | items e o => (g.lists.get? (e, o)).isSome

/-- **Everything that is read on demand of an entity.** -/
def all (n : Node) : List Demand :=
  (OwnSlot.all.filter fun p => p.kind = n.kind).map (own · n.key) ++
    (Edge.all.filter fun e => e.childKind = n.kind).map (owner · n.key) ++
    (Edge.all.filter fun e => e.ownerKinds.contains n.kind).map (items · n) ++
    (if n.kind.hasAttributes then [attributes n] else []) ++
    (if n.kind.hasSecurities then [securities n] else [])

theorem node_of_mem {d : Demand} {n : Node} (h : d ∈ all n) : d.node = n := by
  obtain ⟨kind, key⟩ := n
  simp only [all, List.mem_append, List.mem_map, List.mem_filter, decide_eq_true_eq] at h
  rcases h with (((⟨p, ⟨-, rfl⟩, rfl⟩ | ⟨e, ⟨-, rfl⟩, rfl⟩) | ⟨e, -, rfl⟩) | h) | h
  · rfl
  · rfl
  · rfl
  all_goals
    split at h
    · rw [List.mem_singleton.mp h]
      rfl
    · exact absurd h List.not_mem_nil

theorem items_mem {e : Edge} {o n : Node} (h : items e o ∈ all n) :
    e.ownerKinds.contains n.kind := by
  simp only [all, List.mem_append, List.mem_map, List.mem_filter] at h
  rcases h with (((⟨_, -, h⟩ | ⟨_, -, h⟩) | ⟨_, ⟨-, hkind⟩, h⟩) | h) | h
  · cases h
  · cases h
  · cases h
    exact hkind
  all_goals
    split at h
    · cases List.mem_singleton.mp h
    · exact absurd h List.not_mem_nil

end Demand

/-! ## How slots are read -/

/-- **How a slot is read**: it is filled by a computation that takes steps of reading. -/
structure OwnSlot.Reads (p : OwnSlot) (k : Kind) {ρ α : Type} [Recorded k ρ] (get : ρ → Slot α)
    (set : Slot α → ρ → ρ) (absent : α) (compute : Id k → (loader rid : Nat) → GraphM α) : Prop
    extends p.Is k get set where
  read : ∀ id : Id k,
    p.read id.key = touch (readSlot id (Graph.slot id get set) absent (compute id))
  keeps : ∀ {S : Graph → Node → Prop} {R : Graph → Graph → Prop} [IsPreorder Graph R], Steps S R →
    ∀ id l rid, Keeps R (compute id l rid)

/-- A slot that is read somehow. -/
def OwnSlot.Lazy (p : OwnSlot) : Prop :=
  ∃ (k : Kind) (ρ α : Type) (_ : Recorded k ρ) (_ : Recorded.Lawful k) (get : ρ → Slot α)
    (set : Slot α → ρ → ρ) (absent : α) (compute : Id k → Nat → Nat → GraphM α),
    p.Reads k get set absent compute

namespace OwnSlot

section Lazy

variable {p : OwnSlot} {k : Kind} {ρ α : Type} [Recorded k ρ] [Recorded.Lawful k] {absent : α}
  {compute : Id k → (loader rid : Nat) → GraphM α} (get : ρ → Slot α) (set : Slot α → ρ → ρ)

/-- A slot of what is no module. -/
theorem Lazy.of
    (read : ∀ id : Id k,
      p.read id.key = touch (readSlot id (Graph.slot id get set) absent (compute id)))
    (keeps : ∀ {S : Graph → Node → Prop} {R : Graph → Graph → Prop} [IsPreorder Graph R], Steps S R →
      ∀ id l rid, Keeps R (compute id l rid))
    (hk : k ≠ .module := by decide) (kind : p.kind = k := by rfl)
    (isFilled : ∀ r, p.isFilled (Recorded.pack k r) = (get r).isSome := by intros; rfl)
    (get_set : ∀ v r, get (set v r) = v := by intros; rfl)
    (others : ∀ q ≠ p, ∀ v r,
      q.isFilled (Recorded.pack k (set v r)) = q.isFilled (Recorded.pack k r) := by
        intro q hq _ _
        cases q <;> first | rfl | exact absurd rfl hq)
    (rid : ∀ v r, (Recorded.pack k (set v r)).rid = (Recorded.pack k r).rid := by intros; rfl)
    (fixedToken? : ∀ v r,
      (Recorded.pack k (set v r)).fixedToken? = (Recorded.pack k r).fixedToken? := by intros; rfl) :
    p.Lazy :=
  ⟨k, ρ, α, inferInstance, inferInstance, get, set, absent, compute,
    { kind, isFilled, get_set, others, rid, fixedToken?, read, keeps
      loader? := fun _ _ _ => loader?_put hk _ _ }⟩

/-- A slot of a module. -/
theorem Lazy.ofModule {p : OwnSlot} {α : Type} {absent : α}
    {compute : ModuleId → (loader rid : Nat) → GraphM α} (get : Module → Slot α)
    (set : Slot α → Module → Module)
    (read : ∀ id : ModuleId,
      p.read id.key = touch (readSlot id (Graph.slot id get set) absent (compute id)))
    (keeps : ∀ {S : Graph → Node → Prop} {R : Graph → Graph → Prop} [IsPreorder Graph R], Steps S R →
      ∀ id l rid, Keeps R (compute id l rid))
    (kind : p.kind = .module := by rfl)
    (isFilled : ∀ r, p.isFilled (.module r) = (get r).isSome := by intros; rfl)
    (get_set : ∀ v r, get (set v r) = v := by intros; rfl)
    (others : ∀ q ≠ p, ∀ v r, q.isFilled (.module (set v r)) = q.isFilled (.module r) := by
        intro q hq _ _
        cases q <;> first | rfl | exact absurd rfl hq)
    (rid : ∀ v r, (set v r).rid = r.rid := by intros; rfl)
    (loader : ∀ v r, (set v r).loader = r.loader := by intros; rfl) : p.Lazy :=
  ⟨.module, Module, α, inferInstance, inferInstance, get, set, absent, compute,
    { kind, isFilled, get_set, others, rid, read, keeps
      fixedToken? := fun _ _ => rfl
      loader? := fun _ _ _ => ModuleId.loader?_update (loader _) }⟩

end Lazy

/-- **Every slot is read by a computation that takes steps of reading.** -/
theorem lazily (p : OwnSlot) : p.Lazy := by
  cases p with
  | exportedTypes =>
    exact .ofModule Module.exportedTypes (fun v r => { r with exportedTypes := v }) (fun _ => rfl)
      fun h _ _ _ => (h.children _ _).bind fun _ => keeps_collect (h.shared .exportedType) _
  | resources =>
    exact .ofModule Module.resources (fun v r => { r with resources := v }) (fun _ => rfl)
      fun h _ _ _ => (h.children _ _).bind fun _ => keeps_collect (h.shared .resource) _
  | base =>
    exact .of (k := .typeDef) TypeDef.base (fun v r => { r with base := v }) (fun _ => rfl)
      fun h _ _ _ => Keeps.found fun _ => h.typeDefOrRef _
  | scope =>
    exact .of (k := .typeRef) TypeRef.scope (fun v r => { r with scope := v }) (fun _ => rfl)
      fun h _ _ _ => Keeps.found fun _ => h.resolutionScope _
  | specSig =>
    exact .of (k := .typeSpec) TypeSpec.sig (fun v r => { r with sig := v }) (fun _ => rfl)
      fun h _ _ _ => Keeps.found fun _ => h.typeSig _
  | fieldSig =>
    exact .of (k := .field) Field.sig (fun v r => { r with sig := v }) (fun _ => rfl)
      fun h _ _ rid => h.signatureOf _ _ _ rid
  | fieldConstant =>
    exact .of (k := .field) Field.constant (fun v r => { r with constant := v }) (fun _ => rfl)
      fun h _ _ _ => h.constant _
  | methodSig =>
    exact .of (k := .methodDef) MethodDef.sig (fun v r => { r with sig := v }) (fun _ => rfl)
      fun h _ _ rid => h.signatureOf _ _ _ rid
  | body =>
    exact .of (k := .methodDef) MethodDef.body (fun v r => { r with body := v }) (fun _ => rfl)
      fun _ _ _ _ => Keeps.get.bind fun _ => Keeps.pure _
  | implMap =>
    exact .of (k := .methodDef) MethodDef.implMap (fun v r => { r with implMap := v })
      (fun _ => rfl) fun h _ _ _ => h.implMap _
  | semantics =>
    exact .of (k := .methodDef) MethodDef.semantics (fun v r => { r with semantics := v })
      (fun _ => rfl) fun _ _ _ _ => Keeps.get.bind fun _ => Keeps.pure _
  | overrides =>
    refine .of (k := .methodDef) MethodDef.overrides (fun v r => { r with overrides := v })
      (fun _ => rfl) fun h _ _ _ => ?_
    refine Keeps.found fun declaring => ?_
    refine (h.children _ _).bind fun places => keeps_collect (fun place => ?_) places
    refine Keeps.found fun row => Keeps.ite ?_ (Keeps.pure _)
    exact (h.methodOf _ _).bind fun _ => (h.methodOf _ _).bind fun _ => Keeps.pure _
  | debugInfos =>
    exact .of (k := .methodDef) MethodDef.debugInfos (fun v r => { r with debugInfos := v })
      (fun _ => rfl) fun _ _ _ _ => Keeps.get.bind fun _ => Keeps.pure _
  | paramConstant =>
    exact .of (k := .param) Param.constant (fun v r => { r with constant := v }) (fun _ => rfl)
      fun h _ _ _ => h.constant _
  | propertySig =>
    exact .of (k := .property) Property.sig (fun v r => { r with sig := v }) (fun _ => rfl)
      fun h _ _ rid => h.signatureOf _ _ _ rid
  | propertyAccessors =>
    exact .of (k := .property) Property.accessors (fun v r => { r with accessors := v })
      (fun _ => rfl) fun h _ _ _ => (h.accessorsOf _).put_into _
  | propertyConstant =>
    exact .of (k := .property) Property.constant (fun v r => { r with constant := v })
      (fun _ => rfl) fun h _ _ _ => h.constant _
  | eventType =>
    exact .of (k := .event) Event.eventType (fun v r => { r with eventType := v }) (fun _ => rfl)
      fun h _ _ _ => Keeps.found fun _ => h.typeDefOrRef _
  | eventAccessors =>
    exact .of (k := .event) Event.accessors (fun v r => { r with accessors := v }) (fun _ => rfl)
      fun h _ _ _ => (h.accessorsOf _).put_into _
  | memberParent =>
    exact .of (k := .memberRef) MemberRef.parent (fun v r => { r with parent := v }) (fun _ => rfl)
      fun h _ _ _ => Keeps.found fun _ => h.memberParent _
  | memberSig =>
    exact .of (k := .memberRef) MemberRef.sig (fun v r => { r with sig := v }) (fun _ => rfl)
      fun h _ _ rid => h.signatureOf _ _ _ rid
  | genericMethod =>
    exact .of (k := .methodSpec) MethodSpec.method (fun v r => { r with method := v })
      (fun _ => rfl) fun h _ _ _ => Keeps.found fun _ => h.methodOf _ _
  | args =>
    exact .of (k := .methodSpec) MethodSpec.args (fun v r => { r with args := v }) (fun _ => rfl)
      fun h _ _ rid => h.signatureOf _ _ _ rid
  | constraints =>
    refine .of (k := .genericParam) GenericParam.constraints (fun v r => { r with constraints := v })
      (fun _ => rfl) fun h _ _ _ => ?_
    refine (h.children _ _).bind fun places => keeps_collect (fun place => ?_) places
    refine Keeps.found fun row => ?_
    refine (h.typeDefOrRef _).bind fun _ => (h.attributes _).bind fun carried => ?_
    exact (h.makeUnread .constraint (by decide) _).bind fun id =>
      (h.carried id.node carried).bind fun _ => Keeps.pure _
  | exportedFrom =>
    exact .of (k := .exportedType) ExportedType.implementation
      (fun v r => { r with implementation := v }) (fun _ => rfl)
      fun h _ _ _ => Keeps.found fun _ => h.implementation _
  | resourceKept =>
    exact .of (k := .resource) Resource.implementation (fun v r => { r with implementation := v })
      (fun _ => rfl) fun h _ _ _ => Keeps.found fun _ => h.implementation _
  | resourceData =>
    exact .of (k := .resource) Resource.data (fun v r => { r with data := v }) (fun _ => rfl)
      fun _ _ _ _ => Keeps.get.bind fun _ => Keeps.pure _

end OwnSlot

/-! ## Reading on demand -/

section Demands

variable {S : Graph → Node → Prop} {R : Graph → Graph → Prop} [IsPreorder Graph R] {g : Graph}

/-- Reading a slot is allowed of the entities of which `S` holds. -/
theorem Graph.Steps.ownSlot (h : Steps S R) (p : OwnSlot) {c : Key} (hS : S g ⟨p.kind, c⟩) :
    R g ((p.read c).run g).2 := by
  obtain ⟨k, ρ, α, _, _, get, set, absent, compute, hp⟩ := p.lazily
  obtain rfl := hp.kind
  rw [hp.read ⟨c⟩]
  exact h.slot hp.toIs (fun l rid => hp.keeps h ⟨c⟩ l rid) hS

/-- **Every demand keeps a relation that allows the steps of reading.** -/
theorem Graph.Steps.read (h : Steps S R) (d : Demand) (hS : S g d.node) :
    R g (d.read.run g).2 := by
  cases d with
  | own p c => exact h.ownSlot p hS
  | attributes n => exact h.customAttributes n g
  | securities n => exact h.declSecurities n g
  | owner e c => exact h.owner e c g
  | items e o => exact h.items e o g

/-- Whether a slot has been filled is told by looking into it. -/
theorem OwnSlot.Is.peek {p : OwnSlot} {k : Kind} {ρ α : Type} [Recorded k ρ] [Recorded.Lawful k]
    {get : ρ → Slot α} {set : Slot α → ρ → ρ} (hp : p.Is k get set) (g : Graph) (id : Id k) :
    p.isFilled (g.entity id.node) = ((Graph.slot id get set).peek g).isSome := by
  rw [Recorded.Lawful.entity_node (ρ := ρ), hp.isFilled]
  rfl

namespace Demand

/-- **What has been read is not read again.** -/
theorem read_held {d : Demand} (h : d.held g) : (d.read.run g).2 = g := by
  have left : ∀ {α : Type} (slot : SlotIn Graph α) {compute : GraphM α}, (slot.peek g).isSome →
      ((slot.getRelaxed compute).run g).2 = g := by
    intro α slot compute hheld
    obtain ⟨v, hv⟩ := Option.isSome_iff_exists.mp hheld
    rw [getRelaxed_held hv]
  cases d with
  | own p c =>
    obtain ⟨k, ρ, α, _, _, get, set, absent, compute, hp⟩ := p.lazily
    obtain rfl := hp.kind
    let id : Id p.kind := ⟨c⟩
    show ((p.read id.key).run g).2 = g
    rw [hp.read id]
    exact left _ ((hp.peek g id).symm.trans h)
  | attributes n => exact left (attributeSlot n) h
  | securities n => exact left (securitySlot n) h
  | owner e c => exact left (ownerSlot e c) h
  | items e o => exact left (listSlot e o) h

/-- **Once a property has been read, it is held.** -/
theorem held_read (d : Demand) (g : Graph) : d.held (d.read.run g).2 := by
  have recorded : ∀ {α : Type} (slot : SlotIn Graph α) {compute : GraphM α},
      (∀ v g', slot.peek (slot.publish v g') = some v) →
        (slot.peek ((slot.getRelaxed compute).run g).2).isSome := fun _ _ hslot =>
    Option.isSome_iff_exists.mpr ⟨_, getRelaxed_read hslot⟩
  cases d with
  | own p c =>
    obtain ⟨k, ρ, α, _, _, get, set, absent, compute, hp⟩ := p.lazily
    obtain rfl := hp.kind
    let id : Id p.kind := ⟨c⟩
    show p.isFilled (((p.read id.key).run g).2.entity id.node)
    rw [hp.read id, hp.peek]
    exact recorded _ fun v g' => (congrArg get (get_put (g := g') id _)).trans (hp.get_set _ _)
  | attributes n => exact recorded (attributeSlot n) fun _ _ => Index.get?_set_same _ _ _
  | securities n => exact recorded (securitySlot n) fun _ _ => Index.get?_set_same _ _ _
  | owner e c => exact recorded (ownerSlot e c) fun _ _ => Index.get?_set_same _ _ _
  | items e o => exact recorded (listSlot e o) fun _ _ => Index.get?_set_same _ _ _

end Demand
end Demands

/-! ## Rows by number -/

/-- **The accessors of the rows of a module**, each for the rows of a kind. -/
inductive RowAccessor : Kind → Type where
  | typeDef : RowAccessor .typeDef
  | typeRef : RowAccessor .typeRef
  | typeSpec : RowAccessor .typeSpec
  | field : RowAccessor .field
  | methodDef : RowAccessor .methodDef
  | param : RowAccessor .param
  | memberRef : RowAccessor .memberRef
  | event : RowAccessor .event
  | property : RowAccessor .property
  | moduleRef : RowAccessor .moduleRef
  | assemblyRef : RowAccessor .assemblyRef
  | file : RowAccessor .file
  | exportedType : RowAccessor .exportedType
  | resource : RowAccessor .resource
  | genericParam : RowAccessor .genericParam
  | methodSpec : RowAccessor .methodSpec

namespace RowAccessor

/-- The entity of a row of a module. -/
def read {k : Kind} (m : ModuleId) : RowAccessor k → (rid : Nat) → GraphM (Except Error (Id k))
  | typeDef => m.typeDef
  | typeRef => m.typeRef
  | typeSpec => m.typeSpec
  | field => m.field
  | methodDef => m.methodDef
  | param => m.param
  | memberRef => m.memberRef
  | event => m.event
  | property => m.property
  | moduleRef => m.moduleRef
  | assemblyRef => m.assemblyRef
  | file => m.file
  | exportedType => m.exportedType
  | resource => m.resource
  | genericParam => m.genericParam
  | methodSpec => m.methodSpec

/-- **How the rows of a kind are found**: by a computation that is told by the stores and by which rows
are there, and that takes steps of reading.  What is made of a row goes by its number, and by its
token where it keeps one. -/
structure Finds {k : Kind} (a : RowAccessor k) {ρ : Type} [Recorded k ρ]
    (find : (loader rid : Nat) → GraphM (Option (Id k))) : Prop where
  read : ∀ m, a.read m = m.row find
  value : ∀ g l p, FromStores g (find l p)
    (if g.present ⟨k, .row l p⟩ then some ⟨.row l p⟩ else none)
  keeps : ∀ {S : Graph → Node → Prop} {R : Graph → Graph → Prop} [IsPreorder Graph R], Steps S R →
    ∀ l p, Keeps R (find l p)
  rid : ∀ (s : Store) (l p : Nat), (Recorded.ofRow? k s l p).map (fun r => (Recorded.pack k r).rid) =
    (s.row? k.table p).map fun row => row.head.rid
  token : (∀ (s : Store) (l p : Nat),
      (Recorded.ofRow? k s l p).map (fun r => (Recorded.pack k r).fixedToken?) =
        (s.row? k.table p).map fun _ => none) ∨
    ∀ (s : Store) (l p : Nat),
      (Recorded.ofRow? k s l p).map (fun r => (Recorded.pack k r).fixedToken?) =
        (s.row? k.table p).map fun row => some row.head.token

variable {k : Kind}

theorem found (a : RowAccessor k) : ∃ (ρ : Type) (_ : Recorded k ρ) (_ : Recorded.Rowed k)
    (find : (loader rid : Nat) → GraphM (Option (Id k))), a.Finds find := by
  cases a with
  | typeDef | typeRef | typeSpec | field | methodDef | param | memberRef | event | property
  | exportedType | resource | genericParam | methodSpec =>
    exact ⟨_, inferInstance, inferInstance, shared _, fun _ => rfl, fun _ => fromStores_shared,
      fun h _ => h.shared _, fun _ _ _ => Store.nth_made fun _ => rfl,
      .inl fun _ _ _ => Store.nth_made fun _ => rfl⟩
  | moduleRef =>
    exact ⟨_, inferInstance, inferInstance, Loading.moduleRef, fun _ => rfl,
      fun _ => fromStores_sharedWithAttributes (by decide) _, fun h _ => h.moduleRef,
      fun _ _ _ => Store.nth_made fun _ => rfl, .inr fun _ _ _ => Store.nth_made fun _ => rfl⟩
  | assemblyRef =>
    exact ⟨_, inferInstance, inferInstance, Loading.assemblyRef, fun _ => rfl,
      fun _ => fromStores_sharedWithAttributes (by decide) _, fun h _ => h.assemblyRef,
      fun _ _ _ => Store.nth_made fun _ => rfl, .inr fun _ _ _ => Store.nth_made fun _ => rfl⟩
  | file =>
    exact ⟨_, inferInstance, inferInstance, Loading.file, fun _ => rfl,
      fun _ => fromStores_sharedWithAttributes (by decide) _, fun h _ => h.file,
      fun _ _ _ => Store.nth_made fun _ => rfl, .inr fun _ _ _ => Store.nth_made fun _ => rfl⟩

end RowAccessor

namespace Store

/-- The graph of a store that has just been opened, as a module or as an assembly. -/
inductive Opened (s : Store) (policy : InitPolicy) : Graph → Prop
  | module (hm : s.moduleRow?.isSome) : Opened s policy ((openModule s policy).run .empty).2
  | assembly (hm : s.moduleRow?.isSome) (ha : s.assemblyRow?.isSome) :
    Opened s policy ((openAssembly s policy).run .empty).2

/-- **The graph of a store that has been opened, after any reading** of what is read on demand of what
there is, and of rows by their numbers. -/
inductive Visited (s : Store) (policy : InitPolicy) : Graph → Prop
  | opened {g : Graph} (h : s.Opened policy g) : Visited s policy g
  | demand {g : Graph} (h : Visited s policy g) (d : Demand)
      (hd : d.node.key.IsRow → g.present d.node) : Visited s policy (d.read.run g).2
  | row {g : Graph} (h : Visited s policy g) {k : Kind} (a : RowAccessor k) (m : ModuleId)
      (rid : Nat) : Visited s policy ((a.read m rid).run g).2

variable {s : Store} {policy : InitPolicy} {g : Graph}

/-- No entity has been made of a row then. -/
theorem Opened.unmade (h : s.Opened policy g) : g.Unmade s policy := by
  cases h with
  | module hm => exact .openModule hm
  | assembly hm ha => exact .openAssembly hm ha

/-- **Any reading keeps a relation that allows the steps of reading.** -/
theorem Visited.keeps {S : Graph → Node → Prop} {R : Graph → Graph → Prop} [IsPreorder Graph R]
    (h : Steps S R) (hS : ∀ {g n}, (n.key.IsRow → g.present n) → S g n) (hg : s.Visited policy g) :
    ∃ g₀, s.Opened policy g₀ ∧ R g₀ g := by
  induction hg with
  | opened hg => exact ⟨_, hg, refl_of R _⟩
  | demand _ d hd ih =>
    obtain ⟨g₀, hg₀, hkept⟩ := ih
    exact ⟨g₀, hg₀, trans_of R hkept (h.read d (hS hd))⟩
  | row _ a m rid ih =>
    obtain ⟨g₀, hg₀, hkept⟩ := ih
    obtain ⟨ρ, _, _, find, hfind⟩ := a.found
    rw [hfind.read]
    exact ⟨g₀, hg₀, trans_of R hkept (m.keeps_row (hfind.keeps h) rid _)⟩

end Store

end CliMetadata
