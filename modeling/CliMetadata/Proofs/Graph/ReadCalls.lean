import CliMetadata.Catalogue.Lists
import CliMetadata.Proofs.Graph.Asking
import CliMetadata.Proofs.Resolution.Steps

/-!
# Calls that only read

A `ReadCall` asks for a property of an entity by name, a list, a back-reference or the entity of a
row, searches a module, an assembly or a type, compares, looks for generic parameters, writes a type
out or resolves a reference, by any source of assemblies.  Whatever is asked and of whatever entity,
**a call that only reads leads from a graph to one that has been read** (`ReadCall.run_peruses`), and
so does any sequence of them (`Graph.after_peruses`).
-/

namespace CliMetadata

open CliMetadata.Graph Loading Stateful

/-- What is looked up in a list of pairs is one of them. -/
theorem mem_of_lookup {α β : Type} [BEq α] [LawfulBEq α] {entries : List (α × β)} {a : α} {b : β}
    (h : entries.lookup a = some b) : (a, b) ∈ entries := by
  obtain ⟨before, after, hsplit, -⟩ := List.lookup_eq_some_iff.mp h
  rw [hsplit]
  exact List.mem_append_right before List.mem_cons_self

/-! ## Properties by name -/

namespace Properties

variable {k : Kind} {ρ α β : Type} [Recorded k ρ] [ToValue α]

/-- Properties that only read. -/
def Peruse (p : Properties) : Prop := ∀ q ∈ p.main ++ p.more, Keeps Peruses q.2

@[simp] theorem shown_peruses {x : GraphM α} (h : Keeps Peruses x) : Keeps Peruses (shown x) := h.map

@[simp] theorem shown_map_peruses {x : GraphM β} (h : Keeps Peruses x) (f : β → α) :
    Keeps Peruses (shown (f <$> x)) := h.map.map

@[simp] theorem written_peruses {x : GraphM (Option String)} (h : Keeps Peruses x) :
    Keeps Peruses (written x) := h.map

@[simp] theorem seen_peruses (f : Graph → α) : Keeps Peruses (seen f) :=
  Keeps.get.bind fun _ => Keeps.pure _

@[simp] theorem own_peruses (id : Id k) (f : ρ → α) : Keeps Peruses (own id f) := seen_peruses _

@[simp] theorem seen_of_peruses {x : GraphM β} (h : Keeps Peruses x) (f : β → Graph → α) :
    Keeps Peruses (do let b ← x; seen (f b)) := h.bind fun _ => seen_peruses _

@[simp] theorem attributes_peruses (n : Node) : Keeps Peruses (attributes n).2 :=
  shown_peruses (customAttributes_peruses n)

/-- The full name of a member is read off its name and that of its type. -/
@[simp] theorem fullNameOf_peruses (e : Edge) (id : Id k) (name : ρ → Name) :
    Keeps Peruses (do memberFullName e id.key (name ((← get).get id)) : GraphM String) :=
  Keeps.get.bind fun _ => memberFullName_peruses _ _ _

theorem module_peruse (m : ModuleId) : (module m).Peruse := by
    simp [Peruse, module, head, rid, token, m.assembly_peruses, m.isManifest_peruses,
    m.types_peruses, m.globalType_peruses, m.exportedTypes_peruses, m.resources_peruses,
    m.allTypes_peruses]

theorem assembly_peruse (a : AssemblyId) : (assembly a).Peruse := by
    simp [Peruse, assembly, head, rid, token, securities, hasSecurities, declSecurities_peruses,
    a.modules_peruses, AssemblyId.manifestModule]

theorem typeDef_peruse (t : TypeDefId) : (typeDef t).Peruse := by
    simp [Peruse, typeDef, head, rid, token, securities, hasSecurities, declSecurities_peruses,
    t.fullName_peruses, t.base_peruses, t.ownerModule_peruses, t.module_peruses,
    t.declaringType_peruses, TypeDefId.isNested, t.isGlobal_peruses, TypeDefId.fields,
    TypeDefId.methods, TypeDefId.properties, TypeDefId.events, TypeDefId.nestedTypes,
    TypeDefId.genericParams, t.children_peruses]

theorem typeRef_peruse (r : TypeRefId) : (typeRef r).Peruse := by
    simp [Peruse, typeRef, head, rid, token, r.fullName_peruses, r.module_peruses,
    r.scope_peruses, r.declaringType_peruses, TypeRefId.isNested, r.nonNested_peruses,
    r.nestingChain_peruses, Keeps.bind, Keeps.pure, Option.forall,
    ResolutionScope.inspect_peruses]

theorem typeSpec_peruse (s : TypeSpecId) : (typeSpec s).Peruse := by
    simp [Peruse, typeSpec, head, rid, token, s.sig_peruses, s.scopeType_peruses,
    s.fullName_peruses]

theorem field_peruse (f : FieldId) : (field f).Peruse := by
    simp [Peruse, field, head, rid, token, FieldId.fullName, FieldId.declaringType,
    declaringTypeOf_peruses, f.sig_peruses, f.constant_peruses]

theorem methodDef_peruse (m : MethodDefId) : (methodDef m).Peruse := by
    simp [Peruse, methodDef, head, rid, token, securities, hasSecurities, declSecurities_peruses,
    MethodDefId.fullName, MethodDefId.declaringType, declaringTypeOf_peruses, m.sig_peruses,
    m.body_peruses, m.implMap_peruses, m.semantics_peruses, MethodDefId.isGetter,
    MethodDefId.isSetter, MethodDefId.params, MethodDefId.genericParams, items_peruses,
    m.overrides_peruses, m.debugInfos_peruses]

theorem param_peruse (p : ParamId) : (param p).Peruse := by
    simp [Peruse, param, head, rid, token, ParamId.declaringMethod, owner_peruses,
    p.constant_peruses]

theorem property_peruse (p : PropertyId) : (property p).Peruse := by
    simp [Peruse, property, head, rid, token, p.sig_peruses, PropertyId.declaringType,
    declaringTypeOf_peruses, p.accessors_peruses, p.constant_peruses]

theorem event_peruse (e : EventId) : (event e).Peruse := by
    simp [Peruse, event, head, rid, token, e.eventType_peruses, EventId.declaringType,
    declaringTypeOf_peruses, e.accessors_peruses]

theorem memberRef_peruse (m : MemberRefId) : (memberRef m).Peruse := by
    simp [Peruse, memberRef, head, rid, token, m.fullName_peruses, m.module_peruses,
    m.parent_peruses, m.sig_peruses]

theorem methodSpec_peruse (s : MethodSpecId) : (methodSpec s).Peruse := by
    simp [Peruse, methodSpec, head, rid, token, s.method_peruses, s.args_peruses]

theorem genericParam_peruse (p : GenericParamId) : (genericParam p).Peruse := by
    simp [Peruse, genericParam, head, rid, token, GenericParamId.owner, owner_peruses,
    p.constraints_peruses]

theorem constraint_peruse (c : ConstraintId) : (constraint c).Peruse := by
    simp [Peruse, constraint, rid, token]

theorem assemblyRef_peruse (r : AssemblyRefId) : (assemblyRef r).Peruse := by
    simp [Peruse, assemblyRef, rid, token]

theorem moduleRef_peruse (r : ModuleRefId) : (moduleRef r).Peruse := by
    simp [Peruse, moduleRef, rid, token]

theorem file_peruse (f : FileId) : (file f).Peruse := by
    simp [Peruse, file, rid, token]

theorem exportedType_peruse (e : ExportedTypeId) : (exportedType e).Peruse := by
    simp [Peruse, exportedType, head, rid, token, e.module_peruses, e.fullName_peruses,
    e.implementation_peruses, e.declaringType_peruses, ExportedTypeId.isNested,
    e.definitionAssembly_peruses]

theorem resource_peruse (r : ResourceId) : (resource r).Peruse := by
    simp [Peruse, resource, head, rid, token, r.implementation_peruses, r.assembly_peruses,
    r.file_peruses, r.fileName_peruses, r.data_peruses]

theorem customAttribute_peruse (a : CustomAttributeId) : (customAttribute a).Peruse := by
    simp [Peruse, customAttribute, rid, token]

theorem constant_peruse (c : ConstantId) : (constant c).Peruse := by
    simp [Peruse, constant, rid, token]

theorem implMap_peruse (i : ImplMapId) : (implMap i).Peruse := by
    simp [Peruse, implMap, rid, token]

theorem security_peruse (s : SecurityId) : (security s).Peruse := by
    simp [Peruse, security, rid, token]

/-- **Every property of every entity only reads.** -/
theorem ofNode_peruse (n : Node) : (ofNode n).Peruse := by
  obtain ⟨kind, key⟩ := n
  cases kind with
  | module => exact module_peruse _
  | assembly => exact assembly_peruse _
  | typeDef => exact typeDef_peruse _
  | typeRef => exact typeRef_peruse _
  | typeSpec => exact typeSpec_peruse _
  | field => exact field_peruse _
  | methodDef => exact methodDef_peruse _
  | param => exact param_peruse _
  | property => exact property_peruse _
  | event => exact event_peruse _
  | memberRef => exact memberRef_peruse _
  | methodSpec => exact methodSpec_peruse _
  | genericParam => exact genericParam_peruse _
  | constraint => exact constraint_peruse _
  | assemblyRef => exact assemblyRef_peruse _
  | moduleRef => exact moduleRef_peruse _
  | file => exact file_peruse _
  | exportedType => exact exportedType_peruse _
  | resource => exact resource_peruse _
  | customAttribute => exact customAttribute_peruse _
  | constant => exact constant_peruse _
  | implMap => exact implMap_peruse _
  | security => exact security_peruse _

theorem find?_peruses {n : Node} {name : String} {x : GraphM Value}
    (h : (ofNode n).find? name = some x) : Keeps Peruses x := ofNode_peruse n _ (mem_of_lookup h)

end Properties

/-! ## Rows and searches -/

/-- The entity of a row is found or made. -/
theorem ModuleId.keeps_row {R : Graph → Graph → Prop} [IsPreorder Graph R] {k : Kind}
    {read : (loader rid : Nat) → GraphM (Option (Id k))} (h : ∀ l rid, Keeps R (read l rid))
    (m : ModuleId) (rid : Nat) : Keeps R (m.row read rid) := by
  obtain ⟨key⟩ := m
  cases key with
  | row _ _ => exact (Keeps.pure _).bind fun _ => Keeps.pure _
  | built number =>
    refine Keeps.get.bind fun g => ?_
    split
    · exact (h number rid).put_into _
    · exact Keeps.pure _

namespace LookUp

theorem rowOf_peruses {k : Kind} {read : (loader rid : Nat) → GraphM (Option (Id k))}
    (h : ∀ l rid, Keeps Peruses (read l rid)) (m : ModuleId) (rid : Nat) :
    Keeps Peruses (rowOf (m.row read) rid) :=
  (m.keeps_row h rid).put_into _

/-- Every row of a module is found or made. -/
theorem rows_peruses (m : ModuleId) : ∀ entry ∈ rows m, ∀ rid, Keeps Peruses (entry.2 rid) := by
  have shared : ∀ {k : Kind} {ρ : Type} [Recorded k ρ] [Recorded.Lawful k], k ≠ .module →
      ∀ rid, Keeps Peruses (rowOf (m.row (Loading.shared k)) rid) :=
    fun hk => rowOf_peruses (shared_peruses hk) m
  simp only [rows, List.forall_mem_cons]
  refine ⟨shared (by decide), shared (by decide), shared (by decide), shared (by decide),
    shared (by decide), shared (by decide), shared (by decide), shared (by decide),
    shared (by decide), rowOf_peruses (fun _ => moduleRef_peruses) m,
    rowOf_peruses (fun _ => assemblyRef_peruses) m, rowOf_peruses (fun _ => file_peruses) m,
    shared (by decide), shared (by decide), shared (by decide), shared (by decide), ?_⟩
  simp

theorem row_peruses {m : ModuleId} {table : TableId} {read : Nat → Operation}
    (h : (rows m).lookup table = some read) (rid : Nat) : Keeps Peruses (read rid) :=
  rows_peruses m _ (mem_of_lookup h) rid

end LookUp

/-- A search through what a list holds. -/
theorem keeps_searched {α β : Type} {x : GraphM α} (h : Keeps Peruses x) (f : α → Graph → β) :
    Keeps Peruses (do
      let held ← x
      let g ← get
      return f held g) :=
  h.bind fun _ => Keeps.get.bind fun _ => Keeps.pure _

/-! ## Resolving -/

/-- A state that has a graph in it. -/
class Viewed (σ : Type) where
  graph : σ → Graph

export Viewed (graph)

instance : Viewed Graph := ⟨fun g => g⟩

instance : Viewed Resolving := ⟨Resolving.graph⟩

/-- A state after some reading of its graph. -/
def Viewed.Peruses {σ : Type} [Viewed σ] (s s' : σ) : Prop := (graph s).Peruses (graph s')

instance {σ : Type} [Viewed σ] : IsPreorder σ Viewed.Peruses where
  refl s := refl_of Graph.Peruses (graph s)
  trans _ _ _ h k := trans_of Graph.Peruses h k

theorem Keeps.inGraph {α : Type} {x : GraphM α} (h : Keeps Peruses x) :
    Keeps Viewed.Peruses (inGraph x) := fun s => h s.graph

namespace Resolver

/-- The resolver over a source with the usual projection, where references are projected. -/
def usual (source : AssemblySource) (config : ResolverConfig) : Resolver :=
  ⟨source, if config.project then some .windowsRuntime else none, config⟩

theorem build_usual (source : AssemblySource) (config : ResolverConfig) :
    Resolver.build (some source) none config = .ok (usual source config) := rfl

/-- **A resolver whose projection, if it has one, only reads.** -/
structure Peruse (r : Resolver) : Prop where
  typeRef : ∀ p, r.projection = some p → ∀ ref, Keeps Peruses (p.typeRef ref)
  memberRef : ∀ p, r.projection = some p → ∀ ref, Keeps Peruses (p.memberRef ref)

theorem usual_peruse (source : AssemblySource) (config : ResolverConfig) :
    (usual source config).Peruse := by
  have hprojection : ∀ p, (usual source config).projection = some p → p = .windowsRuntime :=
    fun p hp => (Option.some.inj (Option.ite_none_right_eq_some.mp hp).2).symm
  refine ⟨fun p hp ref => ?_, fun p hp ref => ?_⟩
  · cases hprojection p hp
    exact Projection.typeRef_peruses ref
  · cases hprojection p hp
    exact Projection.memberRef_peruses ref

theorem resolveAssembly_peruses (r : Resolver) (identity : AssemblyIdentity)
    (asking : Option ModuleId) : Keeps Viewed.Peruses (r.resolveAssembly identity asking) :=
  fun s => refl_of Graph.Peruses s.graph

namespace Peruse

variable {r : Resolver} (hr : r.Peruse)

include hr

theorem projectType (ref : TypeRefId) : Keeps Viewed.Peruses (r.projectType ref) := by
  unfold Resolver.projectType
  cases h : r.projection with
  | none => exact Keeps.pure _
  | some p => exact (hr.typeRef p h ref).inGraph.bind fun _ => Keeps.pure _

theorem projectMember (ref : MemberRefId) : Keeps Viewed.Peruses (r.projectMember ref) := by
  unfold Resolver.projectMember
  cases h : r.projection with
  | none => exact Keeps.pure _
  | some p => exact (hr.memberRef p h ref).inGraph.bind fun _ => Keeps.pure _

end Peruse

theorem findForwarder_peruses (ms : List ModuleId) (ref : TypeRefId) :
    Keeps Peruses (findForwarder ms ref) :=
  Keeps.sequential.firstOf (fun m => m.findExported_peruses ref) ms

variable (r : Resolver) (ref : TypeRefId) (asking : Option ModuleId)

theorem followForwarders_peruses : ∀ (hops : Nat) (ms : List ModuleId),
    Keeps Viewed.Peruses (r.followForwarders ref asking hops ms)
  | 0, _ => Keeps.pure _
  | n + 1, ms => by
    refine (findForwarder_peruses ms ref).inGraph.bind fun exported => ?_
    cases exported with
    | none => exact Keeps.pure _
    | some exported =>
      refine exported.definitionAssembly_peruses.inGraph.bind fun definition => ?_
      cases definition with
      | none => exact Keeps.pure _
      | some definition =>
        refine Keeps.get.bind fun s => (resolveAssembly_peruses r _ _).bind fun a => ?_
        cases a with
        | none => exact Keeps.pure _
        | some a =>
          refine (searches_peruses.findIn a ref).inGraph.bind fun found => ?_
          cases found with
          | some _ => exact Keeps.pure _
          | none => exact a.modules_peruses.inGraph.bind (followForwarders_peruses n)

theorem findInModule_peruses (m : ModuleId) :
    Keeps Viewed.Peruses (r.findInModule ref asking m) := by
  refine (searches_peruses.find m ref).inGraph.bind fun found => ?_
  cases found with
  | some _ => exact Keeps.pure _
  | none => exact r.followForwarders_peruses ref asking _ _

theorem findInAssembly_peruses (a : AssemblyId) :
    Keeps Viewed.Peruses (r.findInAssembly ref asking a) := by
  refine (searches_peruses.findIn a ref).inGraph.bind fun found => ?_
  cases found with
  | some _ => exact Keeps.pure _
  | none => exact a.modules_peruses.inGraph.bind (r.followForwarders_peruses ref asking _)

theorem findModule_peruses (a : AssemblyId) (name : String) : Keeps Peruses (a.findModule name) :=
  keeps_searched a.modules_peruses _

theorem referencedModule_peruses (mr : ModuleRefId) (m : ModuleId) :
    Keeps Peruses (referencedModule mr m) := by
  refine Keeps.get.bind fun g => Keeps.ite (Keeps.pure _) (m.assembly_peruses.bind fun a => ?_)
  cases a with
  | none => exact Keeps.pure _
  | some a => exact findModule_peruses a _

theorem lookIn_peruses (outermost : TypeRefId) (v : Option ResolutionScope) :
    Keeps Viewed.Peruses (r.lookIn ref asking outermost v) := by
  rcases v with _ | (m | mr | a | enclosing)
  · exact Keeps.pure _
  · refine Keeps.get.bind fun s => ?_
    cases s.graph.upgrade m with
    | none => exact Keeps.pure _
    | some m => exact findInModule_peruses r ref asking m
  · refine outermost.module_peruses.inGraph.bind fun current => ?_
    cases current with
    | none => exact Keeps.pure _
    | some current =>
      refine (referencedModule_peruses mr current).inGraph.bind fun m => ?_
      cases m with
      | none => exact Keeps.pure _
      | some m => exact findInModule_peruses r ref asking m
  · refine Keeps.get.bind fun s => (resolveAssembly_peruses r _ _).bind fun a => ?_
    cases a with
    | none => exact Keeps.pure _
    | some a => exact findInAssembly_peruses r ref asking a
  · exact Keeps.pure _

theorem lookUp_peruses : Keeps Viewed.Peruses (r.lookUp ref asking) := by
  refine ref.module_peruses.inGraph.bind fun own => ?_
  refine ref.nonNested_peruses.inGraph.bind fun outermost => ?_
  cases outermost with
  | none => exact Keeps.pure _
  | some outermost =>
    exact outermost.scope_peruses.inGraph.bind (lookIn_peruses r ref _ outermost)

namespace Peruse

variable {r : Resolver} (hr : r.Peruse) (asking : Option ModuleId)

include hr

/-- **Resolving a type reads.** -/
theorem resolveType (ref : TypeRefId) : Keeps Viewed.Peruses (r.resolveType ref asking) := by
  rw [resolveType_eq]
  exact (hr.projectType ref).bind fun ref => lookUp_peruses _ ref asking

theorem resolveTypeDefOrRef (t : TypeDefOrRef) :
    Keeps Viewed.Peruses (r.resolveTypeDefOrRef t asking) := by
  cases t with
  | typeDef t => exact Keeps.pure _
  | typeRef ref => exact hr.resolveType asking ref
  | typeSpec s =>
    refine s.scopeType_peruses.inGraph.bind fun t => ?_
    rcases t with _ | (_ | ref | _)
    · exact Keeps.pure _
    · exact Keeps.pure _
    · exact hr.resolveType asking ref
    · exact Keeps.pure _

theorem findMember (name : String) (sig : Signature TypeDefOrRef) : ∀ (bound : Nat)
    (t : TypeDefId), Keeps Viewed.Peruses (r.findMember name sig bound t)
  | 0, _ => Keeps.pure _
  | n + 1, t => by
    refine Keeps.ite (Keeps.pure _) ((t.ownMember_peruses name sig).inGraph.bind fun found => ?_)
    cases found with
    | some _ => exact Keeps.pure _
    | none =>
      refine t.base_peruses.inGraph.bind fun base => ?_
      cases base with
      | none => exact Keeps.pure _
      | some base =>
        refine t.module_peruses.inGraph.bind fun m => ?_
        refine (hr.resolveTypeDefOrRef m base).bind fun t' => ?_
        cases t' with
        | none => exact Keeps.pure _
        | some t' => exact findMember name sig n t'

theorem resolveParent (p : MemberParent) : Keeps Viewed.Peruses (r.resolveParent asking p) := by
  cases p with
  | typeDef _ | methodDef _ => exact Keeps.pure _
  | typeRef ref => exact hr.resolveType asking ref
  | typeSpec s => exact hr.resolveTypeDefOrRef asking (.typeSpec s)
  | moduleRef mr =>
    cases asking with
    | none => exact Keeps.pure _
    | some current =>
      refine Keeps.bind (Keeps.inGraph ?_) fun own => ?_
      · exact Keeps.get.bind fun _ => Keeps.ite current.globalType_peruses (Keeps.pure _)
      · cases own with
        | some _ => exact Keeps.pure _
        | none =>
          refine Keeps.inGraph (current.assembly_peruses.bind fun a => ?_)
          cases a with
          | none => exact Keeps.pure _
          | some a =>
            refine Keeps.get.bind fun g => (findModule_peruses a _).bind fun m => ?_
            cases m with
            | none => exact Keeps.pure _
            | some m => exact m.globalType_peruses

theorem memberIn (member : MemberRefId) (p : MemberParent) :
    Keeps Viewed.Peruses (r.memberIn member p) := by
  refine member.module_peruses.inGraph.bind fun asking => ?_
  refine (hr.resolveParent asking p).bind fun t => ?_
  cases t with
  | none => exact Keeps.pure _
  | some t =>
    refine member.sig_peruses.inGraph.bind fun sig => ?_
    cases sig with
    | none => exact Keeps.pure _
    | some sig => exact Keeps.get.bind fun _ => hr.findMember _ sig _ t

theorem memberOf (member : MemberRefId) (p : MemberParent) :
    Keeps Viewed.Peruses (r.memberOf member p) := by
  cases p with
  | methodDef _ => exact Keeps.pure _
  | typeDef _ | typeRef _ | typeSpec _ | moduleRef _ => exact hr.memberIn member _

/-- **Resolving a member reads.** -/
theorem resolveMember (member : MemberRefId) : Keeps Viewed.Peruses (r.resolveMember member) := by
  rw [resolveMember_split]
  refine (hr.projectMember member).bind fun member => member.parent_peruses.inGraph.bind fun p => ?_
  cases p with
  | none => exact Keeps.pure _
  | some p => exact hr.memberOf member p

end Peruse
end Resolver

/-! ## Calls -/

/-- **A call that only reads**, with what it is asked about. -/
inductive ReadCall where
  | property (n : Node) (name : String)
  | items (e : Edge) (container : Node)
  | owner (e : Edge) (child : Key)
  | row (m : ModuleId) (table : TableId) (rid : Nat)
  | find (m : ModuleId) (r : TypeRefId)
  | findByName (m : ModuleId) (space name : String)
  | findExported (m : ModuleId) (r : TypeRefId)
  | findResource (m : ModuleId) (name : String)
  | findIn (a : AssemblyId) (r : TypeRefId)
  | findModule (a : AssemblyId) (name : String)
  | findMethod (t : TypeDefId) (name : String) (sig : Option (MethodSig TypeDefOrRef))
  | findField (t : TypeDefId) (name : String) (sig : Option Sig)
  | findProperty (t : TypeDefId) (name : String)
  | findEvent (t : TypeDefId) (name : String)
  | findNested (t : TypeDefId) (name : String)
  | findMember (t : TypeDefId) (name : String) (sig : Signature TypeDefOrRef)
  | equalTypes (o : CompareOptions) (a b : TypeDefOrRef)
  | equalSigs (o : CompareOptions) (a b : Sig)
  | equalMethodSigs (o : CompareOptions) (a b : MethodSig TypeDefOrRef)
  | equalPropertySigs (o : CompareOptions) (a b : PropertySig TypeDefOrRef)
  | answers (e : ExportedTypeId) (r : TypeRefId)
  | mentions (depth : Nat) (sig : Signature TypeDefOrRef)
  | typeMentions (depth : Nat) (t : Sig)
  | referenceMentions (depth : Nat) (r : TypeDefOrRef)
  | memberMentions (depth : Nat) (m : MemberRefId)
  | constraintMentions (depth : Nat) (c : ConstraintId)
  | display (t : Sig)
  /-- Resolving, by any source of assemblies and after any requests. -/
  | resolveType (source : AssemblySource) (config : ResolverConfig)
      (requests : List AssemblyRequest) (t : TypeDefOrRef) (asking : Option ModuleId)
  | resolveMember (source : AssemblySource) (config : ResolverConfig)
      (requests : List AssemblyRequest) (m : MemberRefId)

/-- Runs a computation for what it does to the graph. -/
def silently {α : Type} (x : GraphM α) : GraphM Unit := (fun _ => ()) <$> x

/-- Resolves for what it does to the graph, after some requests. -/
def resolving {α : Type} (requests : List AssemblyRequest) (x : ResolveM α) : GraphM Unit :=
  fun g => ((), (x.run ⟨g, requests⟩).2.graph)

namespace ReadCall

/-- What a call does. -/
def run : ReadCall → GraphM Unit
  | property n name => ((Properties.ofNode n).find? name).elim (pure ()) silently
  | items e o => silently (Ownership.items e o)
  | owner e c => silently (Ownership.owner e c)
  | row m table rid => ((LookUp.rows m).lookup table).elim (pure ()) fun read => silently (read rid)
  | find m r => silently (m.find r)
  | findByName m space name => silently (m.findByName space name)
  | findExported m r => silently (m.findExported r)
  | findResource m name => silently (m.findResource name)
  | findIn a r => silently (a.find r)
  | findModule a name => silently (a.findModule name)
  | findMethod t name sig => silently (t.findMethod name sig)
  | findField t name sig => silently (t.findField name sig)
  | findProperty t name => silently (t.findProperty name)
  | findEvent t name => silently (t.findEvent name)
  | findNested t name => silently (t.findNested name)
  | findMember t name sig => silently (t.resolveMember name sig)
  | equalTypes o a b => silently (o.equalTypes a b)
  | equalSigs o a b => silently (o.equalSigs a b)
  | equalMethodSigs o a b => silently (o.equalMethodSigs a b)
  | equalPropertySigs o a b => silently (o.equalPropertySigs a b)
  | answers e r => silently (e.answers r)
  | mentions depth sig => silently (Containment.signature depth sig)
  | typeMentions depth t => silently (Containment.type depth t)
  | referenceMentions depth r => silently (Containment.reference depth r)
  | memberMentions depth m => silently (Containment.memberRef depth m)
  | constraintMentions depth c => silently (Containment.constraint depth c)
  | display t => silently t.display
  | resolveType source config requests t asking =>
    resolving requests ((Resolver.usual source config).resolveTypeDefOrRef t asking)
  | resolveMember source config requests m =>
    resolving requests ((Resolver.usual source config).resolveMember m)

/-- **A call that only reads leads from a graph to one that has been read.** -/
theorem run_peruses (call : ReadCall) : Keeps Peruses call.run := by
  have silent : ∀ {α : Type} {x : GraphM α}, Keeps Peruses x → Keeps Peruses (silently x) :=
    fun h => h.map
  have resolved : ∀ {α : Type} {x : ResolveM α} requests, Keeps Viewed.Peruses x →
      Keeps Peruses (resolving requests x) := fun requests h g => h ⟨g, requests⟩
  have known : ∀ {α : Type} {o : Option α} {f : α → GraphM Unit},
      (∀ x, o = some x → Keeps Peruses (f x)) → Keeps Peruses (o.elim (pure ()) f) := by
    intro α o f h
    cases o with
    | none => exact Keeps.pure _
    | some x => exact h x rfl
  cases call with
  | property n name => exact known fun _ hx => silent (Properties.find?_peruses hx)
  | row m table rid => exact known fun _ hread => silent (LookUp.row_peruses hread rid)
  | items e o => exact silent (items_peruses e o)
  | owner e c => exact silent (owner_peruses e c)
  | find m r => exact silent (searches_peruses.find m r)
  | findExported m r => exact silent (m.findExported_peruses r)
  | findIn a r => exact silent (searches_peruses.findIn a r)
  | findByName m _ _ => exact silent (keeps_searched m.types_peruses _)
  | findResource m _ => exact silent (keeps_searched m.resources_peruses _)
  | findModule a _ => exact silent (Resolver.findModule_peruses a _)
  | findMethod t name sig => exact silent (t.findMethod_peruses name sig)
  | findField t name sig => exact silent (t.findField_peruses name sig)
  | findProperty t _ | findEvent t _ | findNested t _ =>
    exact silent (keeps_searched (t.children_peruses _) _)
  | findMember t name sig => exact silent (t.resolveMember_peruses name sig)
  | equalTypes o a b => exact silent (o.equalTypes_peruses a b)
  | equalSigs o a b => exact silent (within_peruses.equalSigs o a b)
  | equalMethodSigs o a b => exact silent (within_peruses.equalMethodSigs o a b)
  | equalPropertySigs o a b => exact silent (o.equalPropertySigs_peruses a b)
  | answers e r => exact silent (e.answers_peruses r)
  | mentions depth sig => exact silent (Containment.signature_peruses depth sig)
  | typeMentions depth t => exact silent ((Containment.search_peruses depth).2.2 t)
  | referenceMentions depth r => exact silent (Containment.reference_peruses depth r)
  | memberMentions depth m => exact silent (Containment.memberRef_peruses depth m)
  | constraintMentions depth c => exact silent (Containment.constraint_peruses depth c)
  | display t => exact silent (TypeSig.displayWith_peruses TypeSpecId.fullName_peruses t)
  | resolveType source config requests t asking =>
    exact resolved requests ((Resolver.usual_peruse source config).resolveTypeDefOrRef asking t)
  | resolveMember source config requests m =>
    exact resolved requests ((Resolver.usual_peruse source config).resolveMember m)

end ReadCall

/-- Does some calls in order. -/
def Graph.after (g : Graph) : List ReadCall → Graph
  | [] => g
  | call :: calls => (call.run.run g).2.after calls

/-- **Any sequence of calls that only read leads to a graph that has been read.** -/
theorem Graph.after_peruses : ∀ (calls : List ReadCall) (g : Graph), g.Peruses (g.after calls)
  | [], g => refl_of Peruses g
  | call :: calls, g => trans_of Peruses (call.run_peruses g) (after_peruses calls _)

end CliMetadata
