import CliMetadata.AssemblyCache
import CliMetadata.Comparison
import CliMetadata.Projection

/-!
# Resolving references

A type reference is resolved to the type that it names: in the assembly, the
module or the referenced module that its outermost level is scoped to, or where
**forwarders** lead from there.  A member reference is resolved to a member of
the type that its parent resolves to, or of the nearest base type that has one.

Which assembly an identity stands for is for an outside source to say, an
`AssemblySource`.  It may answer by the graph and by all requests made before,
and the requests made are a part of the result.
-/

namespace CliMetadata

/-- A request for an assembly: its identity and the module that asks. -/
structure AssemblyRequest where
  identity : AssemblyIdentity
  source : Option ModuleId
deriving Repr, DecidableEq

/-- A source of assemblies: its answer to a request, given the graph and the
requests made before, the oldest first. -/
abbrev AssemblySource := Graph → List AssemblyRequest → AssemblyRequest → Option AssemblyId

/-- The source that looks requests up in a cache. -/
def AssemblyCache.source (c : AssemblyCache) : AssemblySource :=
  fun g _ request => c.resolve g request.identity

/-- How references are replaced before they are resolved. -/
structure ReferenceProjection where
  typeRef : TypeRefId → GraphM (Option TypeRefId)
  memberRef : MemberRefId → GraphM (Option MemberRefId)

/-- The replacement of Windows Runtime references. -/
def ReferenceProjection.windowsRuntime : ReferenceProjection :=
  ⟨Projection.typeRef, Projection.memberRef⟩

/-- The settings of a resolver. -/
structure ResolverConfig where
  /-- Whether references are replaced before they are resolved. -/
  project : Bool := true
  /-- How many forwarders are followed. -/
  maxHops : Nat := 30
deriving Repr, DecidableEq

/-- What resolves references. -/
structure Resolver where
  source : AssemblySource
  projection : Option ReferenceProjection
  config : ResolverConfig

/-- The resolver over a source with a projection of its own or the usual one. -/
def Resolver.build (source : Option AssemblySource) (projection : Option ReferenceProjection)
    (config : ResolverConfig) : Except Error Resolver :=
  match source with
  | none => .error .missingAssemblyResolver
  | some source =>
    .ok ⟨source, if config.project then some (projection.getD .windowsRuntime) else none, config⟩

/-- A graph with the requests made so far, the oldest first. -/
structure Resolving where
  graph : Graph
  requests : List AssemblyRequest

/-- A computation that may ask for assemblies. -/
abbrev ResolveM := StateM Resolving

/-- A computation over the graph alone. -/
def inGraph {α : Type} (x : GraphM α) : ResolveM α := fun s =>
  let (a, g) := x s.graph
  (a, { s with graph := g })

namespace Resolver

/-- Asks the source for an assembly. -/
def resolveAssembly (r : Resolver) (identity : AssemblyIdentity) (source : Option ModuleId) :
    ResolveM (Option AssemblyId) := fun s =>
  let request := ⟨identity, source⟩
  (r.source s.graph s.requests request, { s with requests := s.requests ++ [request] })

/-- The reference to resolve in place of a type reference. -/
def projectType (r : Resolver) (ref : TypeRefId) : ResolveM TypeRefId := do
  match r.projection with
  | none => return ref
  | some p => return (← inGraph (p.typeRef ref)).getD ref

/-- The reference to resolve in place of a member reference. -/
def projectMember (r : Resolver) (ref : MemberRefId) : ResolveM MemberRefId := do
  match r.projection with
  | none => return ref
  | some p => return (← inGraph (p.memberRef ref)).getD ref

/-- The identity of the assembly that defines an exported type. -/
def definitionIdentity (g : Graph) : DefinitionAssembly → AssemblyIdentity
  | .assembly a => (g.get a).identity
  | .reference a => (g.get a).identity

/-- The first exported type of some modules that has the path of a reference. -/
def findForwarder (ms : List ModuleId) (ref : TypeRefId) : GraphM (Option ExportedTypeId) :=
  AssemblyId.firstOf (fun m => m.findExported ref) ms

/-- Follows forwarders from some modules: through at most `hops` assemblies, each
the one that the first matching exported type is defined in. -/
def followForwarders (r : Resolver) (ref : TypeRefId) (source : Option ModuleId) :
    (hops : Nat) → List ModuleId → ResolveM (Option TypeDefId)
  | 0, _ => return none
  | n + 1, ms => do
    match ← inGraph (findForwarder ms ref) with
    | none => return none
    | some exported =>
      match ← inGraph exported.definitionAssembly with
      | none => return none
      | some definition =>
        let identity := definitionIdentity (← get).graph definition
        match ← r.resolveAssembly identity source with
        | none => return none
        | some a =>
          match ← inGraph (a.find ref) with
          | some t => return some t
          | none => followForwarders r ref source n (← inGraph a.modules)

/-- The type that a reference names in a module or where its forwarders lead. -/
def findInModule (r : Resolver) (ref : TypeRefId) (source : Option ModuleId) (m : ModuleId) :
    ResolveM (Option TypeDefId) := do
  match ← inGraph (m.find ref) with
  | some t => return some t
  | none => followForwarders r ref source r.config.maxHops [m]

/-- The type that a reference names in an assembly or where its forwarders lead. -/
def findInAssembly (r : Resolver) (ref : TypeRefId) (source : Option ModuleId) (a : AssemblyId) :
    ResolveM (Option TypeDefId) := do
  match ← inGraph (a.find ref) with
  | some t => return some t
  | none => followForwarders r ref source r.config.maxHops (← inGraph a.modules)

/-- Whether a module reference names a module, up to case. -/
def namesModule (g : Graph) (ref : ModuleRefId) (m : ModuleId) : Bool :=
  (g.get ref).name.sameIgnoringCase (g.get m).name

/-- The module that a module reference names from a module: that module itself, or
the first of its assembly whose name agrees up to case. -/
def referencedModule (ref : ModuleRefId) (current : ModuleId) : GraphM (Option ModuleId) := do
  let g ← get
  if namesModule g ref current then return some current
  match ← current.assembly with
  | none => return none
  | some a => a.findModule (g.get ref).name.lossy

/-- The type that a reference resolves to. -/
def resolveType (r : Resolver) (ref : TypeRefId) (source : Option ModuleId) :
    ResolveM (Option TypeDefId) := do
  let ref ← r.projectType ref
  let source := source.or (← inGraph ref.module)
  match ← inGraph ref.nonNested with
  | none => return none
  | some outermost =>
    match ← inGraph outermost.scope with
    | some (.assemblyRef a) =>
      let identity := ((← get).graph.get a).identity
      match ← r.resolveAssembly identity source with
      | none => return none
      | some a => findInAssembly r ref source a
    | some (.module m) =>
      match (← get).graph.upgrade m with
      | none => return none
      | some m => findInModule r ref source m
    | some (.moduleRef mr) =>
      match ← inGraph outermost.module with
      | none => return none
      | some current =>
        match ← inGraph (referencedModule mr current) with
        | none => return none
        | some m => findInModule r ref source m
    | _ => return none

/-- The type that a type, a reference or a specification resolves to. -/
def resolveTypeDefOrRef (r : Resolver) (type : TypeDefOrRef) (source : Option ModuleId) :
    ResolveM (Option TypeDefId) := do
  match type with
  | .typeDef t => return some t
  | .typeRef ref => r.resolveType ref source
  | .typeSpec s =>
    match ← inGraph s.scopeType with
    | some (.typeDef t) => return some t
    | some (.typeRef ref) => r.resolveType ref source
    | _ => return none

end Resolver

/-! ## Members -/

/-- The first entry of a list that passes a test. -/
def firstThat {α : Type} (test : α → GraphM Bool) : List α → GraphM (Option α)
  | [] => return none
  | x :: xs => do if ← test x then return some x else firstThat test xs

namespace TypeDefId

/-- Whether a signature that may be missing is equal to the expected one, where
one is expected. -/
def answersSig {α : Type} (equal : α → α → GraphM Bool) (read : GraphM (Option α)) :
    Option α → GraphM Bool
  | none => return true
  | some expected => do
    match ← read with
    | some actual => equal actual expected
    | none => return false

/-- The first method of a name, and of a signature where one is given. -/
def findMethod (t : TypeDefId) (name : String) (sig : Option (MethodSig TypeDefOrRef)) :
    GraphM (Option MethodDefId) := do
  let ms ← t.methods
  firstThat (fun m => do
    if ((← get).get m).name.isText name
    then answersSig (CompareOptions.equalMethodSigs {}) m.sig sig
    else return false) ms

/-- The first field of a name, and of a type where one is given. -/
def findField (t : TypeDefId) (name : String) (sig : Option Sig) :
    GraphM (Option FieldId) := do
  let fs ← t.fields
  firstThat (fun f => do
    if ((← get).get f).name.isText name
    then answersSig (CompareOptions.equalSigs {}) f.sig sig
    else return false) fs

/-- The first property of a name. -/
def findProperty (t : TypeDefId) (name : String) : GraphM (Option PropertyId) := do
  let ps ← t.properties
  let g ← get
  return ps.find? fun p => (g.get p).name.isText name

/-- The first event of a name. -/
def findEvent (t : TypeDefId) (name : String) : GraphM (Option EventId) := do
  let es ← t.events
  let g ← get
  return es.find? fun e => (g.get e).name.isText name

/-- The first nested type of a name. -/
def findNested (t : TypeDefId) (name : String) : GraphM (Option TypeDefId) := do
  let ts ← t.nestedTypes
  let g ← get
  return ts.find? fun n => (g.get n).name.isText name

/-- The member of a type itself that has a name and a signature. -/
def ownMember (t : TypeDefId) (name : String) :
    Signature TypeDefOrRef → GraphM (Option MemberDef)
  | .method m => do return (← t.findMethod name (some m)).map .method
  | .field f => do return (← t.findField name (some f)).map .field
  | _ => return none

/-- The type that a base is, as far as it can be told without resolving: a type,
or a specification of one. -/
def plainBase : TypeDefOrRef → GraphM (Option TypeDefId)
  | .typeDef t => return some t
  | .typeSpec s => do
    match ← s.scopeType with
    | some (.typeDef t) => return some t
    | _ => return none
  | .typeRef _ => return none

/-- Looks a member up in at most `bound` base types. -/
def inheritedMember (name : String) (sig : Signature TypeDefOrRef) :
    (bound : Nat) → Option TypeDefOrRef → GraphM (Option MemberDef)
  | 0, _ => return none
  | _ + 1, none => return none
  | n + 1, some base => do
    match ← plainBase base with
    | none => return none
    | some t =>
      match ← t.ownMember name sig with
      | some found => return some found
      | none => inheritedMember name sig n (← t.base)

/-- The member of a name and signature in a type or its nearest base type, over
base types that need no resolving. -/
def resolveMember (t : TypeDefId) (name : String) (sig : Signature TypeDefOrRef) :
    GraphM (Option MemberDef) := do
  match ← t.ownMember name sig with
  | some found => return some found
  | none => inheritedMember name sig recursionBound (← t.base)

end TypeDefId

namespace Resolver

/-- Looks a member up in a type and the types that its bases resolve to, `bound`
types in all. -/
def findMember (r : Resolver) (name : String) (sig : Signature TypeDefOrRef) :
    (bound : Nat) → TypeDefId → ResolveM (Option MemberDef)
  | 0, _ => return none
  | n + 1, t => do
    if sig.method?.isNone && sig.field?.isNone then return none
    match ← inGraph (t.ownMember name sig) with
    | some found => return some found
    | none =>
      match ← inGraph t.base with
      | none => return none
      | some base =>
        match ← r.resolveTypeDefOrRef base (← inGraph t.module) with
        | none => return none
        | some t' => findMember r name sig n t'

/-- The type that a member's parent resolves to: for a module, the one that holds
its global members. -/
def resolveParent (r : Resolver) (source : Option ModuleId) :
    MemberParent → ResolveM (Option TypeDefId)
  | .typeDef t => return some t
  | .typeRef ref => r.resolveType ref source
  | .typeSpec s => r.resolveTypeDefOrRef (.typeSpec s) source
  | .moduleRef mr => do
    match source with
    | none => return none
    | some current =>
      let own ← inGraph (do
        if namesModule (← get) mr current then current.globalType else return none)
      match own with
      | some t => return some t
      | none =>
        inGraph (do
          match ← current.assembly with
          | none => return none
          | some a =>
            match ← a.findModule ((← get).get mr).name.lossy with
            | none => return none
            | some m => m.globalType)
  | .methodDef _ => return none

/-- The member that a reference resolves to. -/
def resolveMember (r : Resolver) (member : MemberRefId) : ResolveM (Option MemberDef) := do
  let member ← r.projectMember member
  match ← inGraph member.parent with
  | none => return none
  | some (.methodDef m) => return some (.method m)
  | some parent =>
    let source ← inGraph member.module
    match ← r.resolveParent source parent with
    | none => return none
    | some t =>
      match ← inGraph member.sig with
      | none => return none
      | some sig =>
        r.findMember ((← get).graph.get member).name.lossy sig recursionBound t

/-- The method that a reference resolves to. -/
def resolveMethod (r : Resolver) (member : MemberRefId) : ResolveM (Option MethodDefId) := do
  match ← r.resolveMember member with
  | some (.method m) => return some m
  | _ => return none

/-- The field that a reference resolves to. -/
def resolveField (r : Resolver) (member : MemberRefId) : ResolveM (Option FieldId) := do
  match ← r.resolveMember member with
  | some (.field f) => return some f
  | _ => return none

end Resolver
end CliMetadata
