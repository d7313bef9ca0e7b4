import CliMetadata.Graph.Members

/-!
# Modules and assemblies

A module lists the types that are nested in no other, the first of them the
global type that holds its global members, and the types and resources that it
exports from elsewhere.  An assembly lists its modules, the first of them its
manifest module.
-/

namespace CliMetadata

open Loading

namespace ExportedTypeId

/-- The slot of the implementation. -/
def implementationSlot (e : ExportedTypeId) : SlotIn Graph (Option Implementation) :=
  Graph.slot e (·.implementation) fun v r => { r with implementation := v }

/-- The module that exports the type. -/
def module (e : ExportedTypeId) : GraphM (Option ModuleId) := do
  let g ← get
  return g.upgrade (g.get e).module

/-- Where the type is kept. -/
def implementation (e : ExportedTypeId) : GraphM (Option Implementation) :=
  readSlot e (implementationSlot e) none fun loader rid => do
    match ← rowAt (·.exportedTypes) loader rid with
    | none => return none
    | some row => Loading.implementation loader row.implementation

/-- The exported type that encloses this one. -/
def declaringType (e : ExportedTypeId) : GraphM (Option ExportedTypeId) := do
  match ← implementation e with
  | some (.exportedType enclosing) => return some enclosing
  | _ => return none

/-- Whether the type is enclosed by another. -/
def isNested (e : ExportedTypeId) : GraphM Bool := do return (← declaringType e).isSome

/-- Whether the type is defined in another assembly. -/
def isForwarder (g : Graph) (e : ExportedTypeId) : Bool :=
  ExportedTypeFlags.isForwarder (g.get e).flags

/-- The namespace and name of an exported type. -/
def level (g : Graph) (e : ExportedTypeId) : Name × Name :=
  let r := g.get e
  (r.space, r.name)

/-- The path of an exported type; none where the types that enclose it do not end
within the bound. -/
def path? (e : ExportedTypeId) : GraphM (Option TypePath) := do
  let (enclosing, ended) ← Chain.ancestors declaringType recursionBound (← declaringType e)
  let g ← get
  return if ended then some ((e :: enclosing).map (level g)).reverse else none

/-- The full name, of as many levels as the bound allows. -/
def fullName (e : ExportedTypeId) : GraphM String := do
  let (enclosing, _) ← Chain.ancestors declaringType recursionBound (← declaringType e)
  let g ← get
  return "/".intercalate
    ((e :: enclosing).map fun x => let (s, n) := level g x; Name.qualified s n).reverse

/-- Whether an exported type has the path that a reference asks for. -/
def answers (e : ExportedTypeId) (r : TypeRefId) : GraphM Bool := do
  match ← r.path? with
  | none => return false
  | some expected => return (← path? e) == some expected

end ExportedTypeId

namespace ResourceId

/-- The slot of the implementation. -/
def implementationSlot (r : ResourceId) : SlotIn Graph (Option Implementation) :=
  Graph.slot r (·.implementation) fun v e => { e with implementation := v }

/-- The slot of the bytes. -/
def dataSlot (r : ResourceId) : SlotIn Graph (Option (List UInt8)) :=
  Graph.slot r (·.data) fun v e => { e with data := v }

/-- Where the resource is kept, if not in the module itself. -/
def implementation (r : ResourceId) : GraphM (Option Implementation) :=
  readSlot r (implementationSlot r) none fun loader rid => do
    match ← rowAt (·.resources) loader rid with
    | none => return none
    | some row => Loading.implementation loader row.implementation

/-- The bytes of a resource that is kept in the module itself. -/
def data (r : ResourceId) : GraphM (Option (List UInt8)) := do
  match ← implementation r with
  | some _ => return none
  | none =>
    readSlot r (dataSlot r) none fun loader _ => do
      let g ← get
      return (g.store? loader).bind fun s => s.resource? (g.get r).offset

/-- The assembly that the resource is kept in. -/
def assembly (r : ResourceId) : GraphM (Option AssemblyRefId) := do
  match ← implementation r with
  | some (.assemblyRef a) => return some a
  | _ => return none

/-- The file that the resource is kept in. -/
def file (r : ResourceId) : GraphM (Option FileId) := do
  match ← implementation r with
  | some (.file f) => return some f
  | _ => return none

/-- The name of that file; empty where there is none. -/
def fileName (r : ResourceId) : GraphM Name := do
  match ← file r with
  | some f => return ((← get).get f).name
  | none => return .empty

end ResourceId

/-- Where a resource is kept. -/
inductive ResourceType where
  | embedded | assemblyLinked | linked
deriving Repr, DecidableEq

/-- The name of a resource type. -/
def ResourceType.name : ResourceType → String
  | embedded => "Embedded"
  | assemblyLinked => "AssemblyLinked"
  | linked => "Linked"

/-- Where a resource is kept; an exported type keeps none. -/
def ResourceType.of? : Option Implementation → Option ResourceType
  | none => some embedded
  | some (.assemblyRef _) => some assemblyLinked
  | some (.file _) => some linked
  | some (.exportedType _) => none

namespace ModuleId

/-- The assembly that lists the module. -/
def assembly (m : ModuleId) : GraphM (Option AssemblyId) := do
  return (← Ownership.owner .assemblyModules m.key).map fun n => ⟨n.key⟩

/-- The types that are nested in no other. -/
def types (m : ModuleId) : GraphM (List TypeDefId) := do
  return (← Ownership.items .moduleTypes m.node).map Id.mk

/-- The type that holds the global members: the first. -/
def globalType (m : ModuleId) : GraphM (Option TypeDefId) := do return (← types m)[0]?

/-- The slot of the exported types. -/
def exportedTypesSlot (m : ModuleId) : SlotIn Graph (List ExportedTypeId) :=
  Graph.slot m (·.exportedTypes) fun v r => { r with exportedTypes := v }

/-- The slot of the resources. -/
def resourcesSlot (m : ModuleId) : SlotIn Graph (List ResourceId) :=
  Graph.slot m (·.resources) fun v r => { r with resources := v }

/-- The exported types. -/
def exportedTypes (m : ModuleId) : GraphM (List ExportedTypeId) :=
  readSlot m (exportedTypesSlot m) [] fun loader _ => do
    collect (shared .exportedType loader) (← children loader .exportedTypes Store.moduleToken)

/-- The resources. -/
def resources (m : ModuleId) : GraphM (List ResourceId) :=
  readSlot m (resourcesSlot m) [] fun loader _ => do
    collect (shared .resource loader) (← children loader .manifestResources Store.moduleToken)

/-- The first resource of a name. -/
def findResource (m : ModuleId) (name : String) : GraphM (Option ResourceId) := do
  let rs ← resources m
  let g ← get
  return rs.find? fun r => (g.get r).name.isText name

/-- What the module is read through. -/
def loader? (g : Graph) (m : ModuleId) : Option Loader := (g.get m).loader

/-- How many entities of rows have been made for the module. -/
def materializedCount (g : Graph) (m : ModuleId) (among : Kind → Bool) : Nat :=
  g.entities.entries.countP fun entry =>
    among entry.1.kind && match entry.1.key, m.key with
      | .row loader _, .built number => loader == number
      | _, _ => false

/-- How many assembly references are stored for the module. -/
def assemblyRefCount (g : Graph) (m : ModuleId) : Nat :=
  ((loader? g m).map fun l => l.store.assemblyRefs.length).getD 0

/-! ## Looking types up -/

/-- The first type of the module with a namespace and a name. -/
def findByName (m : ModuleId) (space name : String) : GraphM (Option TypeDefId) := do
  let ts ← types m
  let g ← get
  return ts.find? fun t => (g.get t).space.isText space && (g.get t).name.isText name

/-- The first type of a list with the namespace and name of a reference. -/
def firstAt (g : Graph) (r : TypeRefId) (ts : List TypeDefId) : Option TypeDefId :=
  ts.find? fun t => TypeDefId.level g t == TypeRefId.level g r

/-- The type found by going down from a type, one level for each reference. -/
def descend : TypeDefId → List TypeRefId → GraphM (Option TypeDefId)
  | t, [] => return some t
  | t, r :: rest => do
    let nested ← t.nestedTypes
    match firstAt (← get) r nested with
    | some t' => descend t' rest
    | none => return none

/-- The type that a reference names in the module: at each level of the
reference's path, the first of that namespace and name. -/
def find (m : ModuleId) (r : TypeRefId) : GraphM (Option TypeDefId) := do
  match ← r.nestingChain with
  | none => return none
  | some [] => return none
  | some (outermost :: nested) =>
    let ts ← types m
    match firstAt (← get) outermost ts with
    | some t => descend t nested
    | none => return none

/-- The first exported type of a list that has the path that a reference asks for. -/
def firstAnswer (r : TypeRefId) : List ExportedTypeId → GraphM (Option ExportedTypeId)
  | [] => return none
  | e :: rest => do if ← e.answers r then return some e else firstAnswer r rest

/-- The first exported type with the path that a reference asks for. -/
def findExported (m : ModuleId) (r : TypeRefId) : GraphM (Option ExportedTypeId) := do
  firstAnswer r (← exportedTypes m)

/-- The types of some levels and of those nested in them, level by level: `ts` is
a level, and `bound` more are read. -/
def levels : (bound : Nat) → List TypeDefId → GraphM (List TypeDefId)
  | 0, ts => return ts
  | _ + 1, [] => return []
  | n + 1, ts => do
    let nested ← ts.mapM TypeDefId.nestedTypes
    return ts ++ (← levels n nested.flatten)

/-- Every type of the module, level by level, as deep as the bound allows. -/
def allTypes (m : ModuleId) : GraphM (List TypeDefId) := do levels recursionBound (← types m)

/-- Whether the module is the manifest module of its assembly. -/
def isManifest (m : ModuleId) : GraphM Bool := do
  match ← assembly m with
  | none => return false
  | some a => return (← Ownership.items .assemblyModules a.node).head? == some m.key

end ModuleId

namespace AssemblyId

/-- The modules. -/
def modules (a : AssemblyId) : GraphM (List ModuleId) := do
  return (← Ownership.items .assemblyModules a.node).map Id.mk

/-- The manifest module: the first. -/
def manifestModule (a : AssemblyId) : GraphM (Option ModuleId) := do return (← modules a)[0]?

/-- The first module of a name, up to case. -/
def findModule (a : AssemblyId) (name : String) : GraphM (Option ModuleId) := do
  let ms ← modules a
  let g ← get
  return ms.find? fun m => (g.get m).name.sameIgnoringCase (.ofString name)

/-- The first answer that a module of a list gives. -/
def firstOf {α : Type} (f : ModuleId → GraphM (Option α)) : List ModuleId → GraphM (Option α)
  | [] => return none
  | m :: rest => do
    match ← f m with
    | some x => return some x
    | none => firstOf f rest

/-- The type that a reference names in the first module that has it. -/
def find (a : AssemblyId) (r : TypeRefId) : GraphM (Option TypeDefId) := do
  firstOf (fun m => m.find r) (← modules a)

/-- The type of a namespace and name in the first module that has one. -/
def findByName (a : AssemblyId) (space name : String) : GraphM (Option TypeDefId) := do
  firstOf (fun m => m.findByName space name) (← modules a)

/-- The token of the strong name, under the hash algorithm of the assembly. -/
def publicKeyToken (g : Graph) (a : AssemblyId) : Option KeyToken :=
  let r := g.get a
  r.identity.strongName.map fun s => s.toToken r.hashAlgorithm

end AssemblyId

/-- The assembly that defines an exported type. -/
inductive DefinitionAssembly where
  | assembly (id : AssemblyId)
  | reference (id : AssemblyRefId)
deriving Repr, DecidableEq

namespace ExportedTypeId

/-- Follows implementations through at most `bound` enclosing exported types. -/
def definitionFrom (e : ExportedTypeId) :
    (bound : Nat) → Implementation → GraphM (Option DefinitionAssembly)
  | 0, _ => return none
  | _ + 1, .assemblyRef r => return some (.reference r)
  | _ + 1, .file _ => do
    match ← module e with
    | none => return none
    | some m => return (← m.assembly).map .assembly
  | n + 1, .exportedType enclosing => do
    match ← implementation enclosing with
    | none => return none
    | some i => definitionFrom e n i

/-- The assembly that defines the type: the one that its outermost enclosing type
refers to, or its own where that is kept in a file. -/
def definitionAssembly (e : ExportedTypeId) : GraphM (Option DefinitionAssembly) := do
  match ← implementation e with
  | none => return none
  | some i => definitionFrom e recursionBound i

end ExportedTypeId

/-- Whether a type is the one that holds the global members of its module. -/
def TypeDefId.isGlobal (t : TypeDefId) : GraphM Bool := do
  match ← t.ownerModule with
  | none => return false
  | some m => return (← m.globalType) == some t

end CliMetadata
