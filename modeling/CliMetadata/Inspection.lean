import CliMetadata.Resolution
import CliMetadata.Text.Outline
import CliMetadata.Text.Quoted

/-!
# Outlines for diagnosis

Each entity is outlined by its kind and what tells it apart for a reader: row
number, name and a few columns.  Types appear inside by full name,
specifications by token, so that every outline is finite.  Outlining reads what
it shows.
-/

namespace CliMetadata

open Text.Outline

/-- The outline of a name: its text in quotes. -/
def Name.inspect (n : Name) : String := tuple "Name" [Text.Quoted.quote n.lossy]

/-- The outline of a version. -/
def AssemblyVersion.inspect (v : AssemblyVersion) : String :=
  record "AssemblyVersion"
    [("major", toString v.major.toNat), ("minor", toString v.minor.toNat),
      ("build", toString v.build.toNat), ("revision", toString v.revision.toNat)]

/-- The outline of a GUID by its parts in decimal: the first as one number, the
next two low byte first. -/
def Guid.inspect (g : Guid) : String :=
  let byte (i : Nat) : Nat := (g.val.getD i 0).toNat
  let bytes (indices : List Nat) := list (indices.map fun i => toString (byte i))
  let timeLow := [0, 1, 2, 3].foldl (fun n i => 256 * n + byte i) 0
  record "Guid"
    [("time_low", toString timeLow), ("time_mid", bytes [5, 4]),
      ("time_high_and_version", bytes [7, 6]),
      ("clock_seq_high_and_reserved", toString (byte 8)), ("clock_seq_low", toString (byte 9)),
      ("node", bytes [10, 11, 12, 13, 14, 15])]

/-! ## Signatures -/

/-- The outline of a type without parts. -/
def Leaf.inspect : Leaf → String
  | unknown => "Unknown"
  | void => "Void"
  | boolean => "Boolean"
  | char => "Char"
  | i1 => "I1"
  | u1 => "U1"
  | i2 => "I2"
  | u2 => "U2"
  | i4 => "I4"
  | u4 => "U4"
  | i8 => "I8"
  | u8 => "U8"
  | r4 => "R4"
  | r8 => "R8"
  | string => "String"
  | typedByRef => "TypedByRef"
  | i => "I"
  | u => "U"
  | object => "Object"
  | internal => "Internal"
  | sentinel => "Sentinel"

/-- The outline of one dimension of an array. -/
def ArrayDimension.inspect (d : ArrayDimension) : String :=
  record "ArrayDimensions"
    [("size", option (d.size.map toString)), ("lower_bound", option (d.lowerBound.map toString))]

/-- The outline of a wrapper around something. -/
def Wrapper.inspect (w : Wrapper) (inner : String) : String :=
  match w with
  | ptr => tuple "Ptr" [inner]
  | byRef => tuple "ByRef" [inner]
  | szArray => tuple "SzArray" [inner]
  | pinned => tuple "Pinned" [inner]
  | array rank dimensions =>
    tuple "Array" [record "SignatureArray"
      [("base", inner), ("rank", toString rank),
        ("dimensions", list (dimensions.map ArrayDimension.inspect))]]
  | valueArray size => tuple "ValueArray" [inner, toString size]
  | module index => tuple "Module" [inner, toString index]

/-- The outline of a reference to a type. -/
def TypeDefOrRef.inspect : TypeDefOrRef → GraphM String
  | typeDef t => do return tuple "TypeDef" [← t.fullName]
  | typeRef r => do return tuple "TypeRef" [← r.fullName]
  | typeSpec s => do return tuple "TypeSpec" [((← get).token s.node).display]

/-- The outline of a method signature, given those of its types. -/
def MethodHead.inspect (h : MethodHead) (returnType : String) (params varargs : List String) :
    String :=
  record "SignatureMethod"
    [("has_this", truth h.hasThis), ("explicit_this", truth h.explicitThis),
      ("vararg", truth h.vararg), ("cdecl", truth (h.convention == .cdecl)),
      ("stdcall", truth (h.convention == .stdcall)),
      ("thiscall", truth (h.convention == .thiscall)),
      ("fastcall", truth (h.convention == .fastcall)),
      ("param_count_generic", toString h.genericCount), ("return_type", returnType),
      ("params", list params), ("varargs", list varargs)]

namespace TypeSig

mutual

/-- The outline of a signature. -/
def inspect : Sig → GraphM String
  | leaf l => return l.inspect
  | named .classType type => do return tuple "Class" [← type.inspect]
  | named .valueType type => do return tuple "ValueType" [← type.inspect]
  | param .type index => return tuple "GenericParamType" [toString index]
  | param .method index => return tuple "GenericParamMethod" [toString index]
  | wrap w next => do return w.inspect (← inspect next)
  | modified kind modifier base => do
    let name := match kind with
      | .required => "ModifiedRequired"
      | .optional => "ModifiedOptional"
    let modifier ← modifier.inspect
    let base ← inspect base
    return tuple name [record "SignatureModifier" [("modifier", modifier), ("base", base)]]
  | inst generic args => do
    let generic ← inspect generic
    return tuple "GenericInst" [generic, list (← inspectAll args)]
  | fnPtr head returnType params varargs => do
    let returnType ← inspect returnType
    let params ← inspectAll params
    return tuple "FnPtr" [head.inspect returnType params (← inspectAll varargs)]

/-- The outlines of several signatures. -/
def inspectAll : List Sig → GraphM (List String)
  | [] => return []
  | t :: ts => do
    let t ← inspect t
    return t :: (← inspectAll ts)

end

end TypeSig

/-! ## Entities -/

/-- The parts that most outlines begin with. -/
def headParts (rid : Nat) (name : Name) : List (String × String) :=
  [("rid", toString rid), ("name", name.inspect)]

/-- The part of an outline that shows flags. -/
def flagParts (flags : Flags) : List (String × String) := [("flags", hex flags.toNat)]

/-- The outline of an entity, for the kinds that have one. -/
def inspectNode (n : Node) : GraphM (Option String) := do
  let g ← get
  match g.entity n with
  | .module e =>
    return some (opened "Module"
      [("name", e.name.inspect), ("mvid", Guid.inspect e.mvid),
        ("materialized", truth e.origin.isMaterialized)])
  | .assembly e =>
    let modules ← AssemblyId.modules ⟨n.key⟩
    return some (opened "Assembly"
      [("identity", Text.Quoted.quote e.identity.display), ("modules", toString modules.length)])
  | .typeDef e =>
    let name ← TypeDefId.fullName ⟨n.key⟩
    return some (opened "TypeDef"
      ([("rid", toString e.rid), ("name", Text.Quoted.quote name)] ++ flagParts e.flags))
  | .typeRef e =>
    let name ← TypeRefId.fullName ⟨n.key⟩
    return some (opened "TypeRef" [("rid", toString e.rid), ("name", Text.Quoted.quote name)])
  | .typeSpec e =>
    let sig ← match ← TypeSpecId.sig ⟨n.key⟩ with
      | some t => some <$> t.inspect
      | none => pure none
    return some (opened "TypeSpec" [("rid", toString e.rid), ("signature", option sig)])
  | .field e => return some (opened "Field" (headParts e.rid e.name ++ flagParts e.flags))
  | .methodDef e => return some (opened "MethodDef" (headParts e.rid e.name ++ flagParts e.flags))
  | .param e =>
    return some (opened "Param"
      [("rid", toString e.rid), ("sequence", toString e.sequence), ("name", e.name.inspect)])
  | .property e => return some (opened "Property" (headParts e.rid e.name))
  | .event e => return some (opened "Event" (headParts e.rid e.name))
  | .memberRef e => return some (opened "MemberRef" (headParts e.rid e.name))
  | .methodSpec e =>
    let method ← MethodSpecId.method ⟨n.key⟩
    let g ← get
    return some (opened "MethodSpec"
      [("rid", toString e.rid), ("method", option (method.map fun m => (m.name g).inspect))])
  | .genericParam e =>
    return some (opened "GenericParam"
      [("rid", toString e.rid), ("number", toString e.number), ("name", e.name.inspect)])
  | .assemblyRef e =>
    return some (opened "AssemblyRef"
      (headParts e.rid e.name ++ [("version", e.version.inspect)]))
  | .moduleRef e => return some (opened "ModuleRef" (headParts e.rid e.name))
  | .file e => return some (opened "File" (headParts e.rid e.name ++ flagParts e.flags))
  | .exportedType e =>
    let name ← ExportedTypeId.fullName ⟨n.key⟩
    return some (opened "ExportedType"
      [("rid", toString e.rid), ("name", Text.Quoted.quote name),
        ("forwarder", truth (ExportedTypeFlags.isForwarder e.flags))])
  | .resource e =>
    return some (opened "ManifestResource" (headParts e.rid e.name ++ flagParts e.flags))
  | .constraint _ | .customAttribute _ | .constant _ | .implMap _ | .security _ => return none

/-- The outline of what a scope is. -/
def ResolutionScope.inspect : ResolutionScope → GraphM String
  | module m => do
    let g ← get
    let name := match g.upgrade m with
      | some m => (g.get m).name.lossy
      | none => "<dropped>"
    return tuple "Module" [name]
  | moduleRef r => do return tuple "ModuleRef" [((← get).get r).name.lossy]
  | assemblyRef r => do return tuple "AssemblyRef" [((← get).get r).name.lossy]
  | typeRef r => do return tuple "TypeRef" [← r.fullName]

/-- The outline of what a module is read through. -/
def ModuleId.inspectLoader (g : Graph) (m : ModuleId) : String :=
  let count (kind : Kind) := toString (m.materializedCount g (· == kind))
  option ((ModuleId.loader? g m).map fun loader =>
    opened "LoaderContext"
      [("policy", loader.policy.name), ("type_defs", count .typeDef),
        ("method_defs", count .methodDef)])

/-! ## Stores, caches and resolvers -/

/-- The outline of a store: the tables that have rows, and the sizes of heaps. -/
def Store.inspect (s : Store) : String :=
  let tables := TableId.all.filter fun t => s.rowCount t != 0
  opened "MemoryProvider"
    [("rows", list (tables.map fun t => tuple "" [t.name, toString (s.rowCount t)])),
      ("strings", toString s.strings.size), ("blobs", toString s.blobs.length)]

/-- The outline of a cache. -/
def AssemblyCache.inspect (c : AssemblyCache) : String :=
  record "AssemblyCache" [("assemblies", toString c.size)]

/-- The outline of the settings of a resolver. -/
def ResolverConfig.inspect (c : ResolverConfig) : String :=
  record "ResolverConfig"
    [("project_winmd_refs", truth c.project), ("max_forwarder_hops", toString c.maxHops)]

/-- The outline of a resolver. -/
def Resolver.inspect (r : Resolver) : String :=
  opened "Resolver"
    [("config", r.config.inspect), ("projection", truth r.projection.isSome)]

end CliMetadata
