import CliMetadata.Graph.Ownership

/-!
# Entities made in memory

An entity made here stands for no row.  Its slots are all filled from the start,
so nothing is ever read for it, and it is in no container.  A new module has one
type, the global one; everything else is empty.
-/

namespace CliMetadata

/-- The name of the type that holds the global members of a module. -/
def globalTypeName : Name := .ofString "<Module>"

/-- Makes a type. -/
def makeTypeDef (space name : Name) (flags : Flags) : GraphM TypeDefId :=
  make .typeDef ⟨0, .inMemory, flags, space, name, some none⟩

/-- Makes a module with its global type. -/
def makeModule (name : Name) : GraphM ModuleId := do
  let m ← make .module ⟨0, .inMemory, name, Guid.zero, none, some [], some []⟩
  let global ← makeTypeDef .empty globalTypeName 0
  let _ ← Ownership.add .moduleTypes m.node global.key
  return m

/-- Makes an assembly without modules. -/
def makeAssembly (identity : AssemblyIdentity) : GraphM AssemblyId :=
  make .assembly ⟨0, .inMemory, identity, HashAlgorithm.sha1, 0⟩

/-- Makes a reference to a type. -/
def makeTypeRef (module : ModuleId) (space name : Name) (scope : Option ResolutionScope) :
    GraphM TypeRefId :=
  make .typeRef ⟨0, .inMemory, module, space, name, some scope⟩

/-- Makes a type specification. -/
def makeTypeSpec (sig : Sig) : GraphM TypeSpecId :=
  make .typeSpec ⟨0, .inMemory, some (some sig)⟩

/-! ## Members -/

/-- Makes a field. -/
def makeField (name : Name) (flags : Flags) (sig : Option Sig) : GraphM FieldId :=
  make .field ⟨0, .inMemory, flags, name, some sig, some none⟩

/-- Makes a method without a body. -/
def makeMethodDef (name : Name) (flags : Flags) (sig : Option (MethodSig TypeDefOrRef)) :
    GraphM MethodDefId :=
  make .methodDef ⟨0, .inMemory, 0, 0, flags, name, some sig, some none, some none, some 0,
    some [], some []⟩

/-- Makes a parameter. -/
def makeParam (name : Name) (sequence : Nat) (flags : Flags) : GraphM ParamId :=
  make .param ⟨0, .inMemory, flags, sequence, name, some none⟩

/-- Makes a property without accessors. -/
def makeProperty (name : Name) (flags : Flags) (sig : Option (PropertySig TypeDefOrRef)) :
    GraphM PropertyId :=
  make .property ⟨0, .inMemory, flags, name, some sig, some default, some none⟩

/-- Makes an event without accessors. -/
def makeEvent (name : Name) (flags : Flags) (eventType : Option TypeDefOrRef) : GraphM EventId :=
  make .event ⟨0, .inMemory, flags, name, some eventType, some default⟩

/-- Makes a reference to a member. -/
def makeMemberRef (module : ModuleId) (name : Name) (parent : Option MemberParent)
    (sig : Option (Signature TypeDefOrRef)) : GraphM MemberRefId :=
  make .memberRef ⟨0, .inMemory, module, name, some parent, some sig⟩

/-- Makes an instantiated method. -/
def makeMethodSpec (method : MethodDefOrRef) (args : List Sig) : GraphM MethodSpecId :=
  make .methodSpec ⟨0, .inMemory, some (some method), some (some args)⟩

/-- Makes a generic parameter without constraints. -/
def makeGenericParam (name : Name) (number : Nat) (flags : Flags) : GraphM GenericParamId :=
  make .genericParam ⟨0, .inMemory, number, flags, name, some []⟩

/-- Makes a constraint on a generic parameter. -/
def makeConstraint (constraint : TypeDefOrRef) : GraphM ConstraintId :=
  make .constraint ⟨0, Token.ofParts .genericParamConstraint 0, some constraint⟩

/-! ## What lies outside a module -/

/-- Makes a reference to an assembly of an identity. -/
def makeAssemblyRef (identity : AssemblyIdentity) (flags : Flags) : GraphM AssemblyRefId :=
  make .assemblyRef ⟨0, Token.ofParts .assemblyRef 0, .ofString identity.name, identity.version,
    identity.culture, identity.strongName,
    AssemblyFlags.withKey (identity.strongName.any StrongName.isKey) flags, []⟩

/-- Makes a reference to a module of the same assembly. -/
def makeModuleRef (name : Name) : GraphM ModuleRefId :=
  make .moduleRef ⟨0, Token.ofParts .moduleRef 0, name⟩

/-- Makes a file of an assembly. -/
def makeFile (name : Name) (flags : Flags) : GraphM FileId :=
  make .file ⟨0, Token.ofParts .file 0, flags, name, []⟩

/-- Makes an exported type. -/
def makeExportedType (module : ModuleId) (space name : Name) (flags : Flags)
    (implementation : Option Implementation) : GraphM ExportedTypeId :=
  make .exportedType ⟨0, .inMemory, module, flags, 0, space, name, some implementation⟩

/-- Makes a resource that is kept in the module itself. -/
def makeEmbeddedResource (name : Name) (data : List UInt8) (flags : Flags) : GraphM ResourceId :=
  make .resource ⟨0, .inMemory, 0, flags, name, some none, some (some data)⟩

/-- Makes a resource that is kept elsewhere. -/
def makeLinkedResource (name : Name) (implementation : Implementation) (flags : Flags) :
    GraphM ResourceId :=
  make .resource ⟨0, .inMemory, 0, flags, name, some (some implementation), some none⟩

/-! ## What entities carry -/

/-- Makes a custom attribute. -/
def makeCustomAttribute (constructor : MethodDefOrRef) (value : List UInt8) :
    GraphM CustomAttributeId :=
  make .customAttribute ⟨0, Token.ofParts .customAttribute 0, some constructor, value⟩

/-- Makes a constant. -/
def makeConstant (elementType : Nat) (value : List UInt8) : GraphM ConstantId :=
  make .constant ⟨0, Token.ofParts .constant 0, elementType, value⟩

/-- Makes a record of where a native method is imported from. -/
def makeImplMap (scope : ModuleRefId) (name : Name) (flags : Flags) : GraphM ImplMapId :=
  make .implMap ⟨0, Token.ofParts .implMap 0, flags, name, some scope⟩

/-- Makes a security declaration. -/
def makeDeclSecurity (action : SecurityAction) (permissionSet : List UInt8) : GraphM SecurityId :=
  make .security ⟨0, Token.ofParts .declSecurity 0, action.number, permissionSet⟩

end CliMetadata
