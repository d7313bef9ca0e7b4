import CliMetadata.Index
import CliMetadata.Slot
import CliMetadata.Store.Basic

/-!
# The entities of a metadata graph

An entity is known by its kind and its **key**.  A key is either a number given
out when the entity was made, or the place of the row that the entity stands
for: all references to one row of one loaded module meet in one entity, so its
key needs no number of its own.

The structures here hold what is an entity's own: its columns, and the slots
(`Slot`) whose values are read from the store on demand.  Which entity is in
which container, and the attributes and security declarations of an entity, are
kept by the graph for all kinds alike.
-/

namespace CliMetadata

/-- A value that is read on demand: nothing until it has been read or set. -/
abbrev Slot (α : Type) := Option α

/-- The kinds of entities. -/
inductive Kind where
  | module | assembly | typeDef | typeRef | typeSpec | field | methodDef | param | property
  | event | memberRef | methodSpec | genericParam | constraint | assemblyRef | moduleRef | file
  | exportedType | resource | customAttribute | constant | implMap | security
deriving Repr, DecidableEq

namespace Kind

/-- The table that entities of a kind have their tokens in. -/
def table : Kind → TableId
  | module => .module
  | assembly => .assembly
  | typeDef => .typeDef
  | typeRef => .typeRef
  | typeSpec => .typeSpec
  | field => .field
  | methodDef => .methodDef
  | param => .param
  | property => .property
  | event => .event
  | memberRef => .memberRef
  | methodSpec => .methodSpec
  | genericParam => .genericParam
  | constraint => .genericParamConstraint
  | assemblyRef => .assemblyRef
  | moduleRef => .moduleRef
  | file => .file
  | exportedType => .exportedType
  | resource => .manifestResource
  | customAttribute => .customAttribute
  | constant => .constant
  | implMap => .implMap
  | security => .declSecurity

/-- Whether entities of a kind can carry attributes. -/
def hasAttributes : Kind → Bool
  | customAttribute | constant | implMap => false
  | _ => true

/-- Whether entities of a kind can carry security declarations. -/
def hasSecurities : Kind → Bool
  | assembly | typeDef | methodDef => true
  | _ => false

end Kind

/-- What tells the entities of a kind apart. -/
inductive Key where
  /-- The entity made under a number. -/
  | built (number : Nat)
  /-- The entity of the row at a place, in the module made under the number
  `loader`. -/
  | row (loader place : Nat)
deriving Repr, DecidableEq

instance : Coded Key where
  code
    | .built number => [0, number]
    | .row loader place => [1, loader, place]
  order
    | .built a, .built b => compare a b
    | .built _, .row _ _ => .lt
    | .row _ _, .built _ => .gt
    | .row l p, .row l' p' => (compare l l').then (compare p p')
  code_inj {a b} h := by cases a <;> cases b <;> simp_all
  order_eq a b := by cases a <;> cases b <;> simp [List.compare_cons_cons] <;> rfl

/-- An entity of a kind. -/
structure Id (k : Kind) where
  key : Key
deriving Repr, DecidableEq

/-- An entity of any kind. -/
@[ext] structure Node where
  kind : Kind
  key : Key
deriving Repr, DecidableEq

instance : Coded Node where
  code n := n.kind.ctorIdx :: Coded.code n.key
  order a b := (compare a.kind.ctorIdx b.kind.ctorIdx).then (Coded.order a.key b.key)
  code_inj {a b} h := by
    obtain ⟨hk, hn⟩ := List.cons.inj h
    have hk := congrArg Kind.ofNat hk
    simp only [Kind.ofNat_ctorIdx] at hk
    exact Node.ext hk (Coded.code_inj hn)
  order_eq a b := by rw [List.compare_cons_cons, Coded.order_eq]

/-- An entity, with its kind forgotten. -/
def Id.node {k : Kind} (id : Id k) : Node := ⟨k, id.key⟩

theorem Id.node_inj {k : Kind} {a b : Id k} (h : a.node = b.node) : a = b := by
  have hkey : a.key = b.key := congrArg Node.key h
  obtain ⟨key⟩ := a
  obtain rfl : key = b.key := hkey
  rfl

abbrev ModuleId := Id .module
abbrev AssemblyId := Id .assembly
abbrev TypeDefId := Id .typeDef
abbrev TypeRefId := Id .typeRef
abbrev TypeSpecId := Id .typeSpec
abbrev FieldId := Id .field
abbrev MethodDefId := Id .methodDef
abbrev ParamId := Id .param
abbrev PropertyId := Id .property
abbrev EventId := Id .event
abbrev MemberRefId := Id .memberRef
abbrev MethodSpecId := Id .methodSpec
abbrev GenericParamId := Id .genericParam
abbrev ConstraintId := Id .constraint
abbrev AssemblyRefId := Id .assemblyRef
abbrev ModuleRefId := Id .moduleRef
abbrev FileId := Id .file
abbrev ExportedTypeId := Id .exportedType
abbrev ResourceId := Id .resource
abbrev CustomAttributeId := Id .customAttribute
abbrev ConstantId := Id .constant
abbrev ImplMapId := Id .implMap
abbrev SecurityId := Id .security

/-! ## References to one of several kinds -/

/-- A reference to a type. -/
inductive TypeDefOrRef where
  | typeDef (id : TypeDefId)
  | typeRef (id : TypeRefId)
  | typeSpec (id : TypeSpecId)
deriving Repr, DecidableEq

/-- Where a referenced type is to be looked for. -/
inductive ResolutionScope where
  | module (id : ModuleId)
  | moduleRef (id : ModuleRefId)
  | assemblyRef (id : AssemblyRefId)
  | typeRef (id : TypeRefId)
deriving Repr, DecidableEq

/-- Where a referenced member is to be looked for. -/
inductive MemberParent where
  | typeDef (id : TypeDefId)
  | typeRef (id : TypeRefId)
  | typeSpec (id : TypeSpecId)
  | moduleRef (id : ModuleRefId)
  | methodDef (id : MethodDefId)
deriving Repr, DecidableEq

/-- A reference to a method. -/
inductive MethodDefOrRef where
  | methodDef (id : MethodDefId)
  | memberRef (id : MemberRefId)
deriving Repr, DecidableEq

/-- Where an exported type or a resource is kept. -/
inductive Implementation where
  | file (id : FileId)
  | assemblyRef (id : AssemblyRefId)
  | exportedType (id : ExportedTypeId)
deriving Repr, DecidableEq

/-- A member that a reference has been resolved to. -/
inductive MemberDef where
  | method (id : MethodDefId)
  | field (id : FieldId)
deriving Repr, DecidableEq

/-- The entity referred to. -/
def TypeDefOrRef.node : TypeDefOrRef → Node
  | typeDef id => id.node
  | typeRef id => id.node
  | typeSpec id => id.node

/-- The entity referred to. -/
def ResolutionScope.node : ResolutionScope → Node
  | module id => id.node
  | moduleRef id => id.node
  | assemblyRef id => id.node
  | typeRef id => id.node

/-- The entity referred to. -/
def MemberParent.node : MemberParent → Node
  | typeDef id => id.node
  | typeRef id => id.node
  | typeSpec id => id.node
  | moduleRef id => id.node
  | methodDef id => id.node

/-- The entity referred to. -/
def MethodDefOrRef.node : MethodDefOrRef → Node
  | methodDef id => id.node
  | memberRef id => id.node

/-- The entity referred to. -/
def Implementation.node : Implementation → Node
  | file id => id.node
  | assemblyRef id => id.node
  | exportedType id => id.node

/-- The entity found. -/
def MemberDef.node : MemberDef → Node
  | method id => id.node
  | field id => id.node

/-- The signature of a type, over entities. -/
abbrev Sig := TypeSig TypeDefOrRef

/-! ## What is an entity's own -/

/-- Where an entity comes from. -/
inductive Origin where
  /-- It was made in memory. -/
  | inMemory
  /-- It stands for the row of a number, in the module made under the number
  `loader`. -/
  | row (loader rid : Nat)
deriving Repr, DecidableEq

instance : Inhabited Origin := ⟨.inMemory⟩

namespace Origin

/-- Whether the entity stands for a row. -/
def isMaterialized : Origin → Bool
  | row _ _ => true
  | inMemory => false

/-- The number of the row. -/
def rid? : Origin → Option Nat
  | row _ rid => some rid
  | inMemory => none

end Origin

/-- What a module reads its rows from, and how first reads are protected. -/
structure Loader where
  store : Store
  policy : InitPolicy

/-- A module. -/
structure Module where
  rid : Nat
  origin : Origin
  name : Name
  mvid : Guid
  loader : Option Loader
  exportedTypes : Slot (List ExportedTypeId)
  resources : Slot (List ResourceId)

/-- An assembly. -/
structure Assembly where
  rid : Nat
  origin : Origin
  identity : AssemblyIdentity
  hashAlgorithm : HashAlgorithm
  flags : Flags
deriving Repr

/-- A type. -/
structure TypeDef where
  rid : Nat
  origin : Origin
  flags : Flags
  space : Name
  name : Name
  base : Slot (Option TypeDefOrRef)
deriving Repr

/-- A reference to a type of some module. -/
structure TypeRef where
  rid : Nat
  origin : Origin
  module : ModuleId
  space : Name
  name : Name
  scope : Slot (Option ResolutionScope)
deriving Repr

/-- A type given by its signature. -/
structure TypeSpec where
  rid : Nat
  origin : Origin
  sig : Slot (Option Sig)
deriving Repr

/-- A field. -/
structure Field where
  rid : Nat
  origin : Origin
  flags : Flags
  name : Name
  sig : Slot (Option Sig)
  constant : Slot (Option ConstantId)
deriving Repr

/-- A method that overrides another. -/
structure MethodOverride where
  body : MethodDefOrRef
  declaration : MethodDefOrRef
deriving Repr, DecidableEq

/-- A method. -/
structure MethodDef where
  rid : Nat
  origin : Origin
  rva : Nat
  implFlags : Flags
  flags : Flags
  name : Name
  sig : Slot (Option (MethodSig TypeDefOrRef))
  body : Slot (Option MethodBody)
  implMap : Slot (Option ImplMapId)
  semantics : Slot Flags
  overrides : Slot (List MethodOverride)
  debugInfos : Slot (List DebugInfo)
deriving Repr

/-- A parameter of a method. -/
structure Param where
  rid : Nat
  origin : Origin
  flags : Flags
  sequence : Nat
  name : Name
  constant : Slot (Option ConstantId)
deriving Repr

/-- The methods that make up a property. -/
structure PropertyAccessors where
  getters : List MethodDefId
  setters : List MethodDefId
  others : List MethodDefId
deriving Repr, DecidableEq

instance : Inhabited PropertyAccessors := ⟨⟨[], [], []⟩⟩

/-- A property. -/
structure Property where
  rid : Nat
  origin : Origin
  flags : Flags
  name : Name
  sig : Slot (Option (PropertySig TypeDefOrRef))
  accessors : Slot PropertyAccessors
  constant : Slot (Option ConstantId)
deriving Repr

/-- The methods that make up an event. -/
structure EventAccessors where
  add : Option MethodDefId
  remove : Option MethodDefId
  fire : Option MethodDefId
  others : List MethodDefId
deriving Repr, DecidableEq

instance : Inhabited EventAccessors := ⟨⟨none, none, none, []⟩⟩

/-- An event. -/
structure Event where
  rid : Nat
  origin : Origin
  flags : Flags
  name : Name
  eventType : Slot (Option TypeDefOrRef)
  accessors : Slot EventAccessors
deriving Repr

/-- A reference to a member. -/
structure MemberRef where
  rid : Nat
  origin : Origin
  module : ModuleId
  name : Name
  parent : Slot (Option MemberParent)
  sig : Slot (Option (Signature TypeDefOrRef))
deriving Repr

/-- A generic method with its arguments. -/
structure MethodSpec where
  rid : Nat
  origin : Origin
  method : Slot (Option MethodDefOrRef)
  args : Slot (Option (List Sig))
deriving Repr

/-- A generic parameter. -/
structure GenericParam where
  rid : Nat
  origin : Origin
  number : Nat
  flags : Flags
  name : Name
  constraints : Slot (List ConstraintId)
deriving Repr

/-- A constraint on a generic parameter. -/
structure Constraint where
  rid : Nat
  token : Token
  constraint : Option TypeDefOrRef
deriving Repr

/-- A reference to an assembly. -/
structure AssemblyRef where
  rid : Nat
  token : Token
  name : Name
  version : AssemblyVersion
  culture : Option String
  strongName : Option StrongName
  flags : Flags
  hashValue : List UInt8
deriving Repr

/-- A reference to a module of the same assembly. -/
structure ModuleRef where
  rid : Nat
  token : Token
  name : Name
deriving Repr

/-- A file of an assembly. -/
structure File where
  rid : Nat
  token : Token
  flags : Flags
  name : Name
  hashValue : List UInt8
deriving Repr

/-- A type that a module exports from elsewhere. -/
structure ExportedType where
  rid : Nat
  origin : Origin
  module : ModuleId
  flags : Flags
  typeDefId : Nat
  space : Name
  name : Name
  implementation : Slot (Option Implementation)
deriving Repr

/-- A resource. -/
structure Resource where
  rid : Nat
  origin : Origin
  offset : Nat
  flags : Flags
  name : Name
  implementation : Slot (Option Implementation)
  data : Slot (Option (List UInt8))
deriving Repr

/-- A custom attribute. -/
structure CustomAttribute where
  rid : Nat
  token : Token
  constructor : Option MethodDefOrRef
  value : List UInt8
deriving Repr

/-- A constant value. -/
structure Constant where
  rid : Nat
  token : Token
  elementType : Nat
  value : List UInt8
deriving Repr

/-- Where a native method is imported from. -/
structure ImplMap where
  rid : Nat
  token : Token
  flags : Flags
  name : Name
  scope : Option ModuleRefId
deriving Repr

/-- A security declaration. -/
structure DeclSecurity where
  rid : Nat
  token : Token
  action : Nat
  permissionSet : List UInt8
deriving Repr

/-- What is an entity's own, for any kind. -/
inductive Entity where
  | module (e : Module)
  | assembly (e : Assembly)
  | typeDef (e : TypeDef)
  | typeRef (e : TypeRef)
  | typeSpec (e : TypeSpec)
  | field (e : Field)
  | methodDef (e : MethodDef)
  | param (e : Param)
  | property (e : Property)
  | event (e : Event)
  | memberRef (e : MemberRef)
  | methodSpec (e : MethodSpec)
  | genericParam (e : GenericParam)
  | constraint (e : Constraint)
  | assemblyRef (e : AssemblyRef)
  | moduleRef (e : ModuleRef)
  | file (e : File)
  | exportedType (e : ExportedType)
  | resource (e : Resource)
  | customAttribute (e : CustomAttribute)
  | constant (e : Constant)
  | implMap (e : ImplMap)
  | security (e : DeclSecurity)

namespace AssemblyRef

/-- The identity that is asked for. -/
def identity (r : AssemblyRef) : AssemblyIdentity :=
  AssemblyIdentity.make r.name.lossy r.version r.culture r.strongName

/-- Whether the assembly holds Windows Runtime types. -/
def isWindowsRuntime (r : AssemblyRef) : Bool :=
  r.flags &&& AssemblyFlags.contentMask == AssemblyFlags.windowsRuntime

end AssemblyRef

namespace DeclSecurity

/-- The action declared, where its number is that of one. -/
def securityAction? (s : DeclSecurity) : Option SecurityAction :=
  SecurityAction.ofNumber? s.action

/-- Whether the permission set is in the binary format, which begins with a dot. -/
def isBinary (s : DeclSecurity) : Bool := s.permissionSet.head? == some 46

end DeclSecurity
end CliMetadata
