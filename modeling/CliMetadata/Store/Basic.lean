import CliMetadata.DebugInfo
import CliMetadata.Identity.Assembly
import CliMetadata.Signature
import CliMetadata.Store.Rows
import CliMetadata.StringHeap

/-!
# A store of metadata

A store holds the rows of one module with the heaps they refer to, method
bodies, resource bytes and debug records.  It answers two sorts of questions
about the relations between rows: which rows belong to an owner (`children`),
and which owner a row belongs to (`parent?`).  Six relations are kept as
**links** in the order in which they were made; the first link of a row decides
its parent.  The others are read off columns.
-/

namespace CliMetadata

/-- The relations between an owner and the rows that belong to it. -/
inductive Relation where
  | typeDefs | nestedTypes | fields | methods | properties | events | params | genericParams
  | genericParamConstraints | customAttributes | constant | implMap | methodImpls
  | methodSemantics | exportedTypes | declSecurities | manifestResources
deriving Repr, DecidableEq

namespace Relation

/-- Every relation with its name. -/
def all : List (Relation × String) :=
  [(typeDefs, "TypeDefs"), (nestedTypes, "NestedTypes"), (fields, "Fields"),
    (methods, "Methods"), (properties, "Properties"), (events, "Events"), (params, "Params"),
    (genericParams, "GenericParams"), (genericParamConstraints, "GenericParamConstraints"),
    (customAttributes, "CustomAttributes"), (constant, "Constant"), (implMap, "ImplMap"),
    (methodImpls, "MethodImpls"), (methodSemantics, "MethodSemantics"),
    (exportedTypes, "ExportedTypes"), (declSecurities, "DeclSecurities"),
    (manifestResources, "ManifestResources")]

/-- Whether a row's owner can be asked for. -/
def isExplicit : Relation → Bool
  | typeDefs | nestedTypes | fields | methods | properties | events | params => true
  | _ => false

end Relation

/-- A row that belongs to an owner. -/
structure Link where
  relation : Relation
  owner : Token
  child : Token
deriving Repr, DecidableEq

/-- The code of a method. -/
structure MethodBody where
  maxStack : Nat
  initLocals : Bool
  locals : Token
  code : List UInt8
deriving Repr, DecidableEq

namespace MethodBody

/-- The token of a body that has no local variables. -/
def noLocals : Token := Token.ofParts .standAloneSig 0

instance : Inhabited MethodBody := ⟨⟨8, false, noLocals, []⟩⟩

/-- Whether a body has local variables. -/
def hasLocals (b : MethodBody) : Bool := b.locals.row.val != 0

end MethodBody

/-- An entry of the blob heap. -/
inductive Blob where
  | data (bytes : List UInt8)
  | signature (sig : Signature Token)
  | typeSig (sig : TypeSig Token)
deriving Repr

/-- A store of metadata. -/
structure Store where
  modules : List ModuleRow
  typeRefs : List TypeRefRow
  typeDefs : List TypeDefRow
  fields : List FieldRow
  methodDefs : List MethodDefRow
  params : List ParamRow
  memberRefs : List MemberRefRow
  constants : List ConstantRow
  customAttributes : List CustomAttributeRow
  declSecurities : List DeclSecurityRow
  events : List EventRow
  properties : List PropertyRow
  methodSemantics : List MethodSemanticsRow
  methodImpls : List MethodImplRow
  moduleRefs : List ModuleRefRow
  typeSpecs : List TypeSpecRow
  implMaps : List ImplMapRow
  assemblies : List AssemblyRow
  assemblyRefs : List AssemblyRefRow
  files : List FileRow
  exportedTypes : List ExportedTypeRow
  resources : List ResourceRow
  genericParams : List GenericParamRow
  methodSpecs : List MethodSpecRow
  constraints : List ConstraintRow
  strings : StringHeap
  blobs : List Blob
  guids : List Guid
  links : List Link
  /-- The bodies by address, the newest first. -/
  bodies : List (Nat × MethodBody)
  nextRva : Nat
  /-- The bytes of resources by offset, the newest first. -/
  resourceData : List (Nat × List UInt8)
  nextOffset : Nat
  debugInfos : List (Token × DebugInfo)

namespace Store

/-- The store without rows; the first body is to be placed at 0x2050. -/
def empty : Store :=
  ⟨[], [], [], [], [], [], [], [], [], [], [], [], [], [], [], [], [], [], [], [], [], [], [], [],
    [], StringHeap.empty, [], [], [], [], 0x2050, [], 0, []⟩

instance : Inhabited Store := ⟨empty⟩

/-- The entry with a number counted from one. -/
def nth {α : Type} (rows : List α) (rid : Nat) : Option α :=
  if rid = 0 then none else rows[rid - 1]?

/-- The rows of a table. -/
def rows (s : Store) : TableId → List Row
  | .module => s.modules.map .module
  | .typeRef => s.typeRefs.map .typeRef
  | .typeDef => s.typeDefs.map .typeDef
  | .field => s.fields.map .field
  | .methodDef => s.methodDefs.map .methodDef
  | .param => s.params.map .param
  | .memberRef => s.memberRefs.map .memberRef
  | .constant => s.constants.map .constant
  | .customAttribute => s.customAttributes.map .customAttribute
  | .declSecurity => s.declSecurities.map .declSecurity
  | .standAloneSig => []
  | .event => s.events.map .event
  | .property => s.properties.map .property
  | .methodSemantics => s.methodSemantics.map .methodSemantics
  | .methodImpl => s.methodImpls.map .methodImpl
  | .moduleRef => s.moduleRefs.map .moduleRef
  | .typeSpec => s.typeSpecs.map .typeSpec
  | .implMap => s.implMaps.map .implMap
  | .assembly => s.assemblies.map .assembly
  | .assemblyRef => s.assemblyRefs.map .assemblyRef
  | .file => s.files.map .file
  | .exportedType => s.exportedTypes.map .exportedType
  | .manifestResource => s.resources.map .manifestResource
  | .genericParam => s.genericParams.map .genericParam
  | .methodSpec => s.methodSpecs.map .methodSpec
  | .genericParamConstraint => s.constraints.map .genericParamConstraint

/-- How many rows a table has. -/
def rowCount (s : Store) (table : TableId) : Nat := (s.rows table).length

/-- The row of a table at a place counted from one. -/
def row? (s : Store) (table : TableId) (rid : Nat) : Option Row := nth (s.rows table) rid

/-- The name at an offset of the string heap; an offset beyond it names nothing. -/
def string (s : Store) (offset : Nat) : Name := (s.strings.get? offset).getD Name.empty

/-- The bytes of an entry of the blob heap; entry zero is empty, and a signature
has no bytes. -/
def blob? (s : Store) (index : Nat) : Option (List UInt8) :=
  if index = 0 then some []
  else match nth s.blobs index with
    | some (.data bytes) => some bytes
    | _ => none

/-- The bytes of an entry of the blob heap, none where there is no such entry. -/
def blob (s : Store) (index : Nat) : List UInt8 := (s.blob? index).getD []

/-- The GUID with an index. -/
def guid? (s : Store) (index : Nat) : Option Guid := nth s.guids index

/-- The signature with an index in the blob heap. -/
def signature? (s : Store) (index : Nat) : Option (Signature Token) :=
  match nth s.blobs index with
  | some (.signature sig) => some sig
  | _ => none

/-- The type signature with an index in the blob heap. -/
def typeSig? (s : Store) (index : Nat) : Option (TypeSig Token) :=
  match nth s.blobs index with
  | some (.typeSig sig) => some sig
  | _ => none

/-- The body at an address. -/
def body? (s : Store) (rva : Nat) : Option MethodBody := s.bodies.lookup rva

/-- The bytes of the resource at an offset. -/
def resource? (s : Store) (offset : Nat) : Option (List UInt8) := s.resourceData.lookup offset

/-- The debug records of a row. -/
def debugInfosOf (s : Store) (token : Token) : List DebugInfo :=
  (s.debugInfos.filter fun entry => entry.1 == token).map (·.2)

/-! ## Relations -/

/-- The token of a store's module. -/
def moduleToken : Token := Token.ofParts .module 1

/-- The first owner that a row was linked to. -/
def linkedOwner? (s : Store) (relation : Relation) (child : Token) : Option Token :=
  (s.links.find? fun l => l.relation == relation && l.child == child).map (·.owner)

/-- The rows linked to an owner, in the order of the links. -/
def linkedChildren (s : Store) (relation : Relation) (owner : Token) : List Nat :=
  (s.links.filter fun l => l.relation == relation && l.owner == owner).map (·.child.row.val)

/-- Whether a type is nested in no other. -/
def isTopLevel (s : Store) (type : Token) : Bool := (s.linkedOwner? .nestedTypes type).isNone

/-- The numbers of the rows that belong to an owner. -/
def children (s : Store) (relation : Relation) (owner : Token) : List Nat :=
  match relation with
  | .typeDefs =>
    if owner = moduleToken then (s.typeDefs.filter fun r => s.isTopLevel r.token).map (·.rid)
    else []
  | .exportedTypes => if owner = moduleToken then s.exportedTypes.map (·.rid) else []
  | .manifestResources => if owner = moduleToken then s.resources.map (·.rid) else []
  | .declSecurities =>
    (s.declSecurities.filter fun r => r.parent.token == owner).map (·.rid)
  | .genericParams => (s.genericParams.filter fun r => r.owner.token == owner).map (·.rid)
  | .genericParamConstraints =>
    (s.constraints.filter fun r => Token.ofParts .genericParam r.param == owner).map (·.rid)
  | .customAttributes =>
    (s.customAttributes.filter fun r => r.parent.token == owner).map (·.rid)
  | .constant => (s.constants.filter fun r => r.parent.token == owner).map (·.rid)
  | .implMap => (s.implMaps.filter fun r => r.member.token == owner).map (·.rid)
  | .methodImpls =>
    (s.methodImpls.filter fun r => Token.ofParts .typeDef r.type == owner).map (·.rid)
  | .methodSemantics =>
    (s.methodSemantics.filter fun r => r.association.token == owner).map (·.rid)
  | .nestedTypes | .fields | .methods | .properties | .events | .params =>
    s.linkedChildren relation owner

/-- The owner that a row belongs to, for the relations that can be asked. -/
def parent? (s : Store) (relation : Relation) (child : Token) : Option Token :=
  match relation with
  | .typeDefs =>
    if child.tableId? = some .typeDef ∧ (nth s.typeDefs child.row.val).isSome
        ∧ s.isTopLevel child ∧ (nth s.modules 1).isSome then some moduleToken
    else none
  | _ => if relation.isExplicit then s.linkedOwner? relation child else none

end Store
end CliMetadata
