import CliMetadata.Flags
import CliMetadata.Identity.Version
import CliMetadata.Token

/-!
# The rows of the tables

A structure for the columns of each table.  A column that refers to a heap holds
an offset or index into it, a column that refers to one table the number of a
row there, and one that may refer to several tables a coded index.  Every row
also records the number and the token it goes by, which need not agree with its
place in the table.
-/

namespace CliMetadata

/-- What a row is known by. -/
structure RowHead where
  rid : Nat
  token : Token
deriving Repr, DecidableEq

/-- A row of the module table. -/
structure ModuleRow extends RowHead where
  generation : Nat
  name : Nat
  mvid : Nat
deriving Repr, DecidableEq

/-- A row of the table of type references. -/
structure TypeRefRow extends RowHead where
  scope : CodedIndex
  name : Nat
  space : Nat
deriving Repr, DecidableEq

/-- A row of the table of types. -/
structure TypeDefRow extends RowHead where
  flags : Flags
  name : Nat
  space : Nat
  base : CodedIndex
deriving Repr, DecidableEq

/-- A row of the table of fields. -/
structure FieldRow extends RowHead where
  flags : Flags
  name : Nat
  signature : Nat
deriving Repr, DecidableEq

/-- A row of the table of methods. -/
structure MethodDefRow extends RowHead where
  rva : Nat
  implFlags : Flags
  flags : Flags
  name : Nat
  signature : Nat
deriving Repr, DecidableEq

/-- A row of the table of parameters. -/
structure ParamRow extends RowHead where
  flags : Flags
  sequence : Nat
  name : Nat
deriving Repr, DecidableEq

/-- A row of the table of member references. -/
structure MemberRefRow extends RowHead where
  parent : CodedIndex
  name : Nat
  signature : Nat
deriving Repr, DecidableEq

/-- A row of the table of constants. -/
structure ConstantRow extends RowHead where
  elementType : Nat
  parent : CodedIndex
  value : Nat
deriving Repr, DecidableEq

/-- A row of the table of custom attributes. -/
structure CustomAttributeRow extends RowHead where
  parent : CodedIndex
  constructor : CodedIndex
  value : Nat
deriving Repr, DecidableEq

/-- A row of the table of security declarations. -/
structure DeclSecurityRow extends RowHead where
  action : Nat
  parent : CodedIndex
  permissionSet : Nat
deriving Repr, DecidableEq

/-- A row of the table of events. -/
structure EventRow extends RowHead where
  flags : Flags
  name : Nat
  eventType : CodedIndex
deriving Repr, DecidableEq

/-- A row of the table of properties. -/
structure PropertyRow extends RowHead where
  flags : Flags
  name : Nat
  signature : Nat
deriving Repr, DecidableEq

/-- A row that says what a method does for a property or an event. -/
structure MethodSemanticsRow extends RowHead where
  semantics : Flags
  method : Nat
  association : CodedIndex
deriving Repr, DecidableEq

/-- A row that says which method a type overrides with which. -/
structure MethodImplRow extends RowHead where
  type : Nat
  body : CodedIndex
  declaration : CodedIndex
deriving Repr, DecidableEq

/-- A row of the table of module references. -/
structure ModuleRefRow extends RowHead where
  name : Nat
deriving Repr, DecidableEq

/-- A row of the table of type specifications. -/
structure TypeSpecRow extends RowHead where
  signature : Nat
deriving Repr, DecidableEq

/-- A row that says where a native method is imported from. -/
structure ImplMapRow extends RowHead where
  flags : Flags
  member : CodedIndex
  importName : Nat
  importScope : Nat
deriving Repr, DecidableEq

/-- A row of the assembly table. -/
structure AssemblyRow extends RowHead where
  hashAlgorithm : Nat
  version : AssemblyVersion
  flags : Flags
  publicKey : Nat
  name : Nat
  culture : Nat
deriving Repr, DecidableEq

/-- A row of the table of assembly references. -/
structure AssemblyRefRow extends RowHead where
  version : AssemblyVersion
  flags : Flags
  publicKeyOrToken : Nat
  name : Nat
  culture : Nat
  hashValue : Nat
deriving Repr, DecidableEq

/-- A row of the table of files. -/
structure FileRow extends RowHead where
  flags : Flags
  name : Nat
  hashValue : Nat
deriving Repr, DecidableEq

/-- A row of the table of exported types. -/
structure ExportedTypeRow extends RowHead where
  flags : Flags
  typeDefId : Nat
  name : Nat
  space : Nat
  implementation : CodedIndex
deriving Repr, DecidableEq

/-- A row of the table of resources. -/
structure ResourceRow extends RowHead where
  offset : Nat
  flags : Flags
  name : Nat
  implementation : CodedIndex
deriving Repr, DecidableEq

/-- A row of the table of generic parameters. -/
structure GenericParamRow extends RowHead where
  number : Nat
  flags : Flags
  owner : CodedIndex
  name : Nat
deriving Repr, DecidableEq

/-- A row of the table of instantiated methods. -/
structure MethodSpecRow extends RowHead where
  method : CodedIndex
  instantiation : Nat
deriving Repr, DecidableEq

/-- A row of the table of constraints on generic parameters. -/
structure ConstraintRow extends RowHead where
  param : Nat
  constraint : CodedIndex
deriving Repr, DecidableEq

/-- A row of any table that has rows here. -/
inductive Row where
  | module (row : ModuleRow)
  | typeRef (row : TypeRefRow)
  | typeDef (row : TypeDefRow)
  | field (row : FieldRow)
  | methodDef (row : MethodDefRow)
  | param (row : ParamRow)
  | memberRef (row : MemberRefRow)
  | constant (row : ConstantRow)
  | customAttribute (row : CustomAttributeRow)
  | declSecurity (row : DeclSecurityRow)
  | event (row : EventRow)
  | property (row : PropertyRow)
  | methodSemantics (row : MethodSemanticsRow)
  | methodImpl (row : MethodImplRow)
  | moduleRef (row : ModuleRefRow)
  | typeSpec (row : TypeSpecRow)
  | implMap (row : ImplMapRow)
  | assembly (row : AssemblyRow)
  | assemblyRef (row : AssemblyRefRow)
  | file (row : FileRow)
  | exportedType (row : ExportedTypeRow)
  | manifestResource (row : ResourceRow)
  | genericParam (row : GenericParamRow)
  | methodSpec (row : MethodSpecRow)
  | genericParamConstraint (row : ConstraintRow)
deriving Repr, DecidableEq

/-- What a row is known by. -/
def Row.head : Row → RowHead
  | module r => r.toRowHead
  | typeRef r => r.toRowHead
  | typeDef r => r.toRowHead
  | field r => r.toRowHead
  | methodDef r => r.toRowHead
  | param r => r.toRowHead
  | memberRef r => r.toRowHead
  | constant r => r.toRowHead
  | customAttribute r => r.toRowHead
  | declSecurity r => r.toRowHead
  | event r => r.toRowHead
  | property r => r.toRowHead
  | methodSemantics r => r.toRowHead
  | methodImpl r => r.toRowHead
  | moduleRef r => r.toRowHead
  | typeSpec r => r.toRowHead
  | implMap r => r.toRowHead
  | assembly r => r.toRowHead
  | assemblyRef r => r.toRowHead
  | file r => r.toRowHead
  | exportedType r => r.toRowHead
  | manifestResource r => r.toRowHead
  | genericParam r => r.toRowHead
  | methodSpec r => r.toRowHead
  | genericParamConstraint r => r.toRowHead

end CliMetadata
