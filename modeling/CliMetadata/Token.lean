import CliMetadata.Text.Hex

/-!
# Tables, tokens and coded indices

A row of a metadata table is named by a **token**: the number of the table in
the top byte and the row's number in the other three.  A **coded index** names a
row of one of a few tables, and `CodedKind.tables` lists which tables each kind
of coded index allows.
-/

namespace CliMetadata

/-- The tables of a module. -/
inductive TableId where
  | module | typeRef | typeDef | field | methodDef | param | memberRef | constant
  | customAttribute | declSecurity | standAloneSig | event | property | methodSemantics
  | methodImpl | moduleRef | typeSpec | implMap | assembly | assemblyRef | file | exportedType
  | manifestResource | genericParam | methodSpec | genericParamConstraint
deriving Repr, DecidableEq, Inhabited

namespace TableId

/-- The number of a table. -/
def byte : TableId → Fin 256
  | module => 0x00
  | typeRef => 0x01
  | typeDef => 0x02
  | field => 0x04
  | methodDef => 0x06
  | param => 0x08
  | memberRef => 0x0A
  | constant => 0x0B
  | customAttribute => 0x0C
  | declSecurity => 0x0E
  | standAloneSig => 0x11
  | event => 0x14
  | property => 0x17
  | methodSemantics => 0x18
  | methodImpl => 0x19
  | moduleRef => 0x1A
  | typeSpec => 0x1B
  | implMap => 0x1C
  | assembly => 0x20
  | assemblyRef => 0x23
  | file => 0x26
  | exportedType => 0x27
  | manifestResource => 0x28
  | genericParam => 0x2A
  | methodSpec => 0x2B
  | genericParamConstraint => 0x2C

/-- Every table, by number. -/
def all : List TableId :=
  [module, typeRef, typeDef, field, methodDef, param, memberRef, constant, customAttribute,
    declSecurity, standAloneSig, event, property, methodSemantics, methodImpl, moduleRef,
    typeSpec, implMap, assembly, assemblyRef, file, exportedType, manifestResource, genericParam,
    methodSpec, genericParamConstraint]

/-- The table with a number. -/
def ofByte? (b : Fin 256) : Option TableId := all.find? fun t => t.byte == b

/-- The table with a number, of which only the low byte counts. -/
def ofNumber? (n : Nat) : Option TableId := ofByte? (Fin.ofNat 256 n)

/-- The name of a table. -/
def name : TableId → String
  | module => "Module"
  | typeRef => "TypeRef"
  | typeDef => "TypeDef"
  | field => "Field"
  | methodDef => "MethodDef"
  | param => "Param"
  | memberRef => "MemberRef"
  | constant => "Constant"
  | customAttribute => "CustomAttribute"
  | declSecurity => "DeclSecurity"
  | standAloneSig => "StandAloneSig"
  | event => "Event"
  | property => "Property"
  | methodSemantics => "MethodSemantics"
  | methodImpl => "MethodImpl"
  | moduleRef => "ModuleRef"
  | typeSpec => "TypeSpec"
  | implMap => "ImplMap"
  | assembly => "Assembly"
  | assemblyRef => "AssemblyRef"
  | file => "File"
  | exportedType => "ExportedType"
  | manifestResource => "ManifestResource"
  | genericParam => "GenericParam"
  | methodSpec => "MethodSpec"
  | genericParamConstraint => "GenericParamConstraint"

theorem ofByte?_byte (t : TableId) : ofByte? t.byte = some t := by cases t <;> rfl

end TableId

/-- The number of rows a token can tell apart. -/
abbrev rowLimit : Nat := 0x1000000

/-- The name of a row: a table byte and a row number below `rowLimit`. -/
structure Token where
  table : Fin 256
  row : Fin rowLimit
deriving Repr, DecidableEq

namespace Token

/-- The token of a row.  Of a row number from `rowLimit` on, only the low three
bytes are kept. -/
def ofParts (table : TableId) (rid : Nat) : Token := ⟨table.byte, Fin.ofNat rowLimit rid⟩

/-- The token with a 32-bit value. -/
def ofValue (v : Nat) : Token := ⟨Fin.ofNat 256 (v / rowLimit), Fin.ofNat rowLimit v⟩

/-- The 32-bit value. -/
def value (t : Token) : Nat := t.table.val * rowLimit + t.row.val

/-- The token with value zero. -/
def null : Token := ⟨0, 0⟩

instance : Inhabited Token := ⟨null⟩

/-- Whether the value is zero. -/
def isNull (t : Token) : Bool := t == null

/-- The table the token names, if its byte is the number of one. -/
def tableId? (t : Token) : Option TableId := TableId.ofByte? t.table

/-- The value as eight hexadecimal digits. -/
def display (t : Token) : String := "0x" ++ Text.Hex.padded 8 t.value

/-- The value taken apart. -/
def debug (t : Token) : String :=
  "Token(" ++ t.display ++ ", table: 0x" ++ Text.Hex.padded 2 t.table.val ++ ", row: "
    ++ toString t.row.val ++ ")"

/-- Tokens are ordered by value. -/
def compare (a b : Token) : Ordering := Ord.compare a.value b.value

@[simp] theorem ofParts_table (t : TableId) (rid : Nat) : (ofParts t rid).table = t.byte := rfl

@[simp] theorem ofParts_row (t : TableId) (rid : Nat) :
    (ofParts t rid).row.val = rid % rowLimit := rfl

end Token

/-- The places in the tables that may refer to several tables. -/
inductive CodedKind where
  | typeDefOrRef | hasConstant | memberRefParent | hasSemantics | hasDeclSecurity
  | methodDefOrRef | memberForwarded | implementation | customAttributeType | resolutionScope
  | typeOrMethodDef
deriving Repr, DecidableEq

namespace CodedKind

/-- Every kind. -/
def all : List CodedKind :=
  [typeDefOrRef, hasConstant, memberRefParent, hasSemantics, hasDeclSecurity, methodDefOrRef,
    memberForwarded, implementation, customAttributeType, resolutionScope, typeOrMethodDef]

/-- The name of a kind. -/
def name : CodedKind → String
  | typeDefOrRef => "TypeDefOrRef"
  | hasConstant => "HasConstant"
  | memberRefParent => "MemberRefParent"
  | hasSemantics => "HasSemantics"
  | hasDeclSecurity => "HasDeclSecurity"
  | methodDefOrRef => "MethodDefOrRef"
  | memberForwarded => "MemberForwarded"
  | implementation => "Implementation"
  | customAttributeType => "CustomAttributeType"
  | resolutionScope => "ResolutionScope"
  | typeOrMethodDef => "TypeOrMethodDef"

/-- The tables a kind allows. -/
def tables : CodedKind → List TableId
  | typeDefOrRef => [.typeDef, .typeRef, .typeSpec]
  | hasConstant => [.field, .param, .property]
  | memberRefParent => [.typeDef, .typeRef, .moduleRef, .methodDef, .typeSpec]
  | hasSemantics => [.event, .property]
  | hasDeclSecurity => [.typeDef, .methodDef, .assembly]
  | methodDefOrRef => [.methodDef, .memberRef]
  | memberForwarded => [.field, .methodDef]
  | implementation => [.file, .assemblyRef, .exportedType]
  | customAttributeType => [.methodDef, .memberRef]
  | resolutionScope => [.module, .moduleRef, .assemblyRef, .typeRef]
  | typeOrMethodDef => [.typeDef, .methodDef]

end CodedKind

/-- A reference to a row of some table; the reference to row zero is null. -/
structure CodedIndex where
  tag : TableId
  row : Nat
deriving Repr, DecidableEq

namespace CodedIndex

/-- The reference to nothing. -/
def null : CodedIndex := ⟨.module, 0⟩

instance : Inhabited CodedIndex := ⟨null⟩

/-- Whether the reference is to row zero. -/
def isNull (c : CodedIndex) : Bool := c.row == 0

/-- The token of the row referred to. -/
def token (c : CodedIndex) : Token := Token.ofParts c.tag c.row

/-- Whether a reference of the given kind may hold this index. -/
def validFor (c : CodedIndex) (kind : CodedKind) : Bool :=
  !c.isNull && kind.tables.contains c.tag

/-- The reference that a token stands for: null for the null token and for a
token of no known table. -/
def ofToken (t : Token) : CodedIndex :=
  match t.tableId? with
  | some table => if t.isNull then null else ⟨table, t.row.val⟩
  | none => null

end CodedIndex
end CliMetadata
