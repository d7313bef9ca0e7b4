import CliMetadata.Catalogue.Form
import CliMetadata.Catalogue.Value
import CliMetadata.Store.Builder

/-!
# Stores by name

The forms of what can be added to a store, the columns of rows by name, and what
can be asked about a store.
-/

namespace CliMetadata

open Form (ask)

namespace Columns

/-- A version, from one column for each number. -/
def version : Form AssemblyVersion := do
  let major ← ask "major_version" .number
  let minor ← ask "minor_version" .number
  let build ← ask "build_number" .number
  let revision ← ask "revision_number" .number
  return ⟨UInt16.ofNat major, UInt16.ofNat minor, UInt16.ofNat build, UInt16.ofNat revision⟩

/-- A column that refers to a heap or to one table. -/
def index (name : String) : Form Nat := ask name .number

/-- A column of flags. -/
def flags (name : String) : Form Flags := ask name .flags

/-- A column that refers to one of several tables. -/
def coded (name : String) : Form CodedIndex := ask name .coded

/-- The columns of a table; one table has no rows here. -/
def ofTable (head : RowHead) : TableId → Form Row
  | .module => do
    return .module ⟨head, ← ask "generation" .word, ← index "name", ← index "mvid"⟩
  | .typeRef => do
    return .typeRef
      ⟨head, ← coded "resolution_scope", ← index "type_name", ← index "type_namespace"⟩
  | .typeDef => do
    return .typeDef
      ⟨head, ← flags "flags", ← index "type_name", ← index "type_namespace", ← coded "extends"⟩
  | .field => do
    return .field ⟨head, ← flags "flags", ← index "name", ← index "signature"⟩
  | .methodDef => do
    return .methodDef
      ⟨head, ← index "rva", ← flags "impl_flags", ← flags "flags", ← index "name",
        ← index "signature"⟩
  | .param => do
    return .param ⟨head, ← flags "flags", ← index "sequence", ← index "name"⟩
  | .memberRef => do
    return .memberRef ⟨head, ← coded "class", ← index "name", ← index "signature"⟩
  | .constant => do
    return .constant ⟨head, ← ask "base" .byte, ← coded "parent", ← index "value"⟩
  | .customAttribute => do
    return .customAttribute ⟨head, ← coded "parent", ← coded "constructor", ← index "value"⟩
  | .declSecurity => do
    return .declSecurity
      ⟨head, ← ask "action" .word, ← coded "parent", ← index "permission_set"⟩
  | .standAloneSig => Form.unfillable "table"
  | .event => do
    return .event ⟨head, ← flags "flags", ← index "name", ← coded "event_type"⟩
  | .property => do
    return .property ⟨head, ← flags "flags", ← index "name", ← index "signature"⟩
  | .methodSemantics => do
    return .methodSemantics ⟨head, ← flags "semantics", ← index "method", ← coded "association"⟩
  | .methodImpl => do
    return .methodImpl
      ⟨head, ← index "class", ← coded "method_body", ← coded "method_declaration"⟩
  | .moduleRef => do return .moduleRef ⟨head, ← index "name"⟩
  | .typeSpec => do return .typeSpec ⟨head, ← index "signature"⟩
  | .implMap => do
    return .implMap
      ⟨head, ← flags "mapping_flags", ← coded "member_forwarded", ← index "import_name",
        ← index "import_scope"⟩
  | .assembly => do
    return .assembly
      ⟨head, ← index "hash_alg_id", ← version, ← flags "flags", ← index "public_key",
        ← index "name", ← index "culture"⟩
  | .assemblyRef => do
    return .assemblyRef
      ⟨head, ← version, ← flags "flags", ← index "public_key_or_token", ← index "name",
        ← index "culture", ← index "hash_value"⟩
  | .file => do
    return .file ⟨head, ← flags "flags", ← index "name", ← index "hash_value"⟩
  | .exportedType => do
    return .exportedType
      ⟨head, ← flags "flags", ← index "type_def_id", ← index "name", ← index "namespace",
        ← coded "implementation"⟩
  | .manifestResource => do
    return .manifestResource
      ⟨head, ← index "offset", ← flags "flags", ← index "name", ← coded "implementation"⟩
  | .genericParam => do
    return .genericParam
      ⟨head, ← index "number", ← flags "flags", ← coded "owner", ← index "name"⟩
  | .methodSpec => do
    return .methodSpec ⟨head, ← coded "method", ← index "instantiation"⟩
  | .genericParamConstraint => do
    return .genericParamConstraint ⟨head, ← index "owner", ← coded "constraint"⟩

/-- A version as one column for each number. -/
def ofVersion (v : AssemblyVersion) : List (String × Value) :=
  [("major_version", toValue v.major.toNat), ("minor_version", toValue v.minor.toNat),
    ("build_number", toValue v.build.toNat), ("revision_number", toValue v.revision.toNat)]

/-- The columns of a row with their values. -/
def ofRow : Row → List (String × Value)
  | .module r =>
    [("generation", toValue r.generation), ("name", toValue r.name), ("mvid", toValue r.mvid)]
  | .typeRef r =>
    [("resolution_scope", toValue r.scope), ("type_name", toValue r.name),
      ("type_namespace", toValue r.space)]
  | .typeDef r =>
    [("flags", toValue r.flags), ("type_name", toValue r.name),
      ("type_namespace", toValue r.space), ("extends", toValue r.base)]
  | .field r =>
    [("flags", toValue r.flags), ("name", toValue r.name), ("signature", toValue r.signature)]
  | .methodDef r =>
    [("rva", toValue r.rva), ("impl_flags", toValue r.implFlags), ("flags", toValue r.flags),
      ("name", toValue r.name), ("signature", toValue r.signature)]
  | .param r =>
    [("flags", toValue r.flags), ("sequence", toValue r.sequence), ("name", toValue r.name)]
  | .memberRef r =>
    [("class", toValue r.parent), ("name", toValue r.name), ("signature", toValue r.signature)]
  | .constant r =>
    [("base", toValue r.elementType), ("parent", toValue r.parent), ("value", toValue r.value)]
  | .customAttribute r =>
    [("parent", toValue r.parent), ("constructor", toValue r.constructor),
      ("value", toValue r.value)]
  | .declSecurity r =>
    [("action", toValue r.action), ("parent", toValue r.parent),
      ("permission_set", toValue r.permissionSet)]
  | .event r =>
    [("flags", toValue r.flags), ("name", toValue r.name), ("event_type", toValue r.eventType)]
  | .property r =>
    [("flags", toValue r.flags), ("name", toValue r.name), ("signature", toValue r.signature)]
  | .methodSemantics r =>
    [("semantics", toValue r.semantics), ("method", toValue r.method),
      ("association", toValue r.association)]
  | .methodImpl r =>
    [("class", toValue r.type), ("method_body", toValue r.body),
      ("method_declaration", toValue r.declaration)]
  | .moduleRef r => [("name", toValue r.name)]
  | .typeSpec r => [("signature", toValue r.signature)]
  | .implMap r =>
    [("mapping_flags", toValue r.flags), ("member_forwarded", toValue r.member),
      ("import_name", toValue r.importName), ("import_scope", toValue r.importScope)]
  | .assembly r =>
    [("hash_alg_id", toValue r.hashAlgorithm), ("flags", toValue r.flags),
      ("public_key", toValue r.publicKey), ("name", toValue r.name),
      ("culture", toValue r.culture)] ++ ofVersion r.version
  | .assemblyRef r =>
    [("flags", toValue r.flags), ("public_key_or_token", toValue r.publicKeyOrToken),
      ("name", toValue r.name), ("culture", toValue r.culture),
      ("hash_value", toValue r.hashValue)] ++ ofVersion r.version
  | .file r =>
    [("flags", toValue r.flags), ("name", toValue r.name), ("hash_value", toValue r.hashValue)]
  | .exportedType r =>
    [("flags", toValue r.flags), ("type_def_id", toValue r.typeDefId), ("name", toValue r.name),
      ("namespace", toValue r.space), ("implementation", toValue r.implementation)]
  | .manifestResource r =>
    [("offset", toValue r.offset), ("flags", toValue r.flags), ("name", toValue r.name),
      ("implementation", toValue r.implementation)]
  | .genericParam r =>
    [("number", toValue r.number), ("flags", toValue r.flags), ("owner", toValue r.owner),
      ("name", toValue r.name)]
  | .methodSpec r =>
    [("method", toValue r.method), ("instantiation", toValue r.instantiation)]
  | .genericParamConstraint r =>
    [("owner", toValue r.param), ("constraint", toValue r.constraint)]

/-- A row of a table as a record. -/
def record (table : TableId) (r : Row) : Value :=
  .record
    ([("table", toValue table), ("token", toValue r.head.token), ("rid", toValue r.head.rid)]
      ++ ofRow r)

end Columns

/-! ## What can be added to a store -/

namespace Additions

/-- A step of building a store, with its answer as a value. -/
abbrev Step := Store.Build Value

/-- A step of building a store. -/
def step {α : Type} [ToValue α] (x : Store.Build α) : Step := toValue <$> x

/-- A text. -/
def text (field : String) : Form String := ask field .text

/-- A token. -/
def token (field : String) : Form Token := ask field .token

/-- A word of flags. -/
def flags : Form Flags := ask "flags" .flags

/-- The index of a signature: given, or that of a signature added before. -/
def indexOf (blob : Nat ⊕ Blob) : Store.Build Nat :=
  match blob with
  | .inl index => pure index
  | .inr entry => Store.addBlob entry

/-- A signature or the index of one. -/
def sig : Form (Store.Build Nat) :=
  ask "sig" (.refine (.numberOr .storedSignature) fun s =>
    some (indexOf (s.map id Blob.signature)))

/-- A type signature or the index of one. -/
def typeSig : Form (Store.Build Nat) :=
  ask "sig" (.refine (.numberOr .storedSig) fun s => some (indexOf (s.map id Blob.typeSig)))

/-- Rows of an assembly and what lies around it. -/
def outside : List (String × Form Step) :=
  [("module", do return step (Store.addModule (← text "name"))),
    ("assembly", do return step (Store.addAssembly (← ask "identity" .identity))),
    ("assembly_ref", do
      return step (Store.addAssemblyRef (← ask "identity" .identity) (← flags))),
    ("module_ref", do return step (Store.addModuleRef (← text "name"))),
    ("file", do return step (Store.addFile (← text "name") (← flags))),
    ("exported_type", do
      return step
        (Store.addExportedType (← text "ns") (← text "name") (← flags) (← token "impl"))),
    ("embedded", do
      return step
        (Store.addEmbeddedResource (← text "name") (← flags) (← ask "data" .bytes))),
    ("linked", do
      return step (Store.addLinkedResource (← text "name") (← flags) (← token "impl")))]

/-- A member whose signature is added before it. -/
def withSig (index : Form (Store.Build Nat)) (add : Form (Nat → Store.Build Token)) :
    Form Step := do
  let add ← add
  let index ← index
  return step do add (← index)

/-- Rows of types and their members. -/
def types : List (String × Form Step) :=
  [("type_ref", do
      return step (Store.addTypeRef (← token "scope") (← text "ns") (← text "name"))),
    ("type_def", do
      return step
        (Store.addTypeDef (← text "ns") (← text "name") (← flags) (← ask "extends" .token?))),
    ("nested", do
      return step (Store.addNestedType (← token "enclosing") (← text "name") (← flags))),
    ("type_spec", withSig typeSig do return Store.addTypeSpec),
    ("field", withSig sig do
      return Store.addField (← token "owner") (← text "name") (← flags)),
    ("method", withSig sig do
      return Store.addMethod (← token "owner") (← text "name") (← flags)),
    ("property", withSig sig do return Store.addProperty (← token "owner") (← text "name")),
    ("event", do
      return step
        (Store.addEvent (← token "owner") (← text "name") (← ask "type" .token?))),
    ("param", do
      return step
        (Store.addParam (← token "method") (← ask "seq" .word) (← text "name"))),
    ("generic_param", do
      return step
        (Store.addGenericParam (← token "owner") (← ask "number" .word) (← text "name"))),
    ("constraint", do
      return step (Store.addConstraint (← token "param") (← token "constraint"))),
    ("member_ref", withSig sig do return Store.addMemberRef (← token "class") (← text "name")),
    ("method_spec", withSig sig do return Store.addMethodSpec (← token "method"))]

/-- What rows carry. -/
def carried : List (String × Form Step) :=
  [("constant", do
      return step
        (Store.addConstant (← token "parent") (← ask "type" .byte) (← ask "value" .bytes))),
    ("attribute", do
      return step
        (Store.addCustomAttribute (← token "parent") (← token "ctor") (← ask "value" .bytes))),
    ("decl_security", do
      return step
        (Store.addDeclSecurity (← token "parent") (← ask "action" .word)
          (← ask "set" .bytes))),
    ("impl_map", do
      return step
        (Store.addImplMap (← token "method") (← text "name") (← token "scope") (← flags))),
    ("method_impl", do
      return step (Store.addMethodImpl (← token "class") (← token "body") (← token "decl"))),
    ("semantics", do
      return step (Store.addMethodSemantics (← flags) (← token "method") (← token "assoc"))),
    ("body", do
      return step (Store.setMethodBody (← token "method") (← Shape.body))),
    ("debug_info", do
      let row ← token "token"
      let guid ← ask "guid" .guid
      let data ← ask "data" .bytes
      return step (Store.addDebugInfo row (.ofGuid guid data))),
    ("link", do
      return step
        (Store.link (← ask "relation" .relation) (← token "owner") (← token "child")))]

/-- A row as it is. -/
def raw : Form Step := do
  let table ← ask "table" .table
  let rid ← ask "rid" .number
  let token ← ask "token" .token?
  let head : RowHead := ⟨rid, token.getD (Token.ofParts table rid)⟩
  let row ← Columns.ofTable head table
  return step (Store.push row)

/-- Entries of heaps, and rows as they are. -/
def entries : List (String × Form Step) :=
  [("raw", raw),
    ("string", do return step (Store.addName (← text "value"))),
    ("blob", do return step (Store.addData (← ask "value" .bytes))),
    ("sig", do return step (Store.addBlob (.signature (← ask "sig" .storedSignature)))),
    ("type_sig", do return step (Store.addBlob (.typeSig (← ask "sig" .storedSig)))),
    ("guid", do return step (Store.addGuid (← ask "value" .guid)))]

/-- What can be added to a store. -/
def all : List (String × Form Step) := outside ++ types ++ carried ++ entries

end Additions

/-! ## What can be asked about a store -/

namespace Queries

/-- The type of a token, where no token is known. -/
def unresolved (_ : Token) : Option TypeDefOrRef := none

/-- A question about an index. -/
def byIndex {α : Type} [ToValue α] (f : Store → Nat → α) : Form (Store → Value) := do
  let index ← ask "index" .number
  return fun s => toValue (f s index)

/-- A question about a relation and a row. -/
def byRelation {α : Type} [ToValue α] (f : Store → Relation → Token → α) :
    Form (Store → Value) := do
  let relation ← ask "relation" .relation
  let token ← ask "token" .token
  return fun s => toValue (f s relation token)

/-- A debug record with the GUID of its kind. -/
def debugInfo (d : DebugInfo) : Value :=
  .list [toValue d.kind.name, toValue d.kind.guid, toValue d.data]

/-- What can be asked about a store. -/
def all : List (String × Form (Store → Value)) :=
  [("row_count", do
      let table ← ask "table" .table
      return fun s => toValue (s.rowCount table)),
    ("row", do
      let table ← ask "table" .table
      let index ← ask "index" .number
      return fun s => toValue ((s.row? table index).map (Columns.record table))),
    ("children", byRelation fun s r t => s.children r t),
    ("parent", byRelation fun s r t => s.parent? r t),
    ("string", byIndex fun s i => s.strings.get? i),
    ("blob", byIndex fun s i => s.blob? i),
    ("guid", byIndex fun s i => s.guid? i),
    ("signature", byIndex fun s i => (s.signature? i).bind fun sig => sig.traverse unresolved),
    ("type_signature", byIndex fun s i => (s.typeSig? i).bind fun sig => sig.traverse unresolved),
    ("body", byIndex fun s i => s.body? i),
    ("resource", byIndex fun s i => s.resource? i),
    ("debug_infos", do
      let token ← ask "token" .token
      return fun s => toValue ((s.debugInfosOf token).map debugInfo))]

end Queries
end CliMetadata
