import CliMetadata.Store.Basic

/-!
# Building a store

Each operation adds one row, heap entry or link at the end and answers with the
row's token or the entry's index.  A row added here goes by its place in the
table; `push` takes a row as it is.
-/

namespace CliMetadata.Store

/-- A step of building a store. -/
abbrev Build := StateM Store

/-- Adds a row as it is. -/
def push (row : Row) : Build Token := do
  modify fun s => match row with
    | .module r => { s with modules := s.modules ++ [r] }
    | .typeRef r => { s with typeRefs := s.typeRefs ++ [r] }
    | .typeDef r => { s with typeDefs := s.typeDefs ++ [r] }
    | .field r => { s with fields := s.fields ++ [r] }
    | .methodDef r => { s with methodDefs := s.methodDefs ++ [r] }
    | .param r => { s with params := s.params ++ [r] }
    | .memberRef r => { s with memberRefs := s.memberRefs ++ [r] }
    | .constant r => { s with constants := s.constants ++ [r] }
    | .customAttribute r => { s with customAttributes := s.customAttributes ++ [r] }
    | .declSecurity r => { s with declSecurities := s.declSecurities ++ [r] }
    | .event r => { s with events := s.events ++ [r] }
    | .property r => { s with properties := s.properties ++ [r] }
    | .methodSemantics r => { s with methodSemantics := s.methodSemantics ++ [r] }
    | .methodImpl r => { s with methodImpls := s.methodImpls ++ [r] }
    | .moduleRef r => { s with moduleRefs := s.moduleRefs ++ [r] }
    | .typeSpec r => { s with typeSpecs := s.typeSpecs ++ [r] }
    | .implMap r => { s with implMaps := s.implMaps ++ [r] }
    | .assembly r => { s with assemblies := s.assemblies ++ [r] }
    | .assemblyRef r => { s with assemblyRefs := s.assemblyRefs ++ [r] }
    | .file r => { s with files := s.files ++ [r] }
    | .exportedType r => { s with exportedTypes := s.exportedTypes ++ [r] }
    | .manifestResource r => { s with resources := s.resources ++ [r] }
    | .genericParam r => { s with genericParams := s.genericParams ++ [r] }
    | .methodSpec r => { s with methodSpecs := s.methodSpecs ++ [r] }
    | .genericParamConstraint r => { s with constraints := s.constraints ++ [r] }
  return row.head.token

/-- Adds a row that goes by its place in the table. -/
def append (table : TableId) (row : RowHead → Row) : Build Token := do
  let rid := (← get).rowCount table + 1
  push (row ⟨rid, Token.ofParts table rid⟩)

/-- Links a row to an owner. -/
def link (relation : Relation) (owner child : Token) : Build Unit :=
  modify fun s => { s with links := s.links ++ [⟨relation, owner, child⟩] }

/-! ## Heaps -/

/-- Stores a name. -/
def addName (value : String) : Build Nat := do
  let (offset, heap) := (← get).strings.add (Name.ofString value).bytes
  modify fun s => { s with strings := heap }
  return offset

/-- Adds an entry to the blob heap. -/
def addBlob (entry : Blob) : Build Nat := do
  modify fun s => { s with blobs := s.blobs ++ [entry] }
  return (← get).blobs.length

/-- Adds bytes to the blob heap. -/
def addData (bytes : List UInt8) : Build Nat := addBlob (.data bytes)

/-- Adds a GUID. -/
def addGuid (guid : Guid) : Build Nat := do
  modify fun s => { s with guids := s.guids ++ [guid] }
  return (← get).guids.length

/-! ## The assembly and its module -/

/-- Adds a module row; the module's GUID comes from the row's number. -/
def addModule (name : String) : Build Token := do
  let rid := (← get).rowCount .module + 1
  let name ← addName name
  let mvid ← addGuid (Guid.versionFour (UInt8.ofNat rid))
  append .module fun head => .module ⟨head, 0, name, mvid⟩

/-- Adds an assembly row.  Only a full key is stored as strong name. -/
def addAssembly (identity : AssemblyIdentity) : Build Token := do
  let (key, flags) ← match identity.strongName with
    | some (.publicKey key) => pure (← addData key, AssemblyFlags.publicKey)
    | _ => pure (0, (0 : Flags))
  let name ← addName identity.name
  let culture ← addName (identity.culture.getD "")
  append .assembly fun head =>
    .assembly ⟨head, HashAlgorithm.sha1, identity.version, flags, key, name, culture⟩

/-- Stores a key or a key token. -/
def addStrongName : Option StrongName → Build Nat
  | some (.publicKey key) => addData key
  | some (.token token) => addData token.val
  | none => return 0

/-- Adds an assembly reference with a key in full, a key token or neither. -/
def addAssemblyRef (identity : AssemblyIdentity) (flags : Flags) : Build Token := do
  let key ← addStrongName identity.strongName
  let name ← addName identity.name
  let culture ← addName (identity.culture.getD "")
  append .assemblyRef fun head =>
    .assemblyRef ⟨head, identity.version,
      AssemblyFlags.withKey (identity.strongName.any StrongName.isKey) flags, key, name, culture,
      0⟩

/-- Adds a module reference. -/
def addModuleRef (name : String) : Build Token := do
  let name ← addName name
  append .moduleRef fun head => .moduleRef ⟨head, name⟩

/-- Adds a file. -/
def addFile (name : String) (flags : Flags) : Build Token := do
  let name ← addName name
  append .file fun head => .file ⟨head, flags, name, 0⟩

/-! ## Types and members -/

/-- Adds a type reference. -/
def addTypeRef (scope : Token) (space name : String) : Build Token := do
  let name ← addName name
  let space ← addName space
  append .typeRef fun head => .typeRef ⟨head, .ofToken scope, name, space⟩

/-- Adds a type that is nested in no other so far. -/
def addTypeDef (space name : String) (flags : Flags) (base : Option Token) : Build Token := do
  let name ← addName name
  let space ← addName space
  append .typeDef fun head => .typeDef ⟨head, flags, name, space, base.elim .null .ofToken⟩

/-- Adds a type nested in another. -/
def addNestedType (enclosing : Token) (name : String) (flags : Flags) : Build Token := do
  let nested ← addTypeDef "" name flags none
  link .nestedTypes enclosing nested
  return nested

/-- Adds a field. -/
def addField (owner : Token) (name : String) (flags : Flags) (signature : Nat) :
    Build Token := do
  let name ← addName name
  let token ← append .field fun head => .field ⟨head, flags, name, signature⟩
  link .fields owner token
  return token

/-- Adds a method without a body. -/
def addMethod (owner : Token) (name : String) (flags : Flags) (signature : Nat) :
    Build Token := do
  let name ← addName name
  let token ← append .methodDef fun head => .methodDef ⟨head, 0, 0, flags, name, signature⟩
  link .methods owner token
  return token

/-- Adds a parameter. -/
def addParam (method : Token) (sequence : Nat) (name : String) : Build Token := do
  let name ← addName name
  let token ← append .param fun head => .param ⟨head, 0, sequence, name⟩
  link .params method token
  return token

/-- Adds a property. -/
def addProperty (owner : Token) (name : String) (signature : Nat) : Build Token := do
  let name ← addName name
  let token ← append .property fun head => .property ⟨head, 0, name, signature⟩
  link .properties owner token
  return token

/-- Adds an event. -/
def addEvent (owner : Token) (name : String) (eventType : Option Token) : Build Token := do
  let name ← addName name
  let token ← append .event fun head => .event ⟨head, 0, name, eventType.elim .null .ofToken⟩
  link .events owner token
  return token

/-- Adds a generic parameter. -/
def addGenericParam (owner : Token) (number : Nat) (name : String) : Build Token := do
  let name ← addName name
  append .genericParam fun head => .genericParam ⟨head, number, 0, .ofToken owner, name⟩

/-- Adds a constraint on a generic parameter. -/
def addConstraint (param constraint : Token) : Build Token :=
  append .genericParamConstraint fun head =>
    .genericParamConstraint ⟨head, param.row.val, .ofToken constraint⟩

/-- Adds a member reference. -/
def addMemberRef (parent : Token) (name : String) (signature : Nat) : Build Token := do
  let name ← addName name
  append .memberRef fun head => .memberRef ⟨head, .ofToken parent, name, signature⟩

/-- Adds a type specification. -/
def addTypeSpec (signature : Nat) : Build Token :=
  append .typeSpec fun head => .typeSpec ⟨head, signature⟩

/-- Adds an instantiated method. -/
def addMethodSpec (method : Token) (instantiation : Nat) : Build Token :=
  append .methodSpec fun head => .methodSpec ⟨head, .ofToken method, instantiation⟩

/-- Adds an exported type. -/
def addExportedType (space name : String) (flags : Flags) (implementation : Token) :
    Build Token := do
  let name ← addName name
  let space ← addName space
  append .exportedType fun head =>
    .exportedType ⟨head, flags, 0, name, space, .ofToken implementation⟩

/-! ## What rows carry -/

/-- Adds a constant. -/
def addConstant (parent : Token) (elementType : Nat) (value : List UInt8) : Build Token := do
  let value ← addData value
  append .constant fun head => .constant ⟨head, elementType, .ofToken parent, value⟩

/-- Adds a custom attribute. -/
def addCustomAttribute (parent constructor : Token) (value : List UInt8) : Build Token := do
  let value ← addData value
  append .customAttribute fun head =>
    .customAttribute ⟨head, .ofToken parent, .ofToken constructor, value⟩

/-- Adds a security declaration. -/
def addDeclSecurity (parent : Token) (action : Nat) (permissionSet : List UInt8) :
    Build Token := do
  let permissionSet ← addData permissionSet
  append .declSecurity fun head => .declSecurity ⟨head, action, .ofToken parent, permissionSet⟩

/-- The largest address or offset. -/
def addressLimit : Nat := 0xFFFFFFFF

/-- The offset after a resource of a given size: four bytes for its length, and
the end rounded up to a multiple of eight. -/
def offsetAfter (offset size : Nat) : Nat :=
  min (min (offset + (4 + size)) addressLimit + 7) addressLimit / 8 * 8

/-- Adds a resource with its bytes. -/
def addEmbeddedResource (name : String) (flags : Flags) (data : List UInt8) :
    Build Token := do
  let offset := (← get).nextOffset
  modify fun s => { s with
    nextOffset := offsetAfter offset data.length
    resourceData := (offset, data) :: s.resourceData }
  let name ← addName name
  append .manifestResource fun head => .manifestResource ⟨head, offset, flags, name, .null⟩

/-- Adds a resource that is kept elsewhere. -/
def addLinkedResource (name : String) (flags : Flags) (implementation : Token) :
    Build Token := do
  let name ← addName name
  append .manifestResource fun head =>
    .manifestResource ⟨head, 0, flags, name, .ofToken implementation⟩

/-- Says where a native method is imported from. -/
def addImplMap (method : Token) (importName : String) (scope : Token) (flags : Flags) :
    Build Token := do
  let importName ← addName importName
  append .implMap fun head =>
    .implMap ⟨head, flags, .ofToken method, importName, scope.row.val⟩

/-- Says that a type overrides a method. -/
def addMethodImpl (type body declaration : Token) : Build Token :=
  append .methodImpl fun head =>
    .methodImpl ⟨head, type.row.val, .ofToken body, .ofToken declaration⟩

/-- Says what a method does for a property or an event. -/
def addMethodSemantics (semantics : Flags) (method association : Token) : Build Token :=
  append .methodSemantics fun head =>
    .methodSemantics ⟨head, semantics, method.row.val, .ofToken association⟩

/-- Adds a debug record to a row. -/
def addDebugInfo (token : Token) (info : DebugInfo) : Build Unit :=
  modify fun s => { s with debugInfos := s.debugInfos ++ [(token, info)] }

/-- The address after a body: sixteen bytes for its header. -/
def rvaAfter (rva size : Nat) : Nat := min (rva + (0x10 + size)) addressLimit

/-- Gives a method a body at the next address.  The address is used up even
where there is no such method. -/
def setMethodBody (method : Token) (body : MethodBody) : Build Unit :=
  modify fun s =>
    let s' := { s with nextRva := rvaAfter s.nextRva body.code.length }
    match nth s.methodDefs method.row.val with
    | some _ =>
      { s' with
        methodDefs := s.methodDefs.modify (method.row.val - 1) fun r => { r with rva := s.nextRva }
        bodies := (s.nextRva, body) :: s.bodies }
    | none => s'

end CliMetadata.Store
