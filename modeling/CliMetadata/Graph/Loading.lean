import CliMetadata.Graph.Recorded

/-!
# Reading a graph from a store

`shared` gives the entity of a row and makes it when the row is first asked for;
`fromStore` runs a computation for an entity that stands for a row, as long as
its module exists.  What a coded index refers to, what an entity carries and how
a stored signature refers to entities are read here.  None of it recurses: an
entity is made with its slots empty.
-/

namespace CliMetadata.Loading

variable {α : Type}

/-- Runs a computation for an entity that stands for a row, as long as the
module it was read through exists. -/
def fromStore (origin : Origin) (absent : α) (compute : (loader rid : Nat) → GraphM α) :
    GraphM α := do
  match (← get).reader? origin with
  | some (loader, rid) => compute loader rid
  | none => return absent

/-- The row of a table at a place. -/
def rowAt (table : Store → List α) (loader rid : Nat) : GraphM (Option α) := do
  return ((← get).store? loader).bind fun s => Store.nth (table s) rid

/-- The numbers of the rows that belong to an owner; each time they are asked
for counts. -/
def children (loader : Nat) (relation : Relation) (owner : Token) : GraphM (List Nat) := do
  modify fun g =>
    let r := (g.reads.get? loader).getD default
    { g with reads := g.reads.set loader { r with children := r.children + 1 } }
  return (((← get).store? loader).map fun s => s.children relation owner).getD []

/-- The owner that a row belongs to. -/
def parent? (loader : Nat) (relation : Relation) (child : Token) : GraphM (Option Token) := do
  return ((← get).store? loader).bind fun s => s.parent? relation child

/-! ## Shared entities -/

/-- The entity of the row at a place. -/
def shared (k : Kind) {ρ : Type} [Recorded k ρ] (loader place : Nat) :
    GraphM (Option (Id k)) := do
  let g ← get
  let id : Id k := ⟨.row loader place⟩
  if g.entities.contains id.node then return some id
  match (g.store? loader).bind fun s => Recorded.ofRow? k s loader place with
  | none => return none
  | some r =>
    modify fun g => g.put id r
    return some id

/-- A private copy of the entity of the row at a place. -/
def copy (k : Kind) {ρ : Type} [Recorded k ρ] (loader place : Nat) :
    GraphM (Option (Id k)) := do
  match ((← get).store? loader).bind fun s => Recorded.ofRow? k s loader place with
  | none => return none
  | some r => some <$> makeUnread k r

/-- The method that a coded index of a kind refers to. -/
def methodOf (kind : CodedKind) (loader : Nat) (index : CodedIndex) :
    GraphM (Option MethodDefOrRef) := do
  if index.validFor kind then
    match index.tag with
    | .methodDef => return (← shared .methodDef loader index.row).map .methodDef
    | .memberRef => return (← shared .memberRef loader index.row).map .memberRef
    | _ => return none
  else return none

/-- What the entries of a list give rise to, for those that give rise to anything. -/
def collect {ι β : Type} (f : ι → GraphM (Option β)) : List ι → GraphM (List β)
  | [] => return []
  | i :: rest => do
    match ← f i with
    | some x => return x :: (← collect f rest)
    | none => collect f rest

/-- The attributes stored for a row. -/
def attributes (loader : Nat) (parent : Token) : GraphM (List CustomAttributeId) := do
  collect (fun rid => do
    match ← rowAt (·.customAttributes) loader rid with
    | none => return none
    | some row =>
      let constructor ← methodOf .customAttributeType loader row.constructor
      let value := (((← get).store? loader).map fun s => s.blob row.value).getD []
      some <$> makeUnread .customAttribute ⟨row.rid, row.token, constructor, value⟩)
    (← children loader .customAttributes parent)

/-- The entity of the row at a place, for a kind whose attributes are read with
its columns. -/
def sharedWithAttributes (k : Kind) {ρ : Type} [Recorded k ρ] (token : ρ → Token)
    (loader place : Nat) : GraphM (Option (Id k)) := do
  let g ← get
  let id : Id k := ⟨.row loader place⟩
  if g.entities.contains id.node then return some id
  match (g.store? loader).bind fun s => Recorded.ofRow? k s loader place with
  | none => return none
  | some r =>
    let carried ← attributes loader (token r)
    modify fun g => (Graph.attributeSlot id.node).publish carried (g.put id r)
    return some id

/-- The entity of a row of the table of assembly references. -/
def assemblyRef (loader place : Nat) : GraphM (Option AssemblyRefId) :=
  sharedWithAttributes .assemblyRef AssemblyRef.token loader place

/-- The entity of a row of the table of module references. -/
def moduleRef (loader place : Nat) : GraphM (Option ModuleRefId) :=
  sharedWithAttributes .moduleRef ModuleRef.token loader place

/-- The entity of a row of the table of files. -/
def file (loader place : Nat) : GraphM (Option FileId) :=
  sharedWithAttributes .file File.token loader place

/-- The security declarations stored for a row. -/
def securities (loader : Nat) (parent : Token) : GraphM (List SecurityId) := do
  collect (fun rid => do
    match ← rowAt (·.declSecurities) loader rid with
    | none => return none
    | some row =>
      let set := (((← get).store? loader).map fun s => s.blob row.permissionSet).getD []
      let carried ← attributes loader row.token
      let id ← makeUnread .security ⟨row.rid, row.token, row.action, set⟩
      modify ((Graph.attributeSlot id.node).publish carried)
      return some id)
    (← children loader .declSecurities parent)

/-- The constant stored for a row: the first that belongs to it. -/
def constant (loader : Nat) (parent : Token) : GraphM (Option ConstantId) := do
  match ← children loader .constant parent with
  | [] => return none
  | rid :: _ =>
    match ← rowAt (·.constants) loader rid with
    | none => return none
    | some row =>
      let value := (((← get).store? loader).map fun s => s.blob row.value).getD []
      some <$> makeUnread .constant ⟨row.rid, row.token, row.elementType, value⟩

/-- Where a method is stored as imported from: the first row that says so. -/
def implMap (loader : Nat) (method : Token) : GraphM (Option ImplMapId) := do
  match ← children loader .implMap method with
  | [] => return none
  | rid :: _ =>
    match ← rowAt (·.implMaps) loader rid with
    | none => return none
    | some row =>
      let name := (((← get).store? loader).map fun s => s.string row.importName).getD .empty
      let scope ← moduleRef loader row.importScope
      some <$> makeUnread .implMap ⟨row.rid, row.token, row.flags, name, scope⟩

/-! ## Coded indices -/

/-- The type that a coded index refers to. -/
def typeDefOrRef (loader : Nat) (index : CodedIndex) : GraphM (Option TypeDefOrRef) := do
  if index.validFor .typeDefOrRef then
    match index.tag with
    | .typeDef => return (← shared .typeDef loader index.row).map .typeDef
    | .typeRef => return (← shared .typeRef loader index.row).map .typeRef
    | .typeSpec => return (← shared .typeSpec loader index.row).map .typeSpec
    | _ => return none
  else return none

/-- The scope that a coded index refers to; of the module table, only the first
row is one. -/
def resolutionScope (loader : Nat) (index : CodedIndex) : GraphM (Option ResolutionScope) := do
  if index.validFor .resolutionScope then
    match index.tag with
    | .module => return if index.row = 1 then some (.module ⟨.built loader⟩) else none
    | .moduleRef => return (← moduleRef loader index.row).map .moduleRef
    | .assemblyRef => return (← assemblyRef loader index.row).map .assemblyRef
    | .typeRef => return (← shared .typeRef loader index.row).map .typeRef
    | _ => return none
  else return none

/-- The parent of a member reference that a coded index refers to. -/
def memberParent (loader : Nat) (index : CodedIndex) : GraphM (Option MemberParent) := do
  if index.validFor .memberRefParent then
    match index.tag with
    | .typeDef => return (← shared .typeDef loader index.row).map .typeDef
    | .typeRef => return (← shared .typeRef loader index.row).map .typeRef
    | .typeSpec => return (← shared .typeSpec loader index.row).map .typeSpec
    | .moduleRef => return (← moduleRef loader index.row).map .moduleRef
    | .methodDef => return (← shared .methodDef loader index.row).map .methodDef
    | _ => return none
  else return none

/-- The implementation that a coded index refers to. -/
def implementation (loader : Nat) (index : CodedIndex) : GraphM (Option Implementation) := do
  if index.validFor .implementation then
    match index.tag with
    | .file => return (← file loader index.row).map .file
    | .assemblyRef => return (← assemblyRef loader index.row).map .assemblyRef
    | .exportedType => return (← shared .exportedType loader index.row).map .exportedType
    | _ => return none
  else return none

/-- The type or method that a coded index refers to. -/
def typeOrMethod (loader : Nat) (index : CodedIndex) : GraphM (Option Node) := do
  if index.validFor .typeOrMethodDef then
    match index.tag with
    | .typeDef => return (← shared .typeDef loader index.row).map Id.node
    | .methodDef => return (← shared .methodDef loader index.row).map Id.node
    | _ => return none
  else return none

/-! ## Signatures -/

/-- The type that a token in a stored signature stands for. -/
def typeOfToken (loader : Nat) (token : Token) : OptionT GraphM TypeDefOrRef :=
  typeDefOrRef loader (.ofToken token)

/-- Counts a signature asked for. -/
def countSignature (loader : Nat) : GraphM Unit :=
  modify fun g =>
    let r := (g.reads.get? loader).getD default
    { g with reads := g.reads.set loader { r with signatures := r.signatures + 1 } }

/-- The signature with an index in the blob heap; none where it refers to a type
that is not there. -/
def signature (loader index : Nat) : GraphM (Option (Signature TypeDefOrRef)) := do
  countSignature loader
  match ((← get).store? loader).bind fun s => s.signature? index with
  | some stored => stored.traverse (typeOfToken loader)
  | none => return none

/-- The type signature with an index in the blob heap. -/
def typeSig (loader index : Nat) : GraphM (Option Sig) := do
  countSignature loader
  match ((← get).store? loader).bind fun s => s.typeSig? index with
  | some stored => stored.traverse (typeOfToken loader)
  | none => return none

/-- What the row of a table refers to by an index into the blob heap. -/
def signatureOf {β : Type} (table : Store → List α) (index : α → Nat)
    (part : Signature TypeDefOrRef → Option β) (loader rid : Nat) : GraphM (Option β) := do
  match ← rowAt table loader rid with
  | none => return none
  | some row => return (← signature loader (index row)).bind part

end CliMetadata.Loading
