import CliMetadata.Graph.Modules

/-!
# Opening a store

A store is opened as a module, or as an assembly with that module as its
manifest module.  Opening reads the first row of the module table and the first
of the assembly table; everything else is read on demand.
-/

namespace CliMetadata

/-- The entry of the module table that a store is opened by. -/
def Store.moduleRow? (s : Store) : Option ModuleRow := nth s.modules 1

/-- The entry of the assembly table that a store is opened by. -/
def Store.assemblyRow? (s : Store) : Option AssemblyRow := nth s.assemblies 1

/-- The identity that an entry of the assembly table describes. -/
def AssemblyRow.identity (r : AssemblyRow) (s : Store) : AssemblyIdentity :=
  AssemblyIdentity.make (s.string r.name).lossy r.version (storedCulture s r.culture)
    (StrongName.ofStored? (s.blob r.publicKey) true)

/-- Makes the module of a row. -/
def makeStoredModule (s : Store) (policy : InitPolicy) (row : ModuleRow) : GraphM ModuleId := do
  let loader := (← get).built
  let m ← makeUnread .module ⟨row.rid, .row loader row.rid, s.string row.name,
    (s.guid? row.mvid).getD Guid.zero, some ⟨s, policy⟩, none, none⟩
  Ownership.setOwner .assemblyModules m.key none
  return m

/-- Makes the assembly of a row, without modules. -/
def makeStoredAssembly (s : Store) (loader : Nat) (row : AssemblyRow) : GraphM AssemblyId := do
  let a ← makeUnread .assembly ⟨row.rid, .row loader row.rid, row.identity s, row.hashAlgorithm,
    row.flags⟩
  Ownership.setItems .assemblyModules a.node []
  return a

/-- Opens a store as a module. -/
def openModule (s : Store) (policy : InitPolicy) : GraphM (Except Error ModuleId) := do
  match s.moduleRow? with
  | none => return .error (.malformed .noModuleRow)
  | some row => .ok <$> makeStoredModule s policy row

/-- Opens a store as an assembly. -/
def openAssembly (s : Store) (policy : InitPolicy) : GraphM (Except Error AssemblyId) := do
  match s.moduleRow?, s.assemblyRow? with
  | none, _ => return .error (.malformed .noModuleRow)
  | some row, none => return .error (.malformed (.noAssemblyRow (s.string row.name).lossy))
  | some row, some assembly =>
    let loader := (← get).built
    let m ← makeStoredModule s policy row
    let a ← makeStoredAssembly s loader assembly
    match ← Ownership.add .assemblyModules a.node m.key with
    | .ok () => return .ok a
    | .error e => return .error (.invalidOperation e)

/-! ## Rows by number -/

/-- The entity of a row of a module, by the number of the row. -/
def ModuleId.row {k : Kind} (read : (loader rid : Nat) → GraphM (Option (Id k))) (m : ModuleId)
    (rid : Nat) : GraphM (Except Error (Id k)) := do
  let found ← match m.key with
    | .built number =>
      if ((← get).loader? number).isSome then read number rid else pure none
    | .row _ _ => pure none
  return match found with
    | some id => .ok id
    | none => .error (.rowNotFound (Token.ofParts k.table rid))

namespace ModuleId

/-- The type of a row. -/
def typeDef (m : ModuleId) : Nat → GraphM (Except Error TypeDefId) :=
  m.row (Loading.shared .typeDef)

/-- The type reference of a row. -/
def typeRef (m : ModuleId) : Nat → GraphM (Except Error TypeRefId) :=
  m.row (Loading.shared .typeRef)

/-- The type specification of a row. -/
def typeSpec (m : ModuleId) : Nat → GraphM (Except Error TypeSpecId) :=
  m.row (Loading.shared .typeSpec)

/-- The field of a row. -/
def field (m : ModuleId) : Nat → GraphM (Except Error FieldId) :=
  m.row (Loading.shared .field)

/-- The method of a row. -/
def methodDef (m : ModuleId) : Nat → GraphM (Except Error MethodDefId) :=
  m.row (Loading.shared .methodDef)

/-- The parameter of a row. -/
def param (m : ModuleId) : Nat → GraphM (Except Error ParamId) :=
  m.row (Loading.shared .param)

/-- The member reference of a row. -/
def memberRef (m : ModuleId) : Nat → GraphM (Except Error MemberRefId) :=
  m.row (Loading.shared .memberRef)

/-- The event of a row. -/
def event (m : ModuleId) : Nat → GraphM (Except Error EventId) :=
  m.row (Loading.shared .event)

/-- The property of a row. -/
def property (m : ModuleId) : Nat → GraphM (Except Error PropertyId) :=
  m.row (Loading.shared .property)

/-- The module reference of a row. -/
def moduleRef (m : ModuleId) : Nat → GraphM (Except Error ModuleRefId) :=
  m.row Loading.moduleRef

/-- The assembly reference of a row. -/
def assemblyRef (m : ModuleId) : Nat → GraphM (Except Error AssemblyRefId) :=
  m.row Loading.assemblyRef

/-- The file of a row. -/
def file (m : ModuleId) : Nat → GraphM (Except Error FileId) :=
  m.row Loading.file

/-- The exported type of a row. -/
def exportedType (m : ModuleId) : Nat → GraphM (Except Error ExportedTypeId) :=
  m.row (Loading.shared .exportedType)

/-- The resource of a row. -/
def resource (m : ModuleId) : Nat → GraphM (Except Error ResourceId) :=
  m.row (Loading.shared .resource)

/-- The generic parameter of a row. -/
def genericParam (m : ModuleId) : Nat → GraphM (Except Error GenericParamId) :=
  m.row (Loading.shared .genericParam)

/-- The instantiated method of a row. -/
def methodSpec (m : ModuleId) : Nat → GraphM (Except Error MethodSpecId) :=
  m.row (Loading.shared .methodSpec)

end ModuleId
end CliMetadata
