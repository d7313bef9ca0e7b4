import CliMetadata.Catalogue.Form
import CliMetadata.Graph.InMemory
import CliMetadata.Graph.Opening

/-!
# Making entities by name

The forms of the entities that can be made in memory, and of opening a store.
-/

namespace CliMetadata.Creation

open Form (ask)

/-- The form of an entity of a kind, with the kind forgotten. -/
def made {k : Kind} (form : Form (GraphM (Id k))) : Form (GraphM Node) := do
  let make ← form
  return do return (← make).node

/-- A type. -/
def typeDef : Form (GraphM TypeDefId) := do
  let space ← ask "ns" .name
  let name ← ask "name" .name
  let flags ← ask "flags" .flags
  return makeTypeDef space name flags

/-- A reference to a type. -/
def typeRef : Form (GraphM TypeRefId) := do
  let module ← ask "module" (.entity .module)
  let space ← ask "ns" .name
  let name ← ask "name" .name
  let scope ← ask "scope" (.optional .scope)
  return makeTypeRef module space name scope

/-- A field. -/
def field : Form (GraphM FieldId) := do
  let name ← ask "name" .name
  let flags ← ask "flags" .flags
  let sig ← ask "sig" (.optional .sig)
  return makeField name flags sig

/-- A method. -/
def methodDef : Form (GraphM MethodDefId) := do
  let name ← ask "name" .name
  let flags ← ask "flags" .flags
  let sig ← ask "sig" (.optional .method)
  return makeMethodDef name flags sig

/-- A parameter. -/
def param : Form (GraphM ParamId) := do
  let name ← ask "name" .name
  let sequence ← ask "seq" .number
  let flags ← ask "flags" .flags
  return makeParam name sequence flags

/-- A property. -/
def property : Form (GraphM PropertyId) := do
  let name ← ask "name" .name
  let flags ← ask "flags" .flags
  let sig ← ask "sig" (.optional .property)
  return makeProperty name flags sig

/-- An event. -/
def event : Form (GraphM EventId) := do
  let name ← ask "name" .name
  let flags ← ask "flags" .flags
  let type ← ask "type" (.optional .type)
  return makeEvent name flags type

/-- A reference to a member. -/
def memberRef : Form (GraphM MemberRefId) := do
  let module ← ask "module" (.entity .module)
  let name ← ask "name" .name
  let parent ← ask "class" (.optional .parent)
  let sig ← ask "sig" (.optional .signature)
  return makeMemberRef module name parent sig

/-- An instantiated method. -/
def methodSpec : Form (GraphM MethodSpecId) := do
  let method ← ask "method" .methodRef
  let args ← ask "args" (.list .sig)
  return makeMethodSpec method args

/-- A generic parameter. -/
def genericParam : Form (GraphM GenericParamId) := do
  let name ← ask "name" .name
  let number ← ask "number" .number
  let flags ← ask "flags" .flags
  return makeGenericParam name number flags

/-- An exported type. -/
def exportedType : Form (GraphM ExportedTypeId) := do
  let module ← ask "module" (.entity .module)
  let space ← ask "ns" .name
  let name ← ask "name" .name
  let flags ← ask "flags" .flags
  let implementation ← ask "impl" (.optional .implementation)
  return makeExportedType module space name flags implementation

/-- A resource that is kept in a place of its own. -/
def linked {k : Kind} (field : String) (at_ : Id k → Implementation) :
    Form (GraphM ResourceId) := do
  let name ← ask "name" .name
  let place ← ask field (.entity k)
  let flags ← ask "flags" .flags
  return makeLinkedResource name (at_ place) flags

/-- The entities that can be made. -/
def all : List (String × Form (GraphM Node)) :=
  [("Module", made do return makeModule (← ask "name" .name)),
    ("Assembly", made do return makeAssembly (← ask "identity" .identity)),
    ("TypeDef", made typeDef),
    ("TypeRef", made typeRef),
    ("TypeSpec", made do return makeTypeSpec (← ask "sig" .sig)),
    ("Field", made field),
    ("MethodDef", made methodDef),
    ("Param", made param),
    ("Property", made property),
    ("Event", made event),
    ("MemberRef", made memberRef),
    ("MethodSpec", made methodSpec),
    ("GenericParam", made genericParam),
    ("Constraint", made do return makeConstraint (← ask "type" .type)),
    ("AssemblyRef", made do
      return makeAssemblyRef (← ask "identity" .identity) (← ask "flags" .flags)),
    ("ModuleRef", made do return makeModuleRef (← ask "name" .name)),
    ("File", made do return makeFile (← ask "name" .name) (← ask "flags" .flags)),
    ("ExportedType", made exportedType),
    ("Embedded", made do
      return makeEmbeddedResource (← ask "name" .name) (← ask "data" .bytes)
        (← ask "flags" .flags)),
    ("AssemblyLinked", made (linked "assembly" .assemblyRef)),
    ("Linked", made (linked "file" .file)),
    ("Attribute", made do
      return makeCustomAttribute (← ask "ctor" .methodRef) (← ask "value" .bytes)),
    ("Security", made do
      let action ← ask "action" (.refine .word SecurityAction.ofNumber?)
      return makeDeclSecurity action (← ask "set" .bytes))]

/-- The ways of opening a store. -/
def opening : List (String × (Store → InitPolicy → GraphM (Except Error Node))) :=
  [("load_module", fun s policy => do return (← openModule s policy).map Id.node),
    ("load_assembly", fun s policy => do return (← openAssembly s policy).map Id.node)]

end CliMetadata.Creation
