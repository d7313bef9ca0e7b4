import CliMetadata.Graph.Modules

/-!
# Reading everything ahead

An entity is initialised by reading its slots once, and a type by initialising
its members too.  Afterwards nothing that was read here is read from the store
again.
-/

namespace CliMetadata

/-- Runs a computation for its effects alone. -/
def touch {α : Type} (x : GraphM α) : GraphM Unit := do
  let _ ← x

/-- Reads what is stored for a field. -/
def FieldId.initialise (f : FieldId) : GraphM Unit := do
  touch f.sig
  touch f.declaringType
  touch f.constant
  touch (customAttributes f.node)

/-- Reads what is stored for a parameter. -/
def ParamId.initialise (p : ParamId) : GraphM Unit := do
  touch p.declaringMethod
  touch p.constant
  touch (customAttributes p.node)

/-- Reads what is stored for a method and its parameters. -/
def MethodDefId.initialise (m : MethodDefId) : GraphM Unit := do
  touch m.sig
  touch m.declaringType
  touch m.body
  touch m.implMap
  touch m.semantics
  touch m.genericParams
  touch m.overrides
  touch (customAttributes m.node)
  touch (declSecurities m.node)
  touch m.debugInfos
  (← m.params).forM ParamId.initialise

/-- Reads what is stored for a property. -/
def PropertyId.initialise (p : PropertyId) : GraphM Unit := do
  touch p.sig
  touch p.declaringType
  touch p.accessors
  touch p.constant
  touch (customAttributes p.node)

/-- Reads what is stored for an event. -/
def EventId.initialise (e : EventId) : GraphM Unit := do
  touch e.eventType
  touch e.declaringType
  touch e.accessors
  touch (customAttributes e.node)

/-- Reads what is stored for a type and its members. -/
def TypeDefId.initialise (t : TypeDefId) : GraphM Unit := do
  touch t.base
  touch t.declaringType
  touch t.genericParams
  touch (customAttributes t.node)
  touch (declSecurities t.node)
  (← t.fields).forM FieldId.initialise
  (← t.methods).forM MethodDefId.initialise
  (← t.properties).forM PropertyId.initialise
  (← t.events).forM EventId.initialise

/-- Reads what is stored for an exported type. -/
def ExportedTypeId.initialise (e : ExportedTypeId) : GraphM Unit := do
  touch e.implementation
  touch (customAttributes e.node)

/-- Reads what is stored for a resource. -/
def ResourceId.initialise (r : ResourceId) : GraphM Unit := do
  touch r.data
  touch (customAttributes r.node)

/-- Reads what is stored for a module and all its types. -/
def ModuleId.initialise (m : ModuleId) : GraphM Unit := do
  touch (customAttributes m.node)
  (← m.exportedTypes).forM ExportedTypeId.initialise
  (← m.resources).forM ResourceId.initialise
  (← m.allTypes).forM TypeDefId.initialise

end CliMetadata
