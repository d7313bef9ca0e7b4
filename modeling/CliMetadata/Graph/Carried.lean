import CliMetadata.Graph.Modules

/-!
# Lists without owners

What entities carry, and what a module exports, is kept in lists that know no
back-reference: an entry can be in several of them, or twice in one.  Such a list
only grows, and it is read before it does, so that what the store lists comes
first.
-/

namespace CliMetadata

/-- Puts an entry at the end of the list in a slot, after what reading the list
gives. -/
def appendTo {α : Type} (read : GraphM (List α)) (slot : SlotIn Graph (List α)) (entry : α) :
    GraphM Unit := do
  let entries ← read
  modify (slot.publish (entries ++ [entry]))

/-- Gives an entity another attribute. -/
def addCustomAttribute (n : Node) (a : CustomAttributeId) : GraphM Unit :=
  appendTo (customAttributes n) (Graph.attributeSlot n) a

/-- Gives an entity another security declaration. -/
def addDeclSecurity (n : Node) (s : SecurityId) : GraphM Unit :=
  appendTo (declSecurities n) (Graph.securitySlot n) s

/-- Exports another type from a module. -/
def ModuleId.addExportedType (m : ModuleId) (e : ExportedTypeId) : GraphM Unit :=
  appendTo m.exportedTypes m.exportedTypesSlot e

/-- Gives a module another resource. -/
def ModuleId.addResource (m : ModuleId) (r : ResourceId) : GraphM Unit :=
  appendTo m.resources m.resourcesSlot r

/-- Gives a generic parameter another constraint. -/
def GenericParamId.addConstraint (p : GenericParamId) (c : ConstraintId) : GraphM Unit :=
  appendTo p.constraints p.constraintsSlot c

/-- Gives a method another override. -/
def MethodDefId.addOverride (m : MethodDefId) (o : MethodOverride) : GraphM Unit :=
  appendTo m.overrides m.overridesSlot o

/-- Gives a method another debug record. -/
def MethodDefId.addDebugInfo (m : MethodDefId) (d : DebugInfo) : GraphM Unit :=
  appendTo m.debugInfos m.debugInfosSlot d

/-- Changes the accessors of a property. -/
def PropertyId.changeAccessors (p : PropertyId) (f : PropertyAccessors → PropertyAccessors) :
    GraphM Unit := do
  let accessors ← p.accessors
  modify (p.accessorsSlot.publish (f accessors))

/-- Gives a property another getter. -/
def PropertyId.addGetter (p : PropertyId) (m : MethodDefId) : GraphM Unit :=
  p.changeAccessors fun a => { a with getters := a.getters ++ [m] }

/-- Gives a property another setter. -/
def PropertyId.addSetter (p : PropertyId) (m : MethodDefId) : GraphM Unit :=
  p.changeAccessors fun a => { a with setters := a.setters ++ [m] }

/-- Gives a property another method of some other role. -/
def PropertyId.addOther (p : PropertyId) (m : MethodDefId) : GraphM Unit :=
  p.changeAccessors fun a => { a with others := a.others ++ [m] }

/-- Gives an event another method of some other role. -/
def EventId.addOther (e : EventId) (m : MethodDefId) : GraphM Unit := do
  let accessors ← e.accessors
  modify (e.accessorsSlot.publish { accessors with others := accessors.others ++ [m] })

end CliMetadata
