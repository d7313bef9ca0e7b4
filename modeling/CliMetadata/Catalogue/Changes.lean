import CliMetadata.Catalogue.Form
import CliMetadata.Graph.Carried
import CliMetadata.Graph.InMemory
import CliMetadata.Graph.Initialisation

/-!
# Changes by name

What can be set on an entity, by kind, and what can be added to the lists that
have no owner.  A change fails only where a container refuses a child.
-/

namespace CliMetadata

open Form (ask)

/-- A change of a graph, which may be refused. -/
abbrev Change := GraphM (Except Error Unit)

/-- Named changes with their arguments. -/
abbrev Changes := List (String × Form Change)

/-- A change that is never refused. -/
def always (x : GraphM Unit) : Change := do
  x
  return .ok ()

/-- A change that a container may refuse. -/
def unlessRefused {α : Type} (x : GraphM (Except OwnershipError α)) : GraphM (Except Error α) := do
  return (← x).mapError .invalidOperation

namespace Changes

variable {k : Kind} {ρ α : Type} [Recorded k ρ]

/-- The form of a new value. -/
def value (shape : Shape α) (change : α → Change) : Form Change := do
  let v ← ask "v" shape
  return change v

/-- Sets a column. -/
def column (id : Id k) (shape : Shape α) (set : α → ρ → ρ) : Form Change :=
  value shape fun v => always (modify fun g => g.update id (set v))

/-- Publishes a value in a slot. -/
def inSlot (slot : SlotIn Graph α) (shape : Shape α) : Form Change :=
  value shape fun v => always (modify (slot.publish v))

/-- Moves a child to a container, or out of the one it is in. -/
def owner {j : Kind} (e : Edge) (child : Id j) (shape : Shape Node) : Form Change :=
  value (.optional shape) fun v => unlessRefused (Ownership.reassign e child.key v)

/-- The container of a kind. -/
def container (k : Kind) : Shape Node := .refine .node fun n => if n.kind = k then some n else none

/-- A constant out of its parts. -/
def constant : Shape (Option (GraphM ConstantId)) :=
  .optional (.record do
    let type ← ask "type" .byte
    let value ← ask "value" .bytes
    return makeConstant type value)

/-- Sets a slot to an entity that is made for it. -/
def madeInSlot {β : Type} (slot : SlotIn Graph (Option β)) (shape : Shape (Option (GraphM β))) :
    Form Change :=
  value shape fun make? => do
    let made ← make?.mapM id
    always (modify (slot.publish made))

/-- Sets the row number. -/
def rid (n : Node) : String × Form Change :=
  ("rid", value .number fun v => always (modify fun g => g.setRid n v))

/-- What can be set on a module. -/
def module (m : ModuleId) : Changes :=
  [rid m.node,
    ("name", column m .name fun v e => { e with name := v }),
    ("mvid", column m .guid fun v e => { e with mvid := v })]

/-- What can be set on an assembly. -/
def assembly (a : AssemblyId) : Changes :=
  [rid a.node, ("identity", column a .identity fun v e => { e with identity := v })]

/-- What can be set on a type. -/
def typeDef (t : TypeDefId) : Changes :=
  [rid t.node,
    ("flags", column t .flags fun v e => { e with flags := v }),
    ("namespace", column t .name fun v e => { e with space := v }),
    ("name", column t .name fun v e => { e with name := v }),
    ("base_type", inSlot t.baseSlot (.optional .type)),
    ("declaring_type", owner .nestedTypes t (container .typeDef))]

/-- What can be set on a type reference. -/
def typeRef (r : TypeRefId) : Changes :=
  [rid r.node,
    ("namespace", column r .name fun v e => { e with space := v }),
    ("name", column r .name fun v e => { e with name := v }),
    ("scope", inSlot r.scopeSlot (.optional .scope))]

/-- What can be set on a type specification. -/
def typeSpec (s : TypeSpecId) : Changes :=
  [rid s.node, ("type_sig", inSlot s.sigSlot (.optional .sig))]

/-- What can be set on a field. -/
def field (f : FieldId) : Changes :=
  [rid f.node,
    ("flags", column f .flags fun v e => { e with flags := v }),
    ("name", column f .name fun v e => { e with name := v }),
    ("signature", value (.optional .sig) fun v => always (f.setSig v)),
    ("declaring_type", owner .fields f (container .typeDef)),
    ("constant", madeInSlot f.constantSlot constant)]

/-- Where a native method is imported from, out of its parts. -/
def importOf : Shape (Option (GraphM ImplMapId)) :=
  .optional (.record do
    let scope ← ask "scope" (.entity .moduleRef)
    let name ← ask "name" .name
    let flags ← ask "flags" .flags
    return makeImplMap scope name flags)

/-- What can be set on a method. -/
def methodDef (m : MethodDefId) : Changes :=
  [rid m.node,
    ("flags", column m .flags fun v e => { e with flags := v }),
    ("impl_flags", column m .flags fun v e => { e with implFlags := v }),
    ("name", column m .name fun v e => { e with name := v }),
    ("signature", inSlot m.sigSlot (.optional .method)),
    ("declaring_type", owner .methods m (container .typeDef)),
    ("body", inSlot m.bodySlot (.optional (.record Shape.body))),
    ("impl_map", madeInSlot m.implMapSlot importOf),
    ("semantics", inSlot m.semanticsSlot .flags)]

/-- What can be set on a parameter. -/
def param (p : ParamId) : Changes :=
  [rid p.node,
    ("flags", column p .flags fun v e => { e with flags := v }),
    ("sequence", column p .number fun v e => { e with sequence := v }),
    ("name", column p .name fun v e => { e with name := v }),
    ("declaring_method", owner .params p (container .methodDef)),
    ("constant", madeInSlot p.constantSlot constant)]

/-- What can be set on a property. -/
def property (p : PropertyId) : Changes :=
  [rid p.node,
    ("flags", column p .flags fun v e => { e with flags := v }),
    ("name", column p .name fun v e => { e with name := v }),
    ("signature", value (.optional .property) fun v => always (p.setSig v)),
    ("declaring_type", owner .properties p (container .typeDef)),
    ("constant", madeInSlot p.constantSlot constant)]

/-- The accessors of an event. -/
def eventAccessors : Form EventAccessors := do
  let add ← ask "add" (.optional (.entity .methodDef))
  let remove ← ask "remove" (.optional (.entity .methodDef))
  let fire ← ask "fire" (.optional (.entity .methodDef))
  let others ← ask "others" (.list (.entity .methodDef))
  return ⟨add, remove, fire, others⟩

/-- What can be set on an event. -/
def event (e : EventId) : Changes :=
  [rid e.node,
    ("flags", column e .flags fun v r => { r with flags := v }),
    ("name", column e .name fun v r => { r with name := v }),
    ("event_type", inSlot e.eventTypeSlot (.optional .type)),
    ("declaring_type", owner .events e (container .typeDef)),
    ("accessors", inSlot e.accessorsSlot (.record eventAccessors))]

/-- What can be set on a member reference. -/
def memberRef (m : MemberRefId) : Changes :=
  [rid m.node,
    ("name", column m .name fun v e => { e with name := v }),
    ("class", inSlot m.parentSlot (.optional .parent)),
    ("signature", inSlot m.sigSlot (.optional .signature))]

/-- What can be set on an instantiated method. -/
def methodSpec (s : MethodSpecId) : Changes :=
  [rid s.node,
    ("method", inSlot s.methodSlot (.optional .methodRef)),
    ("instantiation", inSlot s.argsSlot (.optional (.list .sig)))]

/-- A container of generic parameters. -/
def genericContainer : Shape Node :=
  .refine .node fun n => if Edge.genericParams.ownerKinds.contains n.kind then some n else none

/-- What can be set on a generic parameter. -/
def genericParam (p : GenericParamId) : Changes :=
  [rid p.node,
    ("number", column p .number fun v e => { e with number := v }),
    ("flags", column p .flags fun v e => { e with flags := v }),
    ("name", column p .name fun v e => { e with name := v }),
    ("owner", owner .genericParams p genericContainer)]

/-- What can be set on an exported type. -/
def exportedType (x : ExportedTypeId) : Changes :=
  [rid x.node,
    ("flags", column x .flags fun v e => { e with flags := v }),
    ("namespace", column x .name fun v e => { e with space := v }),
    ("name", column x .name fun v e => { e with name := v }),
    ("implementation", inSlot x.implementationSlot (.optional .implementation))]

/-- What can be set on a resource. -/
def resource (r : ResourceId) : Changes :=
  [rid r.node,
    ("flags", column r .flags fun v e => { e with flags := v }),
    ("name", column r .name fun v e => { e with name := v }),
    ("data", inSlot r.dataSlot (.optional .bytes))]

/-- What can be set on an entity. -/
def ofNode (n : Node) : Changes :=
  match n.kind with
  | .module => module ⟨n.key⟩
  | .assembly => assembly ⟨n.key⟩
  | .typeDef => typeDef ⟨n.key⟩
  | .typeRef => typeRef ⟨n.key⟩
  | .typeSpec => typeSpec ⟨n.key⟩
  | .field => field ⟨n.key⟩
  | .methodDef => methodDef ⟨n.key⟩
  | .param => param ⟨n.key⟩
  | .property => property ⟨n.key⟩
  | .event => event ⟨n.key⟩
  | .memberRef => memberRef ⟨n.key⟩
  | .methodSpec => methodSpec ⟨n.key⟩
  | .genericParam => genericParam ⟨n.key⟩
  | .exportedType => exportedType ⟨n.key⟩
  | .resource => resource ⟨n.key⟩
  | .constraint | .assemblyRef | .moduleRef | .file | .customAttribute | .constant | .implMap
  | .security => []

/-! ## Adding to lists -/

/-- Adds an entity of a kind. -/
def entry (j : Kind) (add : Id j → GraphM Unit) : Form Change := do
  let child ← ask "child" (.entity j)
  return always (add child)

/-- The kinds whose list of attributes can be added to. -/
def attributeKinds : List Kind :=
  [.module, .assembly, .typeDef, .typeRef, .typeSpec, .field, .methodDef, .param, .property,
    .event, .assemblyRef]

/-- What can be added to the lists of one kind alone. -/
def ownAdditions (n : Node) : Changes :=
  match n.kind with
  | .module =>
    [("exported_types", entry .exportedType (ModuleId.addExportedType ⟨n.key⟩)),
      ("resources", entry .resource (ModuleId.addResource ⟨n.key⟩))]
  | .genericParam => [("constraints", entry .constraint (GenericParamId.addConstraint ⟨n.key⟩))]
  | .property =>
    [("getters", entry .methodDef (PropertyId.addGetter ⟨n.key⟩)),
      ("setters", entry .methodDef (PropertyId.addSetter ⟨n.key⟩)),
      ("others", entry .methodDef (PropertyId.addOther ⟨n.key⟩))]
  | .event => [("others", entry .methodDef (EventId.addOther ⟨n.key⟩))]
  | .methodDef =>
    [("overrides", do
        let body ← ask "body" .methodRef
        let declaration ← ask "decl" .methodRef
        return always (MethodDefId.addOverride ⟨n.key⟩ ⟨body, declaration⟩)),
      ("custom_debug_infos", do
        let guid ← ask "guid" .guid
        let data ← ask "data" .bytes
        return always (MethodDefId.addDebugInfo ⟨n.key⟩ (.ofGuid guid data)))]
  | _ => []

/-- What can be added to the lists of an entity that have no owner. -/
def additions (n : Node) : Changes :=
  ownAdditions n
    ++ (if attributeKinds.contains n.kind
      then [("custom_attributes", entry .customAttribute (addCustomAttribute n))] else [])
    ++ if n.kind.hasSecurities
      then [("decl_securities", entry .security (addDeclSecurity n))] else []

/-- Reads everything ahead for an entity, for the kinds that can. -/
def initialise? (n : Node) : Option (GraphM Unit) :=
  match n.kind with
  | .module => some (ModuleId.initialise ⟨n.key⟩)
  | .typeDef => some (TypeDefId.initialise ⟨n.key⟩)
  | .field => some (FieldId.initialise ⟨n.key⟩)
  | .methodDef => some (MethodDefId.initialise ⟨n.key⟩)
  | .param => some (ParamId.initialise ⟨n.key⟩)
  | .property => some (PropertyId.initialise ⟨n.key⟩)
  | .event => some (EventId.initialise ⟨n.key⟩)
  | _ => none

end Changes
end CliMetadata
