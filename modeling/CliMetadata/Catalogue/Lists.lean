import CliMetadata.Catalogue.Changes
import CliMetadata.Catalogue.Value
import CliMetadata.Graph.Lifetime
import CliMetadata.Graph.Opening

/-!
# Lists and look-ups by name

What can be done with the list of a container, what can be looked up in an
entity, and the entities of rows.
-/

namespace CliMetadata

open Form (ask)

/-- A computation that answers, or says what is wrong. -/
abbrev Operation := GraphM (Except Error Value)

/-- An operation that cannot go wrong. -/
def answering {α : Type} [ToValue α] (x : GraphM α) : Operation := do return .ok (toValue (← x))

/-- An operation that answers nothing but may go wrong. -/
def performing (x : Change) : Operation := do return (← x).map fun _ => .nothing

/-! ## Lists of containers -/

/-- The list of a name in a container of a kind. -/
def Edge.ofName? : Kind → String → Option Edge
  | .module, "types" => some moduleTypes
  | .assembly, "modules" => some assemblyModules
  | .typeDef, "fields" => some fields
  | .typeDef, "methods" => some methods
  | .typeDef, "properties" => some properties
  | .typeDef, "events" => some events
  | .typeDef, "nested_types" => some nestedTypes
  | .typeDef, "generic_params" => some genericParams
  | .methodDef, "params" => some params
  | .methodDef, "generic_params" => some genericParams
  | _, _ => none

namespace Lists

/-- A child on an edge. -/
def child (e : Edge) : Form (Id e.childKind) := ask "child" (.entity e.childKind)

/-- A place in a list. -/
def index : Form Nat := ask "index" .count

/-- A child as an entity. -/
def childNode (e : Edge) (key : Key) : Node := ⟨e.childKind, key⟩

/-- What can be done with the list of a container. -/
def operations (e : Edge) (container : Node) : List (String × Form Operation) :=
  [("add", do
      let c ← child e
      return performing (unlessRefused (Ownership.add e container c.key))),
    ("insert", do
      let i ← index
      let c ← child e
      return performing (unlessRefused (Ownership.insert e container i c.key))),
    ("clear", return answering (Ownership.clear e container)),
    ("remove", do
      let c ← child e
      return answering (Ownership.remove e container c.key)),
    ("contains", do
      let c ← child e
      return answering (Ownership.contains e container c.key)),
    ("remove_at", do
      let i ← index
      return answering (do return (← Ownership.removeAt e container i).map (childNode e))),
    ("get", do
      let i ← index
      return answering (do return (← Ownership.child? e container i).map (childNode e))),
    ("owner", return answering (do
      let _ ← Ownership.items e container
      return container)),
    ("index_of", do
      let c ← child e
      return answering (Ownership.indexOf? e container c.key)),
    ("len", return answering (Ownership.size e container)),
    ("is_empty", return answering (do return (← Ownership.size e container) == 0)),
    ("items", return answering (do
      return (← Ownership.items e container).map (childNode e)))]

/-- Adds a child to the list of a container that has been destroyed. -/
def addToGone (e : Edge) (container : GraphM Node) (c : Key) : Operation := do
  let gone ← container
  modify fun g => g.eraseAll [gone]
  performing (unlessRefused (Ownership.add e gone c))

/-- A new container of a kind that has lists. -/
def newContainer : Kind → GraphM Node
  | .module => Id.node <$> makeModule .empty
  | .assembly => Id.node <$> makeAssembly default
  | .methodDef => Id.node <$> makeMethodDef .empty 0 none
  | _ => Id.node <$> makeTypeDef .empty .empty 0

/-- The kind of container that a list is taken from, with the list. -/
def orphanList? : String → Option (Kind × Edge)
  | "method_generic_params" => some (.methodDef, .genericParams)
  | name =>
    [Kind.module, .assembly, .typeDef, .methodDef].findSome? fun k =>
      (Edge.ofName? k name).map fun e => (k, e)

/-- The lists whose container has been destroyed. -/
def orphanAdd : Form Operation := do
  let (kind, e) ← ask "list" (.refine .text orphanList?)
  let c ← child e
  return addToGone e (newContainer kind) c.key

/-- Moves a type between modules, or a module between assemblies. -/
def reassign : Form Operation := do
  let c ← ask "child" .node
  let target ← ask "to" (.optional (.refine .node fun n =>
    match c.kind, n.kind with
    | .typeDef, .module | .module, .assembly => some n
    | _, _ => none))
  let e ← ask "child" (.refine .node fun c =>
    match c.kind with
    | .typeDef => some Edge.moduleTypes
    | .module => some .assemblyModules
    | _ => none)
  return performing (unlessRefused (Ownership.reassign e c.key target))

end Lists

/-! ## Look-ups -/

namespace LookUp

/-- A namespace and a name. -/
def spaceAndName : Form (String × String) := do
  let space ← ask "ns" .text
  let name ← ask "name" .text
  return (space, name)

/-- A look-up by a namespace and a name. -/
def byName {α : Type} [ToValue α] (f : String → String → GraphM α) : Form Operation := do
  let (space, name) ← spaceAndName
  return answering (f space name)

/-- A look-up by a name. -/
def byText {α : Type} [ToValue α] (f : String → GraphM α) : Form Operation := do
  let name ← ask "name" .text
  return answering (f name)

/-- A look-up by a type reference. -/
def byRef {α : Type} [ToValue α] (f : TypeRefId → GraphM α) : Form Operation := do
  let r ← ask "ref" (.entity .typeRef)
  return answering (f r)

/-- A look-up by a name and a signature. -/
def bySig {α β : Type} [ToValue α] (shape : Shape β) (f : String → β → GraphM α) :
    Form Operation := do
  let name ← ask "name" .text
  let sig ← ask "sig" shape
  return answering (f name sig)

/-- What can be looked up in an entity. -/
def ofNode (n : Node) : List (String × Form Operation) :=
  match n.kind with
  | .module =>
    [("name", byName (ModuleId.findByName ⟨n.key⟩)),
      ("ref", byRef (ModuleId.find ⟨n.key⟩)),
      ("exported", byRef (ModuleId.findExported ⟨n.key⟩)),
      ("resource", byText (ModuleId.findResource ⟨n.key⟩))]
  | .assembly =>
    [("name", byName (AssemblyId.findByName ⟨n.key⟩)),
      ("ref", byRef (AssemblyId.find ⟨n.key⟩)),
      ("module", byText (AssemblyId.findModule ⟨n.key⟩))]
  | .typeDef =>
    [("method", bySig (.optional .method) (TypeDefId.findMethod ⟨n.key⟩)),
      ("field", bySig (.optional .sig) (TypeDefId.findField ⟨n.key⟩)),
      ("member", bySig .signature (TypeDefId.resolveMember ⟨n.key⟩)),
      ("property", byText (TypeDefId.findProperty ⟨n.key⟩)),
      ("event", byText (TypeDefId.findEvent ⟨n.key⟩)),
      ("nested", byText (TypeDefId.findNested ⟨n.key⟩))]
  | .methodDef =>
    [("param", do
      let sequence ← ask "seq" .number
      return answering (MethodDefId.param? ⟨n.key⟩ sequence))]
  | _ => []

/-- The row of a kind of entity. -/
def rowOf {k : Kind} (read : Nat → GraphM (Except Error (Id k))) (rid : Nat) : Operation := do
  return (← read rid).map toValue

/-- The entities of rows of a module, by table. -/
def rows (m : ModuleId) : List (TableId × (Nat → Operation)) :=
  [(.typeDef, rowOf m.typeDef),
    (.typeRef, rowOf m.typeRef),
    (.typeSpec, rowOf m.typeSpec),
    (.field, rowOf m.field),
    (.methodDef, rowOf m.methodDef),
    (.param, rowOf m.param),
    (.memberRef, rowOf m.memberRef),
    (.event, rowOf m.event),
    (.property, rowOf m.property),
    (.moduleRef, rowOf m.moduleRef),
    (.assemblyRef, rowOf m.assemblyRef),
    (.file, rowOf m.file),
    (.exportedType, rowOf m.exportedType),
    (.manifestResource, rowOf m.resource),
    (.genericParam, rowOf m.genericParam),
    (.methodSpec, rowOf m.methodSpec)]

/-- The entity of a row. -/
def row : Form Operation := do
  let m ← ask "h" (.entity .module)
  let read ← ask "table" (.refine .table fun t => (rows m).lookup t)
  let rid ← ask "rid" .number
  return read rid

end LookUp
end CliMetadata
