import CliMetadata.Graph.Recorded

/-!
# How long entities live

An entity holds the entities that its columns refer to, those in its lists, and
what it carries; a module holds every entity that was read from its rows.
Nothing holds a container for being in it, and a reference to a type or a member
does not hold its module: those references are read through `Graph.alive`.

An entity lives while somebody outside the graph holds it (`held`) or a living
entity does, be it itself.  `release` counts the holds on each entity (`holds`)
and destroys those that have none, and with them those that only they held, one
generation after another (`doomed`); so entities that hold each other stay.
-/

namespace CliMetadata

/-- The types that an optional slot with signatures in it refers to. -/
def sigNodes {α : Type} (refs : α → List TypeDefOrRef) (slot : Slot (Option α)) : List Node :=
  match slot with
  | some (some x) => (refs x).map TypeDefOrRef.node
  | _ => []

/-- The entity that an optional slot refers to. -/
def slotNode {α : Type} (node : α → Node) (slot : Slot (Option α)) : List Node :=
  match slot with
  | some (some x) => [node x]
  | _ => []

/-- The entities that a list in a slot refers to. -/
def slotNodes {α : Type} (node : α → Node) (slot : Slot (List α)) : List Node :=
  match slot with
  | some xs => xs.map node
  | none => []

/-- The entity that a scope holds; a module is not held. -/
def ResolutionScope.heldNodes : ResolutionScope → List Node
  | module _ => []
  | other => [other.node]

/-- The entities that the accessors of a property hold. -/
def PropertyAccessors.heldNodes (a : PropertyAccessors) : List Node :=
  (a.getters ++ a.setters ++ a.others).map Id.node

/-- The entities that the accessors of an event hold. -/
def EventAccessors.heldNodes (a : EventAccessors) : List Node :=
  (a.add.toList ++ a.remove.toList ++ a.fire.toList ++ a.others).map Id.node

/-- The entities that an entity's own columns hold. -/
def Entity.heldNodes : Entity → List Node
  | module e => slotNodes Id.node e.exportedTypes ++ slotNodes Id.node e.resources
  | assembly _ => []
  | typeDef e => slotNode TypeDefOrRef.node e.base
  | typeRef e =>
    match e.scope with
    | some (some s) => s.heldNodes
    | _ => []
  | typeSpec e => sigNodes TypeSig.refs e.sig
  | field e => sigNodes TypeSig.refs e.sig ++ slotNode Id.node e.constant
  | methodDef e =>
    sigNodes MethodSig.refs e.sig ++ slotNode Id.node e.implMap
      ++ (e.overrides.getD []).flatMap fun o => [o.body.node, o.declaration.node]
  | param e => slotNode Id.node e.constant
  | property e =>
    sigNodes PropertySig.refs e.sig ++ (e.accessors.map (·.heldNodes)).getD []
      ++ slotNode Id.node e.constant
  | event e => slotNode TypeDefOrRef.node e.eventType ++ (e.accessors.map (·.heldNodes)).getD []
  | memberRef e => slotNode MemberParent.node e.parent ++ sigNodes Signature.refs e.sig
  | methodSpec e => slotNode MethodDefOrRef.node e.method ++ sigNodes TypeSig.refsAll e.args
  | genericParam e => slotNodes Id.node e.constraints
  | constraint e => (e.constraint.map TypeDefOrRef.node).toList
  | assemblyRef _ | moduleRef _ | file _ | constant _ | security _ => []
  | exportedType e => slotNode Implementation.node e.implementation
  | resource e => slotNode Implementation.node e.implementation
  | customAttribute e => (e.constructor.map MethodDefOrRef.node).toList
  | implMap e => (e.scope.map Id.node).toList

namespace Graph

/-- Whether a module holds an entity for having been read from its rows. -/
def readFrom (n : Node) (m : Node) : Bool :=
  match n.key, m.key with
  | .row loader _, .built number => m.kind == .module && loader == number
  | _, _ => false

/-- The entities that an entity of the graph holds. -/
def heldBy (g : Graph) (n : Node) (e : Entity) : List Node :=
  e.heldNodes
    ++ ((g.attributes.get? n).getD []).map Id.node
    ++ ((g.securities.get? n).getD []).map Id.node
    ++ (Edge.all.filter fun edge => edge.ownerKinds.contains n.kind).flatMap (fun edge =>
      ((g.lists.get? (edge, n)).getD []).map fun child => ⟨edge.childKind, child⟩)
    ++ if n.kind = .module then g.entities.keys.filter fun other => readFrom other n else []

/-- The entities that an entity holds, none for one that does not exist. -/
def holdings (g : Graph) (n : Node) : List Node :=
  ((g.entities.get? n).map (g.heldBy n)).getD []

/-- One more hold on an entity. -/
def hold (holds : Index Node Nat) (n : Node) : Index Node Nat :=
  holds.set n ((holds.get? n).getD 0 + 1)

/-- How often each entity is held, from outside or by an entity of the graph. -/
def holds (g : Graph) (held : List Node) : Index Node Nat :=
  g.entities.entries.foldl (fun holds entry => (g.heldBy entry.1 entry.2).foldl hold holds)
    (held.foldl hold .empty)

/-- One hold less on an entity, which joins the `freed` if it was the last one. -/
def letGo (freed : List Node × Index Node Nat) (n : Node) : List Node × Index Node Nat :=
  let count := (freed.2.get? n).getD 0
  (if count = 1 then n :: freed.1 else freed.1, freed.2.set n (count - 1))

/-- The entities that are destroyed when the `dying` are: these, and in turn those
that nothing else holds, in at most so many generations. -/
def doomed (g : Graph) : (generations : Nat) → (dying : List Node) → Index Node Nat → List Node
  | 0, _, _ => []
  | _, [], _ => []
  | n + 1, dying, holds =>
    let (freed, holds) := (dying.flatMap g.holdings).foldl letGo ([], holds)
    dying ++ doomed g n (freed.filter g.entities.contains) holds

/-- The graph without some entities. -/
def eraseAll (g : Graph) (dead : List Node) : Graph :=
  let mark : Index Node Unit := dead.foldl (fun mark n => mark.set n ()) .empty
  let lives (n : Node) : Bool := !mark.contains n
  { g with
    entities := g.entities.filter lives
    owners := g.owners.filter fun k => lives ⟨k.1.childKind, k.2⟩
    lists := g.lists.filter fun k => lives k.2
    attributes := g.attributes.filter lives
    securities := g.securities.filter lives }

/-- Destroys what nobody holds, given what is held from outside. -/
def release (held : List Node) (g : Graph) : Graph :=
  let holds := g.holds held
  match g.entities.keys.filter fun n => !holds.contains n with
  | [] => g
  | unheld => g.eraseAll (g.doomed g.entities.size unheld holds)

end Graph
end CliMetadata
