import CliMetadata.Graph.Entity

/-!
# The graph

A graph holds what is each entity's own (`entities`) and, for all kinds alike,
which entity is in which container.  An **edge** is a sort of containment; for
each edge a container has a list of children (`lists`) and a child a
back-reference to its container (`owners`).  Both are slots: a missing entry has
not been read from the store yet.

An entity that is not in `entities` has either not been read yet, and then its
columns are those of its row (`Graph.get`), or it has been destroyed.  A module
and everything read through it live as long as the module is in the graph; a
back-reference to an entity that is gone reads as none (`Graph.alive`).
-/

namespace CliMetadata

/-- The sorts of containment. -/
inductive Edge where
  | moduleTypes | nestedTypes | fields | methods | properties | events | params
  | genericParams | assemblyModules
deriving Repr, DecidableEq

namespace Edge

/-- The kind of the children. -/
def childKind : Edge → Kind
  | moduleTypes | nestedTypes => .typeDef
  | fields => .field
  | methods => .methodDef
  | properties => .property
  | events => .event
  | params => .param
  | genericParams => .genericParam
  | assemblyModules => .module

/-- The kinds of the containers. -/
def ownerKinds : Edge → List Kind
  | moduleTypes => [.module]
  | nestedTypes | fields | methods | properties | events => [.typeDef]
  | params => [.methodDef]
  | genericParams => [.typeDef, .methodDef]
  | assemblyModules => [.assembly]

/-- The edge that excludes this one: a type is in a module or in another type,
not in both. -/
def rival? : Edge → Option Edge
  | moduleTypes => some nestedTypes
  | nestedTypes => some moduleTypes
  | _ => none

/-- The word for a child. -/
def childWord : Edge → String
  | moduleTypes => "type"
  | nestedTypes => "nested type"
  | fields => "field"
  | methods => "method"
  | properties => "property"
  | events => "event"
  | params => "parameter"
  | genericParams => "generic parameter"
  | assemblyModules => "module"

/-- Every edge. -/
def all : List Edge :=
  [moduleTypes, nestedTypes, fields, methods, properties, events, params, genericParams,
    assemblyModules]

end Edge

/-- A key beside an edge. -/
instance {κ : Type} [Coded κ] : Coded (Edge × κ) where
  code entry := entry.1.ctorIdx :: Coded.code entry.2
  order a b := (compare a.1.ctorIdx b.1.ctorIdx).then (Coded.order a.2 b.2)
  code_inj {a b} h := by
    obtain ⟨he, hk⟩ := List.cons.inj h
    have he := congrArg Edge.ofNat he
    simp only [Edge.ofNat_ctorIdx] at he
    exact Prod.ext he (Coded.code_inj hk)
  order_eq a b := by rw [List.compare_cons_cons, Coded.order_eq]

/-- How often a store has been asked for children and for signatures. -/
structure Reads where
  children : Nat
  signatures : Nat
deriving Repr, DecidableEq

instance : Inhabited Reads := ⟨⟨0, 0⟩⟩

/-- A graph of entities. -/
structure Graph where
  /-- How many entities have been made; the next one gets this number. -/
  built : Nat
  entities : Index Node Entity
  /-- The container of a child, none for a child that is in none. -/
  owners : Index (Edge × Key) (Option Node)
  /-- The children of a container. -/
  lists : Index (Edge × Node) (List Key)
  attributes : Index Node (List CustomAttributeId)
  securities : Index Node (List SecurityId)
  /-- What the store of each module has been asked for. -/
  reads : Index Nat Reads

/-- A computation over a graph. -/
abbrev GraphM := StateM Graph

/-- The structure of what is an entity's own, for a kind. -/
class Recorded (k : Kind) (ρ : outParam Type) where
  pack : ρ → Entity
  unpack? : Entity → Option ρ
  unpack?_pack : ∀ r, unpack? (pack r) = some r
  /-- What is read of an entity that does not exist. -/
  blank : ρ
  /-- An entity as the row at a place of its table has it; nothing else has been
  read yet. -/
  ofRow? : (store : Store) → (loader place : Nat) → Option ρ

namespace Graph

/-- The graph without entities. -/
def empty : Graph := ⟨0, .empty, .empty, .empty, .empty, .empty, .empty⟩

instance : Inhabited Graph := ⟨empty⟩

/-- What a module is read through. -/
def loader? (g : Graph) (number : Nat) : Option Loader :=
  match g.entities.get? ⟨.module, .built number⟩ with
  | some (.module m) => m.loader
  | _ => none

/-- The store a module is read from, as long as the module exists. -/
def store? (g : Graph) (number : Nat) : Option Store := (g.loader? number).map (·.store)

/-- The module and the row that an entity is read from, as long as the module
exists. -/
def reader? (g : Graph) : Origin → Option (Nat × Nat)
  | .inMemory => none
  | .row loader rid => if (g.loader? loader).isSome then some (loader, rid) else none

/-- Whether an entity exists. -/
def alive (g : Graph) (n : Node) : Bool :=
  g.entities.contains n ||
    match n.key with
    | .row loader _ => (g.loader? loader).isSome
    | .built _ => false

/-- An entity, if it exists. -/
def upgrade (g : Graph) {k : Kind} (id : Id k) : Option (Id k) :=
  if g.alive id.node then some id else none

section Own

variable {k : Kind} {ρ : Type} [Recorded k ρ]

/-- What is an entity's own. -/
def get (g : Graph) (id : Id k) : ρ :=
  match (g.entities.get? id.node).bind (Recorded.unpack? k) with
  | some r => r
  | none =>
    match id.key with
    | .row loader place =>
      ((g.store? loader).bind fun s => Recorded.ofRow? k s loader place).getD (Recorded.blank k)
    | .built _ => Recorded.blank k

/-- The graph with something else as an entity's own. -/
def put (g : Graph) (id : Id k) (r : ρ) : Graph :=
  { g with entities := g.entities.set id.node (Recorded.pack k r) }

/-- The graph with what is an entity's own changed. -/
def update (g : Graph) (id : Id k) (f : ρ → ρ) : Graph := g.put id (f (g.get id))

/-- A slot among what is an entity's own. -/
def slot {α : Type} (id : Id k) (get : ρ → Slot α) (set : Slot α → ρ → ρ) : SlotIn Graph α where
  peek g := get (g.get id)
  publish v g := g.update id (set (some v))
  clear g := g.update id (set none)

end Own

/-- The slot of the container of a child. -/
def ownerSlot (e : Edge) (child : Key) : SlotIn Graph (Option Node) where
  peek g := g.owners.get? (e, child)
  publish v g := { g with owners := g.owners.set (e, child) v }
  clear g := { g with owners := g.owners.erase (e, child) }

/-- The slot of the children of a container. -/
def listSlot (e : Edge) (owner : Node) : SlotIn Graph (List Key) where
  peek g := g.lists.get? (e, owner)
  publish v g := { g with lists := g.lists.set (e, owner) v }
  clear g := { g with lists := g.lists.erase (e, owner) }

/-- The slot of the attributes of an entity. -/
def attributeSlot (n : Node) : SlotIn Graph (List CustomAttributeId) where
  peek g := g.attributes.get? n
  publish v g := { g with attributes := g.attributes.set n v }
  clear g := { g with attributes := g.attributes.erase n }

/-- The slot of the security declarations of an entity. -/
def securitySlot (n : Node) : SlotIn Graph (List SecurityId) where
  peek g := g.securities.get? n
  publish v g := { g with securities := g.securities.set n v }
  clear g := { g with securities := g.securities.erase n }

/-- The graph in which an entity has been read as being in no container,
containing nothing and carrying nothing. -/
def settle (n : Node) (g : Graph) : Graph :=
  let g := (Edge.all.filter fun e => e.childKind = n.kind).foldl
    (fun g e => (ownerSlot e n.key).publish none g) g
  let g := (Edge.all.filter fun e => e.ownerKinds.contains n.kind).foldl
    (fun g e => (listSlot e n).publish [] g) g
  let g := if n.kind.hasAttributes then (attributeSlot n).publish [] g else g
  if n.kind.hasSecurities then (securitySlot n).publish [] g else g

end Graph

/-! ## Making entities -/

/-- Makes an entity of which nothing but the given has been read. -/
def makeUnread (k : Kind) {ρ : Type} [Recorded k ρ] (r : ρ) : GraphM (Id k) := do
  let id : Id k := ⟨.built (← get).built⟩
  modify fun g => { g.put id r with built := g.built + 1 }
  return id

/-- Makes an entity that is in no container, contains nothing and carries
nothing. -/
def make (k : Kind) {ρ : Type} [Recorded k ρ] (r : ρ) : GraphM (Id k) := do
  let id ← makeUnread k r
  modify (Graph.settle id.node)
  return id

end CliMetadata
