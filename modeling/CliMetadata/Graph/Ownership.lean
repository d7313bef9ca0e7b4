import CliMetadata.Graph.Loading
import CliMetadata.Order

/-!
# Containers and their children

Every sort of containment (`Edge`) is kept on two sides: a list in the container
and a back-reference in the child.  Both are read from the store on demand, and
they are written together by the operations of this module.

**Reading a list** (`items`) takes over the children that the store lists for
the container, each unless it is claimed: a row that another container has
already, or a type that a container of the other sort has, is replaced by a
private copy.  **Adding** (`insert`) refuses a claimed child, and **moving**
(`reassign`) takes a child out of its list before it adds it to another.
-/

namespace CliMetadata.Ownership

open Loading

/-! ## Back-references -/

/-- The entity of a row that may be a child on an edge. -/
def sharedChild (e : Edge) (loader place : Nat) : GraphM (Option Key) := do
  match e with
  | .moduleTypes | .nestedTypes => return (← shared .typeDef loader place).map (·.key)
  | .fields => return (← shared .field loader place).map (·.key)
  | .methods => return (← shared .methodDef loader place).map (·.key)
  | .properties => return (← shared .property loader place).map (·.key)
  | .events => return (← shared .event loader place).map (·.key)
  | .params => return (← shared .param loader place).map (·.key)
  | .genericParams => return (← shared .genericParam loader place).map (·.key)
  | .assemblyModules => return none

/-- A private copy of the entity of a row. -/
def copyChild (e : Edge) (loader place : Nat) : GraphM (Option Key) := do
  match e with
  | .moduleTypes | .nestedTypes => return (← copy .typeDef loader place).map (·.key)
  | .fields => return (← copy .field loader place).map (·.key)
  | .methods => return (← copy .methodDef loader place).map (·.key)
  | .properties => return (← copy .property loader place).map (·.key)
  | .events => return (← copy .event loader place).map (·.key)
  | .params => return (← copy .param loader place).map (·.key)
  | .genericParams => return (← copy .genericParam loader place).map (·.key)
  | .assemblyModules => return none

/-- The relation of a store that an edge is read from. -/
def relation : Edge → Relation
  | .moduleTypes => .typeDefs
  | .nestedTypes => .nestedTypes
  | .fields => .fields
  | .methods => .methods
  | .properties => .properties
  | .events => .events
  | .params => .params
  | .genericParams | .assemblyModules => .genericParams

/-- The container that the store names for the row of a child. -/
def storedOwner (e : Edge) (loader rid : Nat) : GraphM (Option Node) := do
  let child := Token.ofParts e.childKind.table rid
  match e with
  | .moduleTypes =>
    return if (← parent? loader .typeDefs child) = some Store.moduleToken
      then some ⟨.module, .built loader⟩ else none
  | .nestedTypes | .fields | .methods | .properties | .events =>
    match ← parent? loader (relation e) child with
    | none => return none
    | some owner =>
      if owner.tableId? = some .typeDef
      then return (← shared .typeDef loader owner.row.val).map Id.node
      else return none
  | .params =>
    match ← parent? loader .params child with
    | none => return none
    | some owner =>
      if owner.tableId? = some .methodDef
      then return (← shared .methodDef loader owner.row.val).map Id.node
      else return none
  | .genericParams =>
    match ← rowAt (·.genericParams) loader rid with
    | none => return none
    | some row => typeOrMethod loader row.owner
  | .assemblyModules => return none

/-- The container of a child; one that has been destroyed counts as none. -/
def owner (e : Edge) (child : Key) : GraphM (Option Node) := do
  let origin := (← get).origin ⟨e.childKind, child⟩
  let held ← (Graph.ownerSlot e child).getRelaxed (fromStore origin none (storedOwner e))
  let g ← get
  return held.filter g.alive

/-- Writes the back-reference of a child. -/
def setOwner (e : Edge) (child : Key) (owner : Option Node) : GraphM Unit :=
  modify ((Graph.ownerSlot e child).publish owner)

/-- Whether a container of the rival sort has the child. -/
def claimed (e : Edge) (child : Key) : GraphM Bool := do
  match e.rival? with
  | none => return false
  | some rival => return (← owner rival child).isSome

/-! ## Lists -/

/-- Whether a container may take over a child read for it: no container of the rival
sort has the child, nor any other container of its own sort. -/
def free (e : Edge) (container : Node) (child : Key) : GraphM Bool := do
  if ← claimed e child then return false
  match ← owner e child with
  | none => return true
  | some o => return decide (o = container)

/-- What a container lists for a child read for it: the child itself where it is free,
else a private copy of its row. -/
def takeOver (e : Edge) (loader : Nat) (container : Node) (child : Key) :
    GraphM (Option Key) := do
  if ← free e container child then
    setOwner e child (some container)
    return some child
  else
    match ((← get).origin ⟨e.childKind, child⟩).rid? with
    | none => return none
    | some rid =>
      match ← copyChild e loader rid with
      | none => return none
      | some copied =>
        setOwner e copied (some container)
        return some copied

/-- Takes over the children read for a container, copying those that are
claimed; a claimed one without a row is left out. -/
def adopt (e : Edge) (loader : Nat) (container : Node) : List Key → GraphM (List Key) :=
  collect (takeOver e loader container)

/-- The number by which the children on an edge are ordered, where they are. -/
def orderKey? (g : Graph) : Edge → Option (Key → Nat)
  | .params => some fun key => (g.get (⟨key⟩ : ParamId)).sequence
  | .genericParams => some fun key => (g.get (⟨key⟩ : GenericParamId)).number
  | _ => none

/-- The children in the order in which a container lists them. -/
def ordered (g : Graph) (e : Edge) (candidates : List Key) : List Key :=
  match orderKey? g e with
  | some key => sortBy key candidates
  | none => candidates

/-- The children that the store lists for the row of a container.  A type is
never read as nested in itself. -/
def storedItems (e : Edge) (container : Node) (loader rid : Nat) : GraphM (List Key) := do
  let owner :=
    if e = .moduleTypes then Store.moduleToken else Token.ofParts container.kind.table rid
  let rids ← children loader (relation e) owner
  let rids := if e = .nestedTypes then rids.filter (· != rid) else rids
  let candidates ← collect (sharedChild e loader) rids
  adopt e loader container (ordered (← get) e candidates)

/-- The children of a container. -/
def items (e : Edge) (container : Node) : GraphM (List Key) := do
  let origin := (← get).origin container
  (Graph.listSlot e container).getRelaxed (fromStore origin [] (storedItems e container))

/-- Writes the children of a container. -/
def setItems (e : Edge) (container : Node) (children : List Key) : GraphM Unit :=
  modify ((Graph.listSlot e container).publish children)

/-- Whether a container lists a child. -/
def contains (e : Edge) (container : Node) (child : Key) : GraphM Bool := do
  return (← items e container).contains child

/-- The place of a child in a container's list. -/
def indexOf? (e : Edge) (container : Node) (child : Key) : GraphM (Option Nat) := do
  return (← items e container).idxOf? child

/-- The child at a place of a container's list. -/
def child? (e : Edge) (container : Node) (index : Nat) : GraphM (Option Key) := do
  return (← items e container)[index]?

/-- How many children a container has. -/
def size (e : Edge) (container : Node) : GraphM Nat := do
  return (← items e container).length

/-! ## Changing lists -/

/-- Why a container refuses a child, if it does. -/
def refusal? (e : Edge) (container : Node) (child : Key) : GraphM (Option OwnershipError) := do
  if ← claimed e child then return some (.otherSort e.childWord)
  match ← owner e child with
  | none => return none
  | some o => return if o = container then none else some (.otherContainer e.childWord)

/-- Puts a child at a place of a container's list, or at its end where the list
is shorter.  A child that is in the list already stays where it is. -/
def insert (e : Edge) (container : Node) (index : Nat) (child : Key) :
    GraphM (Except OwnershipError Unit) := do
  if !(← get).alive container then return .error (.containerGone e.childWord)
  let before ← items e container
  match ← refusal? e container child with
  | some refusal => return .error refusal
  | none =>
    if child ∈ before then return .ok ()
    setOwner e child (some container)
    setItems e container (before.insertIdx (min index before.length) child)
    return .ok ()

/-- Puts a child at the end of a container's list. -/
def add (e : Edge) (container : Node) (child : Key) : GraphM (Except OwnershipError Unit) := do
  if !(← get).alive container then return .error (.containerGone e.childWord)
  insert e container (← items e container).length child

/-- Takes a child out of a container's list; whether it was in it. -/
def remove (e : Edge) (container : Node) (child : Key) : GraphM Bool := do
  let before ← items e container
  if child ∈ before then
    setItems e container (before.erase child)
    setOwner e child none
    return true
  else return false

/-- Takes the child at a place out of a container's list. -/
def removeAt (e : Edge) (container : Node) (index : Nat) : GraphM (Option Key) := do
  let before ← items e container
  match before[index]? with
  | none => return none
  | some child =>
    setItems e container (before.eraseIdx index)
    setOwner e child none
    return some child

/-- Takes every child out of a container's list. -/
def clear (e : Edge) (container : Node) : GraphM Unit := do
  let before ← items e container
  setItems e container []
  modify fun g => before.foldl (fun g child => (Graph.ownerSlot e child).publish none g) g

/-- Moves a child to a container, or out of the one it is in. -/
def reassign (e : Edge) (child : Key) (target : Option Node) :
    GraphM (Except OwnershipError Unit) := do
  let current ← owner e child
  if current = target then return .ok ()
  match current with
  | none => pure ()
  | some container =>
    if !(← remove e container child) then setOwner e child none
  match target with
  | none => return .ok ()
  | some container => add e container child

end CliMetadata.Ownership
