import CliMetadata.Graph.Chain
import CliMetadata.Graph.Ownership

/-!
# Types, type references and type specifications

Reading a type in memory and reading one from a store are the same here: each
accessor reads a slot, and the slot is filled from the store where the entity
stands for a row.

The **path** of a type is its namespace and name below those of the types that
enclose it; types and references are compared by path.  A **full name** writes
the path with a slash between the levels.
-/

namespace CliMetadata

open Loading

/-- The namespace and name of each level, outermost first. -/
abbrev TypePath := List (Name × Name)

/-- The attributes of an entity. -/
def customAttributes (n : Node) : GraphM (List CustomAttributeId) := do
  let origin := (← get).origin n
  (Graph.attributeSlot n).getRelaxed
    (fromStore origin [] fun loader rid => attributes loader (Token.ofParts n.kind.table rid))

/-- The security declarations of an entity. -/
def declSecurities (n : Node) : GraphM (List SecurityId) := do
  let origin := (← get).origin n
  (Graph.securitySlot n).getRelaxed
    (fromStore origin [] fun loader rid => securities loader (Token.ofParts n.kind.table rid))

/-- Reads a slot of an entity that is filled by a computation over its row. -/
def readSlot {k : Kind} {ρ α : Type} [Recorded k ρ] (id : Id k) (slot : SlotIn Graph α)
    (absent : α) (compute : (loader rid : Nat) → GraphM α) : GraphM α := do
  let origin := (← get).origin id.node
  slot.getRelaxed (fromStore origin absent compute)

namespace TypeDefId

/-- The slot of the base type. -/
def baseSlot (t : TypeDefId) : SlotIn Graph (Option TypeDefOrRef) :=
  Graph.slot t (·.base) fun v r => { r with base := v }

/-- The base type. -/
def base (t : TypeDefId) : GraphM (Option TypeDefOrRef) :=
  readSlot t (baseSlot t) none fun loader rid => do
    match ← rowAt (·.typeDefs) loader rid with
    | none => return none
    | some row => typeDefOrRef loader row.base

/-- The module that lists the type. -/
def ownerModule (t : TypeDefId) : GraphM (Option ModuleId) := do
  return (← Ownership.owner .moduleTypes t.key).map fun n => ⟨n.key⟩

/-- The type that lists the type as nested in it. -/
def declaringType (t : TypeDefId) : GraphM (Option TypeDefId) := do
  return (← Ownership.owner .nestedTypes t.key).map fun n => ⟨n.key⟩

/-- The module of the outermost of `t` and the types that enclose it; none where
more than `bound` types enclose `t`. -/
def moduleWithin : (bound : Nat) → TypeDefId → GraphM (Option ModuleId)
  | bound, t => do
    match ← declaringType t with
    | none => ownerModule t
    | some enclosing =>
      match bound with
      | 0 => return none
      | n + 1 => moduleWithin n enclosing

/-- The module of a type. -/
def module (t : TypeDefId) : GraphM (Option ModuleId) := moduleWithin recursionBound t

/-- Whether a type is nested in another. -/
def isNested (t : TypeDefId) : GraphM Bool := do return (← declaringType t).isSome

/-- The children of a type on an edge. -/
def children {k : Kind} (e : Edge) (t : TypeDefId) : GraphM (List (Id k)) := do
  return (← Ownership.items e t.node).map Id.mk

/-- The fields. -/
def fields (t : TypeDefId) : GraphM (List FieldId) := children .fields t

/-- The methods. -/
def methods (t : TypeDefId) : GraphM (List MethodDefId) := children .methods t

/-- The properties. -/
def properties (t : TypeDefId) : GraphM (List PropertyId) := children .properties t

/-- The events. -/
def events (t : TypeDefId) : GraphM (List EventId) := children .events t

/-- The types nested in a type. -/
def nestedTypes (t : TypeDefId) : GraphM (List TypeDefId) := children .nestedTypes t

/-- The generic parameters. -/
def genericParams (t : TypeDefId) : GraphM (List GenericParamId) := children .genericParams t

/-- The namespace and name of a type. -/
def level (g : Graph) (t : TypeDefId) : Name × Name :=
  let r := g.get t
  (r.space, r.name)

/-- The path of a type; none where the types that enclose it do not end within
the bound. -/
def path? (t : TypeDefId) : GraphM (Option TypePath) := do
  let (enclosing, ended) ← Chain.ancestors declaringType recursionBound (← declaringType t)
  let g ← get
  return if ended then some ((t :: enclosing).map (level g)).reverse else none

/-- The full name, of as many levels as the bound allows. -/
def fullName (t : TypeDefId) : GraphM String := do
  let (enclosing, _) ← Chain.ancestors declaringType recursionBound (← declaringType t)
  let g ← get
  return "/".intercalate
    ((t :: enclosing).map fun x => let (s, n) := level g x; Name.qualified s n).reverse

end TypeDefId

namespace TypeRefId

/-- The slot of the scope. -/
def scopeSlot (r : TypeRefId) : SlotIn Graph (Option ResolutionScope) :=
  Graph.slot r (·.scope) fun v e => { e with scope := v }

/-- Where the type is to be looked for. -/
def scope (r : TypeRefId) : GraphM (Option ResolutionScope) :=
  readSlot r (scopeSlot r) none fun loader rid => do
    match ← rowAt (·.typeRefs) loader rid with
    | none => return none
    | some row => resolutionScope loader row.scope

/-- The module that the reference belongs to. -/
def module (r : TypeRefId) : GraphM (Option ModuleId) := do
  let g ← get
  return g.upgrade (g.get r).module

/-- The reference that encloses a reference. -/
def declaringType (r : TypeRefId) : GraphM (Option TypeRefId) := do
  match ← scope r with
  | some (.typeRef enclosing) => return some enclosing
  | _ => return none

/-- Whether a reference is enclosed by another. -/
def isNested (r : TypeRefId) : GraphM Bool := do return (← declaringType r).isSome

/-- The outermost of a reference and those that enclose it; none where they do
not end within the bound. -/
def nonNested (r : TypeRefId) : GraphM (Option TypeRefId) :=
  Chain.outermost declaringType recursionBound r

/-- A reference below those that enclose it, outermost first; none where they do
not end within the bound. -/
def nestingChain (r : TypeRefId) : GraphM (Option (List TypeRefId)) := do
  return (← Chain.chain declaringType recursionBound r).map List.reverse

/-- The namespace and name of a reference. -/
def level (g : Graph) (r : TypeRefId) : Name × Name :=
  let e := g.get r
  (e.space, e.name)

/-- The path that a reference asks for; none where the references that enclose it
do not end within the bound. -/
def path? (r : TypeRefId) : GraphM (Option TypePath) := do
  let chain? ← nestingChain r
  let g ← get
  return chain?.map fun chain => chain.map (level g)

/-- The full name, of as many levels as the bound allows. -/
def fullName (r : TypeRefId) : GraphM String := do
  let (enclosing, _) ← Chain.ancestors declaringType recursionBound (← declaringType r)
  let g ← get
  return "/".intercalate
    ((r :: enclosing).map fun x => let (s, n) := level g x; Name.qualified s n).reverse

end TypeRefId

namespace TypeSpecId

/-- The slot of the signature. -/
def sigSlot (s : TypeSpecId) : SlotIn Graph (Option Sig) :=
  Graph.slot s (·.sig) fun v e => { e with sig := v }

/-- The signature. -/
def sig (s : TypeSpecId) : GraphM (Option Sig) :=
  readSlot s (sigSlot s) none fun loader rid => do
    match ← rowAt (·.typeSpecs) loader rid with
    | none => return none
    | some row => typeSig loader row.signature

/-- The type that a signature is about in the end, behind at most `bound` others. -/
def innermost? : (bound : Nat) → Sig → Option Sig
  | bound, t =>
    match t.next? with
    | none => some t
    | some next =>
      match bound with
      | 0 => none
      | n + 1 => innermost? n next

/-- The type named in the end by a signature, through at most `bound`
specifications. -/
def scopeTypeWithin : (bound : Nat) → Sig → GraphM (Option TypeDefOrRef)
  | 0, _ => return none
  | n + 1, t => do
    match (innermost? recursionBound t).bind TypeSig.named? with
    | some (.typeSpec spec) =>
      match ← sig spec with
      | some t' => scopeTypeWithin n t'
      | none => return none
    | other => return other

/-- The type that a specification is about in the end. -/
def scopeType (s : TypeSpecId) : GraphM (Option TypeDefOrRef) := do
  match ← sig s with
  | some t => scopeTypeWithin recursionBound t
  | none => return none

end TypeSpecId

/-- Where a type reference is to be looked for, as an entity; a module that has
been destroyed counts as none. -/
def ResolutionScope.upgrade? (g : Graph) : ResolutionScope → Option Node
  | module m => (g.upgrade m).map Id.node
  | other => some other.node

/-- The token of a scope; that of a destroyed module is null. -/
def ResolutionScope.token (g : Graph) (s : ResolutionScope) : Token :=
  ((s.upgrade? g).map g.token).getD .null

end CliMetadata
