import CliMetadata.Catalogue.Lists
import CliMetadata.Containment
import CliMetadata.Inspection

/-!
# Judgements by name

Comparisons of types and signatures, the search for generic parameters, accounts
of signatures, and the resolution and replacement of references.
-/

namespace CliMetadata

open Form (ask)

/-! ## Comparing -/

namespace Comparisons

/-- The form of a comparison of two things of one shape. -/
def both {α : Type} (shape : Shape α) (equal : CompareOptions → α → α → GraphM Bool) :
    Form (GraphM Value) := do
  let options ← ask "options" .options
  let a ← ask "a" shape
  let b ← ask "b" shape
  return toValue <$> equal options a b

/-- The comparisons. -/
def all : List (String × Form (GraphM Value)) :=
  [("type", both .type CompareOptions.equalTypes),
    ("type_sig", both .sig CompareOptions.equalSigs),
    ("field_sig", both .sig CompareOptions.equalSigs),
    ("method_sig", both .method CompareOptions.equalMethodSigs),
    ("property_sig", both .property CompareOptions.equalPropertySigs),
    ("exported", do
      let e ← ask "a" (.entity .exportedType)
      let r ← ask "b" (.entity .typeRef)
      return toValue <$> ExportedTypeId.answers e r),
    ("module_ref", do
      let r ← ask "a" (.entity .moduleRef)
      let m ← ask "b" (.entity .module)
      return do return toValue (Resolver.namesModule (← get) r m)),
    ("sig_eq", both .sig fun _ a b => return a.same b),
    ("signature_eq", both .signature fun _ a b => return a.same b),
    ("scope_eq", both .scope fun _ a b => return decide (a = b))]

end Comparisons

/-! ## Generic parameters -/

namespace Containment

/-- The judgement on a signature that may be missing. -/
def ifAny {α : Type} (read : GraphM (Option α)) (test : α → GraphM Bool) : GraphM Value := do
  match ← read with
  | some s => return toValue (← test s)
  | none => return .nothing

/-- Two judgements at once. -/
def pair (a b : GraphM Value) : GraphM Value := do
  let x ← a
  let y ← b
  return .list [x, y]

/-- The judgement on an entity, for the kinds that have one. -/
def ofNode? (depth : Nat) (n : Node) : Option (GraphM Value) :=
  match n.kind with
  | .typeDef => some (toValue <$> reference depth (.typeDef ⟨n.key⟩))
  | .typeRef => some (toValue <$> reference depth (.typeRef ⟨n.key⟩))
  | .exportedType => some (return toValue (exportedType ⟨n.key⟩))
  | .memberRef => some (toValue <$> memberRef depth ⟨n.key⟩)
  | .constraint => some (toValue <$> constraint depth ⟨n.key⟩)
  | .typeSpec =>
    some (pair (toValue <$> spec depth ⟨n.key⟩) (toValue <$> reference depth (.typeSpec ⟨n.key⟩)))
  | .methodSpec =>
    some (pair (return toValue (methodSpec ⟨n.key⟩))
      (ifAny (MethodSpecId.args ⟨n.key⟩) fun a => signature depth (.instantiation a)))
  | .field => some (ifAny (FieldId.sig ⟨n.key⟩) fun t => signature depth (.field t))
  | .methodDef => some (ifAny (MethodDefId.sig ⟨n.key⟩) (method depth))
  | .property => some (ifAny (PropertyId.sig ⟨n.key⟩) fun p => signature depth (.property p))
  | _ => none

/-- The judgement on a signature, a type or an entity, whichever is given first. -/
def form : Form (GraphM Value) := do
  let depth ← ask "max_depth" (.withDefault .count recursionBound)
  match ← ask "sig" (.optional .signature) with
  | some s => return toValue <$> signature depth s
  | none =>
    match ← ask "type" (.optional .sig) with
    | some t => return toValue <$> type depth t
    | none => ask "h" (.refine .node (ofNode? depth))

end Containment

/-! ## Accounts of signatures -/

namespace Accounts

/-- The account of a reference to a type. -/
def named (r : TypeDefOrRef) : GraphM Value := do
  let full ← r.fullName
  let outline ← r.inspect
  let g ← get
  let kind := r.node.kind
  return .record
    [("token", toValue (g.token r.node)), ("name", toValue (r.name g)),
      ("namespace", toValue (r.space g)), ("full_name", .written full),
      ("kind", toValue ([Kind.typeDef, .typeRef, .typeSpec].map fun k => k == kind)),
      ("debug", toValue outline)]

/-- The account of a type signature. -/
def sig (t : Sig) : GraphM Value := do
  let display ← t.display
  let next ← (t.next?).mapM TypeSig.display
  let namedType ← (t.named?).mapM named
  return .record
    [("display", .written display), ("next", toValue (next.map Value.written)),
      ("named", toValue namedType),
      ("generic", toValue t.isGenericParam), ("primitive", toValue t.isPrimitive)]

/-- A signature as each sort of signature that it may be. -/
def sorts (s : Signature TypeDefOrRef) : Value :=
  .list [toValue s.method?, toValue s.field?, toValue s.property?, toValue s.instantiation?]

/-- The accounts. -/
def all : List (String × Form (GraphM Value)) :=
  [("sig_info", do return sig (← ask "type" .sig)),
    ("signature_as", do
      let s ← ask "sig" .signature
      return return sorts s)]

end Accounts

/-! ## Resolving -/

namespace Resolutions

/-- The form of a resolution of something at hand. -/
def ofShape {α β : Type} [ToValue β] (shape : Shape α)
    (resolve : Resolver → α → Option ModuleId → ResolveM β) :
    Form (Resolver → ResolveM Value) := do
  let source ← ask "source" (.optional (.entity .module))
  let x ← ask "h" shape
  return fun r => toValue <$> resolve r x source

/-- The resolutions. -/
def all : List (String × Form (Resolver → ResolveM Value)) :=
  [("type", ofShape (.entity .typeRef) Resolver.resolveType),
    ("type_def_or_ref", ofShape .type Resolver.resolveTypeDefOrRef),
    ("member", ofShape (.entity .memberRef) fun r m _ => r.resolveMember m),
    ("method", ofShape (.entity .memberRef) fun r m _ => r.resolveMethod m),
    ("field", ofShape (.entity .memberRef) fun r m _ => r.resolveField m),
    ("assembly", do
      let source ← ask "source" (.optional (.entity .module))
      let identity ← ask "identity" .identity
      return fun r => toValue <$> r.resolveAssembly identity source)]

/-- What takes the place of a reference, for the kinds that can be replaced. -/
def project? (n : Node) : Option (GraphM Value) :=
  match n.kind with
  | .typeRef => some (toValue <$> Projection.typeRef ⟨n.key⟩)
  | .memberRef => some (toValue <$> Projection.memberRef ⟨n.key⟩)
  | _ => none

/-- A replacement of type references that names give: the first row with the
namespace and name of a reference. -/
def projectionOf (rows : List (String × String × TypeRefId)) : ReferenceProjection where
  typeRef r := do
    let e := (← get).get r
    return (rows.find? fun row => e.space.isText row.1 && e.name.isText row.2.1).map (·.2.2)
  memberRef _ := return none

end Resolutions
end CliMetadata
