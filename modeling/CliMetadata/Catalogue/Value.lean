import CliMetadata.Graph.Modules
import CliMetadata.Identity.Assembly

/-!
# Values of any sort

The catalogue of operations answers with values of one type, so that a caller can
show any answer in the same way.  `ToValue` says how each type of the library is
such a value; entities stay entities, and signatures stay signatures.

A text that may have no end is a value by `Value.written`.  Writing such a text does not
end either, so a caller that comes to `Value.endless` has no answer to show.
-/

namespace CliMetadata

/-- What an operation answers. -/
inductive Value where
  | nothing
  | truth (b : Bool)
  | number (n : Int)
  | text (s : String)
  | name (n : Name)
  | node (n : Node)
  | sig (t : Sig)
  | method (m : MethodSig TypeDefOrRef)
  | property (p : PropertySig TypeDefOrRef)
  | signature (s : Signature TypeDefOrRef)
  | list (vs : List Value)
  | record (fields : List (String × Value))
  /-- A text without an end, which is never written to the last character. -/
  | endless

instance : Inhabited Value := ⟨.nothing⟩

/-- A text, given where it is finite. -/
def Value.written : Option String → Value
  | some s => .text s
  | none => .endless

/-- How a type is shown as values. -/
class ToValue (α : Type) where
  toValue : α → Value

export ToValue (toValue)

namespace ToValue

variable {α β : Type}

instance : ToValue Value := ⟨id⟩
instance : ToValue Unit := ⟨fun _ => .nothing⟩
instance : ToValue Bool := ⟨.truth⟩
instance : ToValue Nat := ⟨fun n => .number n⟩
instance : ToValue Int := ⟨.number⟩
instance : ToValue Flags := ⟨fun f => .number f.toNat⟩
instance : ToValue String := ⟨.text⟩
instance : ToValue Name := ⟨.name⟩
instance : ToValue Node := ⟨.node⟩
instance {k : Kind} : ToValue (Id k) := ⟨fun id => .node id.node⟩
instance : ToValue Sig := ⟨.sig⟩
instance : ToValue (MethodSig TypeDefOrRef) := ⟨.method⟩
instance : ToValue (PropertySig TypeDefOrRef) := ⟨.property⟩
instance : ToValue (Signature TypeDefOrRef) := ⟨.signature⟩
instance : ToValue TypeDefOrRef := ⟨fun r => .node r.node⟩
instance : ToValue MemberParent := ⟨fun r => .node r.node⟩
instance : ToValue MethodDefOrRef := ⟨fun r => .node r.node⟩
instance : ToValue Implementation := ⟨fun r => .node r.node⟩
instance : ToValue MemberDef := ⟨fun r => .node r.node⟩

/-- Bytes are shown in hexadecimal. -/
instance : ToValue (List UInt8) := ⟨fun bs => .text (Text.Hex.ofBytes bs)⟩

instance : ToValue Token := ⟨fun t => .text t.display⟩
instance : ToValue TableId := ⟨fun t => .text t.name⟩
instance : ToValue Guid := ⟨fun g => .text (Guid.display g)⟩

/-- A key token is shown as a number of sixteen digits. -/
instance : ToValue KeyToken := ⟨fun t => .text (Text.Hex.ofBytes t.val.reverse)⟩

instance [ToValue α] : ToValue (Option α) where
  toValue
    | some a => toValue a
    | none => .nothing

instance (priority := low) [ToValue α] : ToValue (List α) := ⟨fun as => .list (as.map toValue)⟩

instance : ToValue Ordering where
  toValue
    | .lt => .text "Less"
    | .eq => .text "Equal"
    | .gt => .text "Greater"

instance : ToValue AssemblyVersion :=
  ⟨fun v => toValue [v.major.toNat, v.minor.toNat, v.build.toNat, v.revision.toNat]⟩

instance : ToValue StrongName where
  toValue
    | .publicKey key => .record [("pubkey", toValue key)]
    | .token t => .record [("token", toValue t)]

instance : ToValue AssemblyIdentity where
  toValue i := .record
    [("name", toValue i.name), ("version", toValue i.version), ("culture", toValue i.culture),
      ("strong", toValue i.strongName), ("display", toValue i.display)]

instance : ToValue CodedIndex := ⟨fun c => .list [toValue c.tag, toValue c.row, toValue c.token]⟩

instance : ToValue MethodBody where
  toValue b := .record
    [("max_stack", toValue b.maxStack), ("init_locals", toValue b.initLocals),
      ("has_locals", toValue b.hasLocals), ("locals", toValue b.locals),
      ("code", toValue b.code), ("code_size", toValue b.code.length)]

instance : ToValue DebugInfo :=
  ⟨fun d => .record [("kind", toValue d.kind.name), ("data", toValue d.data)]⟩

instance : ToValue Origin := ⟨fun o => .list [toValue o.isMaterialized, toValue o.rid?]⟩

end ToValue

/-! ## Names of entities -/

/-- The word for a kind. -/
def Kind.name : Kind → String
  | module => "Module"
  | assembly => "Assembly"
  | typeDef => "TypeDef"
  | typeRef => "TypeRef"
  | typeSpec => "TypeSpec"
  | field => "Field"
  | methodDef => "MethodDef"
  | param => "Param"
  | property => "Property"
  | event => "Event"
  | memberRef => "MemberRef"
  | methodSpec => "MethodSpec"
  | genericParam => "GenericParam"
  | constraint => "Constraint"
  | assemblyRef => "AssemblyRef"
  | moduleRef => "ModuleRef"
  | file => "File"
  | exportedType => "ExportedType"
  | resource => "Resource"
  | customAttribute => "Attribute"
  | constant => "Constant"
  | implMap => "ImplMap"
  | security => "Security"

/-- The name of an entity, for the kinds that have one. -/
def Entity.name? : Entity → Option Name
  | module e => some e.name
  | assembly e => some (.ofString e.identity.name)
  | typeDef e => some e.name
  | typeRef e => some e.name
  | field e => some e.name
  | methodDef e => some e.name
  | param e => some e.name
  | property e => some e.name
  | event e => some e.name
  | memberRef e => some e.name
  | genericParam e => some e.name
  | assemblyRef e => some e.name
  | moduleRef e => some e.name
  | file e => some e.name
  | exportedType e => some e.name
  | resource e => some e.name
  | implMap e => some e.name
  | typeSpec _ | methodSpec _ | constraint _ | customAttribute _ | constant _ | security _ => none

end CliMetadata
