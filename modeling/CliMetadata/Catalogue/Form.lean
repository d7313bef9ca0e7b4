import CliMetadata.Graph.Modules
import CliMetadata.Resolution

/-!
# Forms

A form asks for the arguments of an operation, one named field after another, and
ends in the operation with its arguments filled in.  Each field has a **shape**,
which says what may be written there.  Forms say nothing about how arguments are
written, so any notation with records and lists can fill them.

`Shape.refine` narrows a shape by a check, `Shape.attempt` by a check that can say
what is wrong; every shape of this library is built so from a few basic ones.
-/

namespace CliMetadata

mutual

/-- What may be written in a field. -/
inductive Shape : Type → Type 1 where
  | truth : Shape Bool
  /-- A number that fits in so many bits. -/
  | natural (bits : Nat) : Shape Nat
  /-- A number of 64 bits, one of them its sign. -/
  | integer : Shape Int
  | text : Shape String
  | name : Shape Name
  | bytes : Shape (List UInt8)
  /-- An entity at hand. -/
  | node : Shape Node
  | sig : Shape Sig
  | method : Shape (MethodSig TypeDefOrRef)
  | property : Shape (PropertySig TypeDefOrRef)
  | signature : Shape (Signature TypeDefOrRef)
  /-- A type signature over tokens. -/
  | storedSig : Shape (TypeSig Token)
  /-- A signature over tokens. -/
  | storedSignature : Shape (Signature Token)
  /-- Something that may be left out. -/
  | optional {α : Type} (s : Shape α) : Shape (Option α)
  | list {α : Type} (s : Shape α) : Shape (List α)
  /-- A text, or something else that is no text. -/
  | textOr {α : Type} (s : Shape α) : Shape (String ⊕ α)
  /-- A number of 32 bits, or something else that is no number. -/
  | numberOr {α : Type} (s : Shape α) : Shape (Nat ⊕ α)
  | record {α : Type} (form : Form α) : Shape α
  /-- A list whose places, counted from zero, are the fields of a form. -/
  | places {α : Type} (form : Form α) : Shape α
  | refine {α β : Type} (s : Shape α) (check : α → Option β) : Shape β
  | attempt {α β : Type} (s : Shape α) (check : α → Except Error β) : Shape β

/-- The arguments of an operation. -/
inductive Form : Type → Type 1 where
  | done {α : Type} (a : α) : Form α
  | field {α β : Type} (name : String) (shape : Shape β) (next : β → Form α) : Form α

end

namespace Form

variable {α β : Type}

/-- A form that goes on after another. -/
def andThen : Form α → (α → Form β) → Form β
  | done a, f => f a
  | field name shape next, f => field name shape fun b => andThen (next b) f

instance : Monad Form where
  pure := done
  bind := andThen

/-- The form that asks for one field. -/
def ask (name : String) (shape : Shape α) : Form α := field name shape done

/-- The form that asks for a place of a list. -/
def place (i : Nat) (shape : Shape α) : Form α := ask (toString i) shape

/-- The form whose field nothing fills. -/
def unfillable (name : String) : Form α := ask name (.refine .text fun _ => none)

end Form

/-! ## Entities from anything at hand -/

/-- The entity as one of a kind. -/
def Id.ofNode? (k : Kind) (n : Node) : Option (Id k) := if n.kind = k then some ⟨n.key⟩ else none

/-- The entity as a reference to a type. -/
def TypeDefOrRef.ofNode? (n : Node) : Option TypeDefOrRef :=
  match n.kind with
  | .typeDef => some (typeDef ⟨n.key⟩)
  | .typeRef => some (typeRef ⟨n.key⟩)
  | .typeSpec => some (typeSpec ⟨n.key⟩)
  | _ => none

/-- The entity as a scope. -/
def ResolutionScope.ofNode? (n : Node) : Option ResolutionScope :=
  match n.kind with
  | .module => some (module ⟨n.key⟩)
  | .moduleRef => some (moduleRef ⟨n.key⟩)
  | .assemblyRef => some (assemblyRef ⟨n.key⟩)
  | .typeRef => some (typeRef ⟨n.key⟩)
  | _ => none

/-- The entity as the parent of a member reference. -/
def MemberParent.ofNode? (n : Node) : Option MemberParent :=
  match n.kind with
  | .typeDef => some (typeDef ⟨n.key⟩)
  | .typeRef => some (typeRef ⟨n.key⟩)
  | .typeSpec => some (typeSpec ⟨n.key⟩)
  | .moduleRef => some (moduleRef ⟨n.key⟩)
  | .methodDef => some (methodDef ⟨n.key⟩)
  | _ => none

/-- The entity as a reference to a method. -/
def MethodDefOrRef.ofNode? (n : Node) : Option MethodDefOrRef :=
  match n.kind with
  | .methodDef => some (methodDef ⟨n.key⟩)
  | .memberRef => some (memberRef ⟨n.key⟩)
  | _ => none

/-- The entity as an implementation. -/
def Implementation.ofNode? (n : Node) : Option Implementation :=
  match n.kind with
  | .file => some (file ⟨n.key⟩)
  | .assemblyRef => some (assemblyRef ⟨n.key⟩)
  | .exportedType => some (exportedType ⟨n.key⟩)
  | _ => none

/-! ## Values from their texts -/

/-- The token that a text writes: hexadecimal digits after their mark. -/
def Token.ofText? (text : String) : Option Token := do
  let digits ← Text.after? "0x".toList text.toList
  if digits.isEmpty then none
  let value ← Text.Hex.toNat? digits
  if value < 0x100000000 then some (ofValue value) else none

/-- The GUID that a text writes. -/
def Guid.ofText? (text : String) : Option Guid :=
  let groups := Text.split '-' text.toList
  if groups.map List.length = [8, 4, 4, 4, 12] then
    (Text.Hex.toBytes? groups.flatten).bind ofBytes?
  else none

/-- The key token that a number of at most sixteen digits writes. -/
def KeyToken.ofText? (text : String) : Option KeyToken :=
  if text.isEmpty || text.length > 16 then none
  else (Text.Hex.toNat? text.toList).map ofNat

/-- The table of a name. -/
def TableId.ofName? (name : String) : Option TableId := all.find? fun t => t.name == name

/-- The relation of a name. -/
def Relation.ofName? (name : String) : Option Relation :=
  (all.find? fun entry => entry.2 == name).map (·.1)

/-- The policy that a word asks for. -/
def InitPolicy.ofWord? : String → Option InitPolicy
  | "none" => some noLocking
  | "lock" | "" => some perEntityLock
  | _ => none

/-- The options that words ask for. -/
def CompareOptions.ofWords? (words : List String) : Option CompareOptions :=
  if words.all ["scope", "ignore_mods", "varargs"].contains then
    some ⟨words.contains "scope", words.contains "ignore_mods", words.contains "varargs"⟩
  else none

namespace Shape

open Form (ask)

/-- A number as rows hold it: a row, an offset in a heap, a word of flags. -/
def number : Shape Nat := .natural 32

/-- A number that counts: a place in a list, or how far to go at most. -/
def count : Shape Nat := .natural 64

/-- An entity of a kind. -/
def entity (k : Kind) : Shape (Id k) := .refine .node (Id.ofNode? k)

/-- A reference to a type. -/
def type : Shape TypeDefOrRef := .refine .node TypeDefOrRef.ofNode?

/-- A scope. -/
def scope : Shape ResolutionScope := .refine .node ResolutionScope.ofNode?

/-- The parent of a member reference. -/
def parent : Shape MemberParent := .refine .node MemberParent.ofNode?

/-- A reference to a method. -/
def methodRef : Shape MethodDefOrRef := .refine .node MethodDefOrRef.ofNode?

/-- An implementation. -/
def implementation : Shape Implementation := .refine .node Implementation.ofNode?

/-- A shape with a value for what is left out. -/
def withDefault {α : Type} (s : Shape α) (a : α) : Shape α :=
  .refine (.optional s) fun x => some (x.getD a)

/-- A number of which the low sixteen bits count. -/
def word : Shape Nat := .refine .number fun n => some (n % 65536)

/-- A number of which the low eight bits count. -/
def byte : Shape Nat := .refine .number fun n => some (n % 256)

/-- A word of flags. -/
def flags : Shape Flags := .refine .number fun n => some (UInt32.ofNat n)

/-- A token, the null token where it is left out. -/
def token : Shape Token := withDefault (.refine .text Token.ofText?) .null

/-- A token or none. -/
def token? : Shape (Option Token) := .optional (.refine .text Token.ofText?)

/-- A coded index, written as the token of its row. -/
def coded : Shape CodedIndex := .refine token fun t => some (.ofToken t)

/-- A GUID, that of zeros where it is left out. -/
def guid : Shape Guid := withDefault (.refine .text Guid.ofText?) Guid.zero

/-- A table by name. -/
def table : Shape TableId := .refine .text TableId.ofName?

/-- A relation by name. -/
def relation : Shape Relation := .refine .text Relation.ofName?

/-- A policy. -/
def policy : Shape InitPolicy := .refine .text InitPolicy.ofWord?

/-- Options of a comparison. -/
def options : Shape CompareOptions := .refine (.list .text) CompareOptions.ofWords?

/-- A version of four numbers, the unknown one where it is left out. -/
def version : Shape AssemblyVersion :=
  withDefault
    (.refine (.list .number) fun
      | [a, b, c, d] => some ⟨UInt16.ofNat a, UInt16.ofNat b, UInt16.ofNat c, UInt16.ofNat d⟩
      | _ => none)
    .unknown

/-- A strong name: a key or a key token. -/
def strongName : Shape StrongName :=
  .refine
    (.record do
      let key ← ask "pubkey" (.optional .bytes)
      let token ← ask "token" (.optional (.refine .text KeyToken.ofText?))
      return (key, token))
    fun
      | (some key, _) => some (.publicKey key)
      | (none, some token) => some (.token token)
      | (none, none) => none

/-- An identity: a display name, or its parts. -/
def identity : Shape AssemblyIdentity :=
  .attempt
    (.textOr (.record do
      let name ← ask "name" .text
      let version ← ask "version" version
      let culture ← ask "culture" (.optional .text)
      let strong ← ask "strong" (.optional strongName)
      return AssemblyIdentity.make name version culture strong))
    fun
      | .inl display => (AssemblyIdentity.parse display).mapError .malformed
      | .inr i => .ok i

/-- The settings of a resolver. -/
def resolverConfig : Form ResolverConfig := do
  let project ← ask "project" (.optional .truth)
  let hops ← ask "max_hops" (.optional .count)
  return ⟨project.getD ({} : ResolverConfig).project, hops.getD ({} : ResolverConfig).maxHops⟩

/-- A method body. -/
def body : Form MethodBody := do
  let standard : MethodBody := default
  let maxStack ← ask "max_stack" (withDefault word standard.maxStack)
  let initLocals ← ask "init_locals" .truth
  let locals ← ask "locals" (withDefault token standard.locals)
  let code ← ask "code" .bytes
  return ⟨maxStack, initLocals, locals, code⟩

end Shape
end CliMetadata
