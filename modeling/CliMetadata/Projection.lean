import CliMetadata.Graph.InMemory
import CliMetadata.Graph.Modules

/-!
# Projection of Windows Runtime references

References into Windows Runtime assemblies name types that stand for others: the
table `mappings` says which.  A reference that it lists is replaced by a new one
to the other type, and a member reference by a new one over the replaced types in
its class and signature.  Nothing is replaced where the table lists nothing;
`none` says so at every level.
-/

namespace CliMetadata

/-- The assemblies that hold the types that Windows Runtime types stand for. -/
inductive ContractAssembly where
  | runtime | objectModel | windowsRuntime | interopWindowsRuntime
deriving Repr, DecidableEq

namespace ContractAssembly

/-- The key token of the contract assemblies. -/
def contractToken : KeyToken :=
  ⟨[0xb0, 0x3f, 0x5f, 0x7f, 0x11, 0xd5, 0x0a, 0x3a], rfl⟩

/-- The key token of the standard library. -/
def standardToken : KeyToken :=
  ⟨[0xb7, 0x7a, 0x5c, 0x56, 0x19, 0x34, 0xe0, 0x89], rfl⟩

/-- The name and the key token of an assembly. -/
def nameAndToken : ContractAssembly → String × KeyToken
  | runtime => ("System.Runtime", contractToken)
  | objectModel => ("System.ObjectModel", contractToken)
  | windowsRuntime => ("System.Runtime.WindowsRuntime", standardToken)
  | interopWindowsRuntime => ("System.Runtime.InteropServices.WindowsRuntime", contractToken)

/-- The identity of an assembly. -/
def identity (a : ContractAssembly) : AssemblyIdentity :=
  .make a.nameAndToken.1 ⟨4, 0, 0, 0⟩ none (some (.token a.nameAndToken.2))

end ContractAssembly

/-- A Windows Runtime type and the type that it stands for. -/
structure Mapping where
  winrtSpace : String
  winrtName : String
  space : String
  name : String
  assembly : ContractAssembly
deriving Repr, DecidableEq

namespace Mapping

/-- The types that stand for others. -/
def all : List Mapping :=
  [⟨"Windows.Foundation.Metadata", "AttributeUsageAttribute",
      "System", "AttributeUsageAttribute", .runtime⟩,
    ⟨"Windows.Foundation.Metadata", "AttributeTargets", "System", "AttributeTargets", .runtime⟩,
    ⟨"Windows.UI", "Color", "Windows.UI", "Color", .windowsRuntime⟩,
    ⟨"Windows.Foundation", "DateTime", "System", "DateTimeOffset", .runtime⟩,
    ⟨"Windows.Foundation", "EventHandler`1", "System", "EventHandler`1", .runtime⟩,
    ⟨"Windows.Foundation", "EventRegistrationToken",
      "System.Runtime.InteropServices.WindowsRuntime",
      "EventRegistrationToken", .interopWindowsRuntime⟩,
    ⟨"Windows.Foundation", "HResult", "System", "Exception", .runtime⟩,
    ⟨"Windows.Foundation", "IReference`1", "System", "Nullable`1", .runtime⟩,
    ⟨"Windows.Foundation", "Point", "Windows.Foundation", "Point", .windowsRuntime⟩,
    ⟨"Windows.Foundation", "Rect", "Windows.Foundation", "Rect", .windowsRuntime⟩,
    ⟨"Windows.Foundation", "Size", "Windows.Foundation", "Size", .windowsRuntime⟩,
    ⟨"Windows.Foundation", "TimeSpan", "System", "TimeSpan", .runtime⟩,
    ⟨"Windows.Foundation", "Uri", "System", "Uri", .runtime⟩,
    ⟨"Windows.Foundation", "IClosable", "System", "IDisposable", .runtime⟩,
    ⟨"Windows.Foundation.Collections", "IIterable`1",
      "System.Collections.Generic", "IEnumerable`1", .runtime⟩,
    ⟨"Windows.Foundation.Collections", "IVector`1",
      "System.Collections.Generic", "IList`1", .runtime⟩,
    ⟨"Windows.Foundation.Collections", "IVectorView`1",
      "System.Collections.Generic", "IReadOnlyList`1", .runtime⟩,
    ⟨"Windows.Foundation.Collections", "IMap`2",
      "System.Collections.Generic", "IDictionary`2", .runtime⟩,
    ⟨"Windows.Foundation.Collections", "IMapView`2",
      "System.Collections.Generic", "IReadOnlyDictionary`2", .runtime⟩,
    ⟨"Windows.Foundation.Collections", "IKeyValuePair`2",
      "System.Collections.Generic", "KeyValuePair`2", .runtime⟩,
    ⟨"Windows.UI.Xaml.Input", "ICommand", "System.Windows.Input", "ICommand", .objectModel⟩,
    ⟨"Windows.UI.Xaml.Interop", "IBindableIterable",
      "System.Collections", "IEnumerable", .runtime⟩,
    ⟨"Windows.UI.Xaml.Interop", "IBindableVector", "System.Collections", "IList", .runtime⟩,
    ⟨"Windows.UI.Xaml.Interop", "INotifyCollectionChanged",
      "System.Collections.Specialized", "INotifyCollectionChanged", .objectModel⟩,
    ⟨"Windows.UI.Xaml.Interop", "NotifyCollectionChangedEventHandler",
      "System.Collections.Specialized", "NotifyCollectionChangedEventHandler", .objectModel⟩,
    ⟨"Windows.UI.Xaml.Interop", "NotifyCollectionChangedEventArgs",
      "System.Collections.Specialized", "NotifyCollectionChangedEventArgs", .objectModel⟩,
    ⟨"Windows.UI.Xaml.Interop", "NotifyCollectionChangedAction",
      "System.Collections.Specialized", "NotifyCollectionChangedAction", .objectModel⟩,
    ⟨"Windows.UI.Xaml.Data", "INotifyPropertyChanged",
      "System.ComponentModel", "INotifyPropertyChanged", .objectModel⟩,
    ⟨"Windows.UI.Xaml.Data", "PropertyChangedEventHandler",
      "System.ComponentModel", "PropertyChangedEventHandler", .objectModel⟩,
    ⟨"Windows.UI.Xaml.Data", "PropertyChangedEventArgs",
      "System.ComponentModel", "PropertyChangedEventArgs", .objectModel⟩,
    ⟨"Windows.UI.Xaml.Interop", "TypeName", "System", "Type", .runtime⟩]

/-- What a Windows Runtime type of a namespace and name stands for. -/
def find? (space name : Name) : Option Mapping :=
  all.find? fun m => space.isText m.winrtSpace && name.isText m.winrtName

end Mapping

/-- The new name of a member of a replaced type: closing is disposing. -/
def renamedMember (space type member : Name) : Name :=
  if space.isText "Windows.Foundation" && type.isText "IClosable" && member.isText "Close"
  then .ofString "Dispose" else member

namespace Projection

/-- What a reference stands for, where it is into a Windows Runtime assembly. -/
def mappingOf (r : TypeRefId) : GraphM (Option Mapping) := do
  match ← r.scope with
  | some (.assemblyRef a) =>
    let g ← get
    if (g.get a).isWindowsRuntime then
      let e := g.get r
      return Mapping.find? e.space e.name
    else return none
  | _ => return none

/-- The reference that takes the place of a reference. -/
def typeRef (r : TypeRefId) : GraphM (Option TypeRefId) := do
  match ← mappingOf r with
  | none => return none
  | some m =>
    match ← r.module with
    | none => return none
    | some module =>
      let assembly ← makeAssemblyRef m.assembly.identity 0
      some <$> makeTypeRef module (.ofString m.space) (.ofString m.name)
        (some (.assemblyRef assembly))

/-- The entries of a list, replaced where something takes their place; none where
nothing does. -/
def all {α : Type} (replace : α → GraphM (Option α)) (xs : List α) : GraphM (Option (List α)) := do
  let replaced ← xs.mapM replace
  if replaced.all Option.isNone then return none
  else return some ((replaced.zip xs).map fun (x', x) => x'.getD x)

/-- The type that takes the place of a type, given the signatures that take the
place of signatures. -/
def typeWith (sig : Sig → GraphM (Option Sig)) : TypeDefOrRef → GraphM (Option TypeDefOrRef)
  | .typeRef r => do return (← typeRef r).map .typeRef
  | .typeSpec s => do
    match ← s.sig with
    | none => return none
    | some t =>
      match ← sig t with
      | none => return none
      | some t' => return some (.typeSpec (← makeTypeSpec t'))
  | .typeDef _ => return none

/-- The signature that takes the place of a signature, within a depth budget.
The modifier of a modified type stays, and so do the arguments after a sentinel. -/
def sig : (depth : Nat) → Sig → GraphM (Option Sig)
  | 0, _ => return none
  | d + 1, t =>
    match t with
    | .leaf _ | .param _ _ => return none
    | .named kind r => do return (← typeWith (sig d) r).map (.named kind ·)
    | .wrap (.valueArray _) _ | .wrap (.module _) _ => return none
    | .wrap w next => do return (← sig d next).map (.wrap w ·)
    | .modified kind m base => do return (← sig d base).map (.modified kind m ·)
    | .inst generic args => do
      let generic' ← sig d generic
      let args' ← all (sig d) args
      if generic'.isNone && args'.isNone then return none
      else return some (.inst (generic'.getD generic) (args'.getD args))
    | .fnPtr head returnType params varargs => do
      let returnType' ← sig d returnType
      let params' ← all (sig d) params
      if returnType'.isNone && params'.isNone then return none
      else return some (.fnPtr head (returnType'.getD returnType) (params'.getD params) varargs)

/-- The method signature that takes the place of a method signature. -/
def methodSig (depth : Nat) (m : MethodSig TypeDefOrRef) :
    GraphM (Option (MethodSig TypeDefOrRef)) := do
  let returnType' ← sig depth m.returnType
  let params' ← all (sig depth) m.params
  if returnType'.isNone && params'.isNone then return none
  else return some ⟨m.head, returnType'.getD m.returnType, params'.getD m.params, m.varargs⟩

/-- The signature of a member that takes the place of one. -/
def signature : Signature TypeDefOrRef → GraphM (Option (Signature TypeDefOrRef))
  | .method m => do return (← methodSig recursionBound m).map .method
  | .field t => do return (← sig recursionBound t).map .field
  | _ => return none

/-- The parent that takes the place of a member's parent, with the member's name
there. -/
def parent (name : Name) : Option MemberParent → GraphM (Option MemberParent × Name)
  | some (.typeRef owner) => do
    match ← typeRef owner with
    | none => return (none, name)
    | some owner' =>
      let e := (← get).get owner
      return (some (.typeRef owner'), renamedMember e.space e.name name)
  | some (.typeSpec s) => do
    match ← s.sig with
    | none => return (none, name)
    | some t =>
      match ← sig recursionBound t with
      | none => return (none, name)
      | some t' => return (some (.typeSpec (← makeTypeSpec t')), name)
  | _ => return (none, name)

/-- The reference that takes the place of a member reference. -/
def memberRef (m : MemberRefId) : GraphM (Option MemberRefId) := do
  match ← m.module with
  | none => return none
  | some module =>
    let parent? ← m.parent
    let sig? ← m.sig
    let (parent', name) ← parent ((← get).get m).name parent?
    let sig' ← match sig? with
      | some s => signature s
      | none => pure none
    if parent'.isNone && sig'.isNone then return none
    else some <$> makeMemberRef module name (parent'.or parent?) (sig'.or sig?)

end Projection
end CliMetadata
