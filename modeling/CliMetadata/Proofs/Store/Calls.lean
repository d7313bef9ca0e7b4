import CliMetadata.Proofs.Graph.Later
import CliMetadata.Proofs.Store.Heaps
import CliMetadata.Store.Builder

/-!
# Sequences of calls that build a store

A store is built by calls (`BuildCall`), each of which adds to the heaps, the tables and the links at
their ends.  `Store.Grown s s'` says that the heaps of `s` and its tables of modules, assemblies and
assembly references are the beginnings of those of `s'`.  Every call makes the store grow and leaves
its string heap closed (`BuildCall.run_grows`), and so **what an offset, an index or a row number
stands for is not changed by any sequence of calls after it** (`HoldsName.grown`, `HoldsBlob.grown`,
`nth_grown`).
-/

namespace CliMetadata

/-- A call that builds a store. -/
inductive BuildCall where
  | push (row : Row)
  | link (relation : Relation) (owner child : Token)
  | name (value : String)
  | blob (entry : Blob)
  | guid (value : Guid)
  | body (method : Token) (body : MethodBody)
  | debugInfo (token : Token) (info : DebugInfo)
  | module (name : String)
  | assembly (identity : AssemblyIdentity)
  | assemblyRef (identity : AssemblyIdentity) (flags : Flags)
  | moduleRef (name : String)
  | file (name : String) (flags : Flags)
  | typeRef (scope : Token) (space name : String)
  | typeDef (space name : String) (flags : Flags) (base : Option Token)
  | nestedType (enclosing : Token) (name : String) (flags : Flags)
  | field (owner : Token) (name : String) (flags : Flags) (signature : Nat)
  | method (owner : Token) (name : String) (flags : Flags) (signature : Nat)
  | param (method : Token) (sequence : Nat) (name : String)
  | property (owner : Token) (name : String) (signature : Nat)
  | event (owner : Token) (name : String) (eventType : Option Token)
  | genericParam (owner : Token) (number : Nat) (name : String)
  | constraint (param constraint : Token)
  | memberRef (parent : Token) (name : String) (signature : Nat)
  | typeSpec (signature : Nat)
  | methodSpec (method : Token) (instantiation : Nat)
  | exportedType (space name : String) (flags : Flags) (implementation : Token)
  | constant (parent : Token) (elementType : Nat) (value : List UInt8)
  | customAttribute (parent constructor : Token) (value : List UInt8)
  | declSecurity (parent : Token) (action : Nat) (permissionSet : List UInt8)
  | embeddedResource (name : String) (flags : Flags) (data : List UInt8)
  | linkedResource (name : String) (flags : Flags) (implementation : Token)
  | implMap (method : Token) (importName : String) (scope : Token) (flags : Flags)
  | methodImpl (type body declaration : Token)
  | methodSemantics (semantics : Flags) (method association : Token)

/-- What a computation gives does not matter. -/
theorem Keeps.discard {σ α : Type} {R : σ → σ → Prop} [IsPreorder σ R] {x : StateM σ α}
    (h : Keeps R x) : Keeps R (discard x) := h.bind fun _ => .pure _

namespace Store

/-- Makes a call, whatever it answers. -/
def call : BuildCall → Build Unit
  | .push row => discard (push row)
  | .link relation owner child => link relation owner child
  | .name value => discard (addName value)
  | .blob entry => discard (addBlob entry)
  | .guid value => discard (addGuid value)
  | .body method body => setMethodBody method body
  | .debugInfo token info => addDebugInfo token info
  | .module name => discard (addModule name)
  | .assembly identity => discard (addAssembly identity)
  | .assemblyRef identity flags => discard (addAssemblyRef identity flags)
  | .moduleRef name => discard (addModuleRef name)
  | .file name flags => discard (addFile name flags)
  | .typeRef scope space name => discard (addTypeRef scope space name)
  | .typeDef space name flags base => discard (addTypeDef space name flags base)
  | .nestedType enclosing name flags => discard (addNestedType enclosing name flags)
  | .field owner name flags signature => discard (addField owner name flags signature)
  | .method owner name flags signature => discard (addMethod owner name flags signature)
  | .param method sequence name => discard (addParam method sequence name)
  | .property owner name signature => discard (addProperty owner name signature)
  | .event owner name eventType => discard (addEvent owner name eventType)
  | .genericParam owner number name => discard (addGenericParam owner number name)
  | .constraint param constraint => discard (addConstraint param constraint)
  | .memberRef parent name signature => discard (addMemberRef parent name signature)
  | .typeSpec signature => discard (addTypeSpec signature)
  | .methodSpec method instantiation => discard (addMethodSpec method instantiation)
  | .exportedType space name flags implementation =>
    discard (addExportedType space name flags implementation)
  | .constant parent elementType value => discard (addConstant parent elementType value)
  | .customAttribute parent constructor value =>
    discard (addCustomAttribute parent constructor value)
  | .declSecurity parent action permissionSet =>
    discard (addDeclSecurity parent action permissionSet)
  | .embeddedResource name flags data => discard (addEmbeddedResource name flags data)
  | .linkedResource name flags implementation =>
    discard (addLinkedResource name flags implementation)
  | .implMap method importName scope flags => discard (addImplMap method importName scope flags)
  | .methodImpl type body declaration => discard (addMethodImpl type body declaration)
  | .methodSemantics semantics method association =>
    discard (addMethodSemantics semantics method association)

/-- Makes some calls, one after another. -/
def calls : List BuildCall → Build Unit
  | [] => pure ()
  | c :: rest => do
    call c
    calls rest

/-! ## Growing -/

variable {s s' s'' : Store} {α : Type}

/-- **A store with more behind what was there.** -/
structure Grown (s s' : Store) : Prop where
  strings : s.strings.bytes <+: s'.strings.bytes
  blobs : s.blobs <+: s'.blobs
  modules : s.modules <+: s'.modules
  assemblies : s.assemblies <+: s'.assemblies
  assemblyRefs : s.assemblyRefs <+: s'.assemblyRefs

namespace Grown

theorem refl (s : Store) : s.Grown s :=
  ⟨List.prefix_refl _, List.prefix_refl _, List.prefix_refl _, List.prefix_refl _,
    List.prefix_refl _⟩

theorem trans (h : s.Grown s') (k : s'.Grown s'') : s.Grown s'' where
  strings := h.strings.trans k.strings
  blobs := h.blobs.trans k.blobs
  modules := h.modules.trans k.modules
  assemblies := h.assemblies.trans k.assemblies
  assemblyRefs := h.assemblyRefs.trans k.assemblyRefs

end Grown

/-- A store grows, and its string heap stays closed. -/
def Grows (s s' : Store) : Prop := s.strings.Closed → s'.strings.Closed ∧ s.Grown s'

namespace Grows

instance : IsPreorder Store Grows where
  refl s h := ⟨h, .refl s⟩
  trans _ _ _ h k hs := ⟨(k (h hs).1).1, (h hs).2.trans (k (h hs).1).2⟩

/-- A store that keeps its strings closes them as before. -/
theorem of_strings (h : s'.strings = s.strings) (hg : s.Grown s') : s.Grows s' :=
  fun hs => ⟨h ▸ hs, hg⟩

/-- Nothing that is read off for identities changes. -/
theorem of_eq (hstrings : s'.strings = s.strings) (hblobs : s'.blobs = s.blobs)
    (hmodules : s'.modules = s.modules) (hassemblies : s'.assemblies = s.assemblies)
    (hrefs : s'.assemblyRefs = s.assemblyRefs) : s.Grows s' :=
  .of_strings hstrings
    ⟨hstrings ▸ List.prefix_refl _, hblobs ▸ List.prefix_refl _, hmodules ▸ List.prefix_refl _,
      hassemblies ▸ List.prefix_refl _, hrefs ▸ List.prefix_refl _⟩

theorem modify {f : Store → Store} (h : ∀ s : Store, s.Grows (f s)) : Keeps Grows (modify f : Build Unit) := h

end Grows

/-! ### Rows, links and heaps -/

theorem push_grows (row : Row) : Keeps Grows (push row) := by
  refine Keeps.bind (Grows.modify fun s => ?_) fun _ => .pure _
  cases row with
  | module r =>
    exact .of_strings rfl { Grown.refl s with modules := List.prefix_append _ _ }
  | assembly r =>
    exact .of_strings rfl { Grown.refl s with assemblies := List.prefix_append _ _ }
  | assemblyRef r =>
    exact .of_strings rfl { Grown.refl s with assemblyRefs := List.prefix_append _ _ }
  | _ => exact .of_eq rfl rfl rfl rfl rfl

theorem append_grows (table : TableId) (row : RowHead → Row) : Keeps Grows (append table row) :=
  Keeps.get.bind fun _ => push_grows _

theorem link_grows (relation : Relation) (owner child : Token) :
    Keeps Grows (link relation owner child) :=
  Grows.modify fun _ => .of_eq rfl rfl rfl rfl rfl

theorem addName_grows (value : String) : Keeps Grows (addName value) := by
  intro s hs
  obtain ⟨hclosed, hprefix, -⟩ := hs.add (Name.ofString value).bytes
  exact ⟨hclosed, { Grown.refl s with strings := hprefix }⟩

theorem addBlob_grows (entry : Blob) : Keeps Grows (addBlob entry) :=
  Keeps.bind (Grows.modify fun s =>
    .of_strings rfl { Grown.refl s with blobs := List.prefix_append _ _ }) fun _ =>
    Keeps.get.bind fun _ => .pure _

theorem addData_grows (bytes : List UInt8) : Keeps Grows (addData bytes) := addBlob_grows _

theorem addGuid_grows (guid : Guid) : Keeps Grows (addGuid guid) :=
  Keeps.bind (Grows.modify fun _ => .of_eq rfl rfl rfl rfl rfl) fun _ =>
    Keeps.get.bind fun _ => .pure _

/-- A row with one name is added. -/
theorem named_grows (value : String) (table : TableId) (row : Nat → RowHead → Row) :
    Keeps Grows (do
      let offset ← addName value
      append table (row offset)) :=
  (addName_grows value).bind fun _ => append_grows table _

/-- A row with one name is added and linked. -/
theorem linked_grows (value : String) (table : TableId) (row : Nat → RowHead → Row)
    (relation : Relation) (owner : Token) :
    Keeps Grows (do
      let offset ← addName value
      let token ← append table (row offset)
      link relation owner token
      return token) :=
  (addName_grows value).bind fun _ => (append_grows table _).bind fun _ =>
    (link_grows relation owner _).bind fun _ => .pure _

/-- A row with a name and a namespace is added. -/
theorem placed_grows (value space : String) (table : TableId) (row : Nat → Nat → RowHead → Row) :
    Keeps Grows (do
      let offset ← addName value
      let offset' ← addName space
      append table (row offset offset')) :=
  (addName_grows value).bind fun _ => named_grows space table _

/-- A row with bytes is added. -/
theorem data_grows (bytes : List UInt8) (table : TableId) (row : Nat → RowHead → Row) :
    Keeps Grows (do
      let index ← addData bytes
      append table (row index)) :=
  (addData_grows bytes).bind fun _ => append_grows table _

theorem addTypeDef_grows (space name : String) (flags : Flags) (base : Option Token) :
    Keeps Grows (addTypeDef space name flags base) := placed_grows name space .typeDef _

theorem addModule_grows (name : String) : Keeps Grows (addModule name) :=
  Keeps.get.bind fun _ => (addName_grows name).bind fun _ => (addGuid_grows _).bind fun _ =>
    append_grows .module _

theorem addStrongName_grows : ∀ n : Option StrongName, Keeps Grows (addStrongName n)
  | some (.publicKey key) => addData_grows key
  | some (.token token) => addData_grows token.val
  | none => .pure _

theorem addAssemblyRef_grows (identity : AssemblyIdentity) (flags : Flags) :
    Keeps Grows (addAssemblyRef identity flags) :=
  (addStrongName_grows _).bind fun _ => placed_grows _ _ .assemblyRef _

/-- What is stored of a strong name for an assembly, with the flags that go with it. -/
def addFullKey : Option StrongName → Build (Nat × Flags)
  | some (.publicKey key) => do return (← addData key, AssemblyFlags.publicKey)
  | _ => pure (0, 0)

theorem addFullKey_grows : ∀ n : Option StrongName, Keeps Grows (addFullKey n)
  | some (.publicKey key) => (addData_grows key).bind fun _ => .pure _
  | some (.token _) => .pure _
  | none => .pure _

theorem addAssembly_eq (identity : AssemblyIdentity) : addAssembly identity = (do
    let (key, flags) ← addFullKey identity.strongName
    let name ← addName identity.name
    let culture ← addName (identity.culture.getD "")
    append .assembly fun head =>
      .assembly ⟨head, HashAlgorithm.sha1, identity.version, flags, key, name, culture⟩) := by
  obtain ⟨name, version, culture, strongName⟩ := identity
  cases strongName with
  | none => rfl
  | some n => cases n <;> rfl

theorem addAssembly_grows (identity : AssemblyIdentity) : Keeps Grows (addAssembly identity) := by
  rw [addAssembly_eq]
  exact (addFullKey_grows _).bind fun _ => placed_grows _ _ .assembly _

/-- **Every call makes the store grow.** -/
theorem call_grows (c : BuildCall) : Keeps Grows (call c) := by
  cases c with
  | push row => exact (push_grows row).discard
  | link relation owner child => exact link_grows relation owner child
  | name value => exact (addName_grows value).discard
  | blob entry => exact (addBlob_grows entry).discard
  | guid value => exact (addGuid_grows value).discard
  | body method body =>
    refine Grows.modify fun s => ?_
    dsimp only
    split
    · exact .of_eq rfl rfl rfl rfl rfl
    · exact .of_eq rfl rfl rfl rfl rfl
  | debugInfo token info => exact Grows.modify fun _ => .of_eq rfl rfl rfl rfl rfl
  | module name => exact (addModule_grows name).discard
  | assembly identity => exact (addAssembly_grows identity).discard
  | assemblyRef identity flags => exact (addAssemblyRef_grows identity flags).discard
  | moduleRef name => exact (named_grows name .moduleRef _).discard
  | file name flags => exact (named_grows name .file _).discard
  | typeRef scope space name => exact (placed_grows name space .typeRef _).discard
  | typeDef space name flags base => exact (addTypeDef_grows space name flags base).discard
  | nestedType enclosing name flags =>
    exact Keeps.discard ((addTypeDef_grows "" name flags none).bind fun _ =>
      (link_grows .nestedTypes enclosing _).bind fun _ => .pure _)
  | field owner name flags signature => exact (linked_grows name .field _ .fields owner).discard
  | method owner name flags signature =>
    exact (linked_grows name .methodDef _ .methods owner).discard
  | param method sequence name => exact (linked_grows name .param _ .params method).discard
  | property owner name signature =>
    exact (linked_grows name .property _ .properties owner).discard
  | event owner name eventType => exact (linked_grows name .event _ .events owner).discard
  | genericParam owner number name => exact (named_grows name .genericParam _).discard
  | constraint param constraint => exact (append_grows .genericParamConstraint _).discard
  | memberRef parent name signature => exact (named_grows name .memberRef _).discard
  | typeSpec signature => exact (append_grows .typeSpec _).discard
  | methodSpec method instantiation => exact (append_grows .methodSpec _).discard
  | exportedType space name flags implementation =>
    exact (placed_grows name space .exportedType _).discard
  | constant parent elementType value => exact (data_grows value .constant _).discard
  | customAttribute parent constructor value =>
    exact (data_grows value .customAttribute _).discard
  | declSecurity parent action permissionSet =>
    exact (data_grows permissionSet .declSecurity _).discard
  | embeddedResource name flags data =>
    refine Keeps.discard (Keeps.get.bind fun _ => ?_)
    refine Keeps.bind (Grows.modify ?_) fun _ => named_grows name .manifestResource _
    exact fun _ => .of_eq rfl rfl rfl rfl rfl
  | linkedResource name flags implementation =>
    exact (named_grows name .manifestResource _).discard
  | implMap method importName scope flags => exact (named_grows importName .implMap _).discard
  | methodImpl type body declaration => exact (append_grows .methodImpl _).discard
  | methodSemantics semantics method association =>
    exact (append_grows .methodSemantics _).discard

/-- **Every sequence of calls makes the store grow.** -/
theorem calls_grows : ∀ cs : List BuildCall, Keeps Grows (calls cs)
  | [] => .pure _
  | c :: rest => (call_grows c).bind fun _ => calls_grows rest

/-! ## What is kept -/

theorem nth_grown {rows rows' : List α} {place : Nat} {row : α} (h : rows <+: rows')
    (hrow : nth rows place = some row) : nth rows' place = some row := by
  obtain ⟨more, rfl⟩ := h
  unfold nth at hrow ⊢
  split at hrow
  · cases hrow
  · next hplace =>
    have hlt : place - 1 < rows.length := (List.getElem?_eq_some_iff.mp hrow).1
    rw [if_neg hplace, List.getElem?_append_left hlt, hrow]

/-- The entry put at the end of a table. -/
theorem nth_concat (rows : List α) (row : α) : nth (rows ++ [row]) (rows.length + 1) = some row := by
  rw [nth, if_neg (Nat.succ_ne_zero _), Nat.add_sub_cancel, List.getElem?_append_right (Nat.le_refl _),
    Nat.sub_self]
  rfl

/-- An offset in the heap at which a name stands. -/
structure HoldsName (s : Store) (offset : Nat) (name : Name) : Prop where
  lt : offset < s.strings.bytes.length
  string : s.string offset = name

theorem HoldsName.grown {offset : Nat} {name : Name} (h : s.HoldsName offset name)
    (hs : s.strings.Closed) (hg : s.Grown s') : s'.HoldsName offset name where
  lt := Nat.lt_of_lt_of_le h.lt hg.strings.length_le
  string := by rw [Store.string, hs.get?_grown hg.strings h.lt, ← h.string, Store.string]

/-- An index of the blob heap at which bytes stand. -/
structure HoldsBlob (s : Store) (index : Nat) (bytes : List UInt8) : Prop where
  blob? : s.blob? index = some bytes

theorem HoldsBlob.blob {index : Nat} {bytes : List UInt8} (h : s.HoldsBlob index bytes) :
    s.blob index = bytes := by rw [Store.blob, h.blob?, Option.getD_some]

theorem HoldsBlob.grown {index : Nat} {bytes : List UInt8} (h : s.HoldsBlob index bytes)
    (hg : s.Grown s') : s'.HoldsBlob index bytes where
  blob? := by
    have hheld := h.blob?
    unfold Store.blob? at hheld ⊢
    split at hheld
    · next hzero => rw [if_pos hzero, hheld]
    · next hzero =>
      rw [if_neg hzero]
      cases hentry : nth s.blobs index with
      | none => exact nomatch hentry ▸ hheld
      | some entry => rwa [nth_grown hg.blobs hentry, ← hentry]

theorem addName_holds (value : String) (hs : s.strings.Closed) :
    ((addName value).run s).2.HoldsName ((addName value).run s).1
      ⟨StringHeap.cut (Name.ofString value).bytes⟩ := by
  obtain ⟨-, -, hlt, hget⟩ := hs.add (Name.ofString value).bytes
  refine ⟨hlt, ?_⟩
  have hstring : ((addName value).run s).2.string ((addName value).run s).1 =
      ((s.strings.add (Name.ofString value).bytes).2.get?
        (s.strings.add (Name.ofString value).bytes).1).getD .empty := rfl
  rw [hstring, hget, Option.getD_some]

theorem addData_holds (bytes : List UInt8) (s : Store) :
    ((addData bytes).run s).2.HoldsBlob ((addData bytes).run s).1 bytes where
  blob? := by
    have hrun : (addData bytes).run s =
        ((s.blobs ++ [Blob.data bytes]).length, { s with blobs := s.blobs ++ [.data bytes] }) := rfl
    rw [hrun, Store.blob?, List.length_append, List.length_singleton, if_neg (Nat.succ_ne_zero _)]
    dsimp only
    rw [nth_concat]

/-- Nothing is stored at index zero. -/
theorem holds_nothing (s : Store) : s.HoldsBlob 0 [] := ⟨rfl⟩

end Store
end CliMetadata
