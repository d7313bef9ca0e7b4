import CliMetadata.Proofs.Graph.References
import CliMetadata.Proofs.Ownership.Stored
import CliMetadata.Proofs.Store.Calls

/-!
# Identities in stores

An assembly reference keeps the identity that it was added for in four columns: the name and the
culture are offsets into the string heap, the version stands in the row, and of the strong name the
bytes are in the blob heap while a bit of the flags says whether they are a key in full or its token.
What is read back from these is the identity that was stored (`AssemblyRefRow.identity_eq`,
`AssemblyRow.identity_eq`), as long as it can be written at all (`AssemblyIdentity.Storable`): a NUL
ends a stored name, and empty bytes mean no strong name.

Stores only grow, so neither what was built before nor what is built after matters, and an entity of a
row stays as it is while others are read: **an identity that is stored comes back**
(`Storable.materialized`).
-/

namespace CliMetadata

open CliMetadata.Graph Stateful

/-! ## Flags -/

namespace AssemblyFlags

/-- The bit that says that a key is stored in full is as it was asked for. -/
theorem has_withKey (isFull : Bool) (flags : Flags) :
    Flags.has (withKey isFull flags) publicKey = isFull := by
  cases isFull with
  | true =>
    have hset : (flags ||| publicKey) &&& publicKey = publicKey := by
      apply UInt32.toBitVec_inj.mp
      ext i hi
      simp
      grind
    rw [withKey, if_pos rfl, Flags.has, hset]
    rfl
  | false =>
    have hclear : (flags &&& ~~~publicKey) &&& publicKey = 0 := by
      apply UInt32.toBitVec_inj.mp
      ext i hi
      simp
    rw [withKey, if_neg Bool.false_ne_true, Flags.has, hclear]
    rfl

/-- All other bits are as they were given. -/
theorem withKey_others (isFull : Bool) (flags : Flags) :
    withKey isFull flags &&& ~~~publicKey = flags &&& ~~~publicKey := by
  apply UInt32.toBitVec_inj.mp
  cases isFull with
  | true =>
    rw [withKey, if_pos rfl]
    ext i hi
    simp
    grind
  | false =>
    rw [withKey, if_neg Bool.false_ne_true]
    ext i hi
    simp

end AssemblyFlags

/-! ## Reading back -/

namespace StrongName

/-- The bytes that a strong name is stored as. -/
def stored : Option StrongName → List UInt8
  | some (publicKey key) => key
  | some (token t) => t.val
  | none => []

/-- A strong name is read back from its bytes, given whether it is a key in full. -/
theorem ofStored?_stored {n : Option StrongName} (h : n ≠ some (publicKey [])) :
    ofStored? (stored n) (n.any isKey) = n := by
  cases n with
  | none => rfl
  | some n =>
    cases n with
    | publicKey key =>
      cases key with
      | nil => exact absurd rfl h
      | cons b bs => rfl
    | token t =>
      obtain ⟨bytes, hlength⟩ := t
      have hne : bytes.isEmpty = false := by
        cases bytes with
        | nil => cases hlength
        | cons b bs => rfl
      have hof : ofStored? bytes false = some (token ⟨bytes, hlength⟩) := by
        rw [ofStored?, hne, if_neg Bool.false_ne_true, if_neg Bool.false_ne_true,
          KeyToken.ofBytes?, dif_pos hlength]
        rfl
      exact hof

/-- A strong name that is a key in full. -/
theorem any_isKey {n : Option StrongName} :
    n.any isKey = true ↔ ∃ key, n = some (publicKey key) := by
  rcases n with _ | ⟨key | t⟩
  · exact iff_of_false Bool.false_ne_true (by rintro ⟨key, ⟨⟩⟩)
  · exact iff_of_true rfl ⟨key, rfl⟩
  · exact iff_of_false Bool.false_ne_true (by rintro ⟨key, ⟨⟩⟩)

end StrongName

namespace AssemblyIdentity

/-- **An identity that a store can keep**: one made from its parts, without NUL in its texts, and not
with a key of no bytes. -/
structure Storable (i : AssemblyIdentity) : Prop where
  made : ∃ name version culture strongName, i = make name version culture strongName
  name : '\x00' ∉ i.name.toList
  culture : ∀ c, i.culture = some c → '\x00' ∉ c.toList
  key : i.strongName ≠ some (.publicKey [])

namespace Storable

variable {i : AssemblyIdentity} (h : i.Storable)
include h

/-- The culture is not the neutral one. -/
theorem not_neutral {c : String} (hc : i.culture = some c) : isNeutral c = false := by
  obtain ⟨name, version, culture, strongName, rfl⟩ := h.made
  have hfiltered : culture.filter (fun c => !isNeutral c) = some c := hc
  simpa using (Option.filter_eq_some_iff.mp hfiltered).2

/-- The parts of the identity make it up. -/
theorem make_eq : make i.name i.version i.culture i.strongName = i := by
  have hculture : i.culture.filter (fun c => !isNeutral c) = i.culture := by
    cases hc : i.culture with
    | none => rfl
    | some c => simp [Option.filter, h.not_neutral hc]
  rw [make, hculture]

theorem name_stored : StringHeap.cut (Name.ofString i.name).bytes = (Name.ofString i.name).bytes :=
  StringHeap.cut_encode h.name

theorem culture_stored : StringHeap.cut (Name.ofString (i.culture.getD "")).bytes =
    (Name.ofString (i.culture.getD "")).bytes := by
  cases hc : i.culture with
  | none => rfl
  | some c => exact StringHeap.cut_encode (h.culture c hc)

/-- A culture that is stored is read back. -/
theorem storedCulture_eq {s : Store} {offset : Nat}
    (hs : s.HoldsName offset (.ofString (i.culture.getD ""))) : storedCulture s offset = i.culture := by
  unfold storedCulture
  rw [hs.string]
  dsimp only
  cases hc : i.culture with
  | none => rfl
  | some c =>
    have hne : (Name.ofString c).isEmpty = false := by
      -- a culture without characters would be the neutral one
      by_contra hempty
      have hbytes : (Name.ofString c).bytes = [] :=
        List.isEmpty_iff.mp (by simpa [Name.isEmpty] using hempty)
      have hlossy : (Name.ofString c).lossy = Name.empty.lossy := congrArg Name.lossy
        (show Name.ofString c = .empty from congrArg Name.mk hbytes)
      rw [Name.lossy_ofString] at hlossy
      have hneutral := h.not_neutral hc
      rw [hlossy] at hneutral
      exact absurd hneutral (by decide)
    rw [Option.getD_some, if_neg (by simp [hne]), Name.lossy_ofString]

end Storable
end AssemblyIdentity

namespace Store

open AssemblyIdentity

variable {s s' : Store} {i : AssemblyIdentity}

/-- **A row of the table of assembly references that describes an identity**, with the flags that it
was added with. -/
structure Refers (s : Store) (i : AssemblyIdentity) (flags : Flags) (r : AssemblyRefRow) : Prop where
  version : r.version = i.version
  flags : r.flags = AssemblyFlags.withKey (i.strongName.any StrongName.isKey) flags
  key : s.HoldsBlob r.publicKeyOrToken (StrongName.stored i.strongName)
  name : s.HoldsName r.name (.ofString i.name)
  culture : s.HoldsName r.culture (.ofString (i.culture.getD ""))

/-- **A row of the table of assemblies that describes an identity.** -/
structure Describes (s : Store) (i : AssemblyIdentity) (r : AssemblyRow) : Prop where
  version : r.version = i.version
  key : s.HoldsBlob r.publicKey (StrongName.stored i.strongName)
  name : s.HoldsName r.name (.ofString i.name)
  culture : s.HoldsName r.culture (.ofString (i.culture.getD ""))

theorem Refers.grown {flags : Flags} {r : AssemblyRefRow} (h : s.Refers i flags r)
    (hs : s.strings.Closed) (hg : s.Grown s') : s'.Refers i flags r where
  version := h.version
  flags := h.flags
  key := h.key.grown hg
  name := h.name.grown hs hg
  culture := h.culture.grown hs hg

theorem Describes.grown {r : AssemblyRow} (h : s.Describes i r) (hs : s.strings.Closed)
    (hg : s.Grown s') : s'.Describes i r where
  version := h.version
  key := h.key.grown hg
  name := h.name.grown hs hg
  culture := h.culture.grown hs hg

theorem addStrongName_holds (s : Store) : ∀ n : Option StrongName,
    ((addStrongName n).run s).2.HoldsBlob ((addStrongName n).run s).1 (StrongName.stored n)
  | some (.publicKey key) => addData_holds key s
  | some (.token token) => addData_holds token.val s
  | none => holds_nothing s

theorem addFullKey_holds (s : Store) : ∀ {n : Option StrongName},
    (∀ t, n ≠ some (.token t)) →
    ((addFullKey n).run s).2.HoldsBlob ((addFullKey n).run s).1.1 (StrongName.stored n)
  | some (.publicKey key), _ => addData_holds key s
  | some (.token t), h => absurd rfl (h t)
  | none, _ => holds_nothing s

/-- Two names are stored, one after the other. -/
theorem addNames_hold (hs : s.strings.Closed) {name culture : String}
    (hname : StringHeap.cut (Name.ofString name).bytes = (Name.ofString name).bytes)
    (hculture : StringHeap.cut (Name.ofString culture).bytes = (Name.ofString culture).bytes) :
    let first := (addName name).run s
    let second := (addName culture).run first.2
    second.2.strings.Closed ∧ s.Grown second.2 ∧ second.2.HoldsName first.1 (.ofString name) ∧
      second.2.HoldsName second.1 (.ofString culture) := by
  intro first second
  obtain ⟨hfirst, hgrown⟩ := addName_grows name s hs
  obtain ⟨hsecond, hgrown'⟩ := addName_grows culture first.2 hfirst
  have hheld := addName_holds name hs
  have hheld' := addName_holds culture hfirst
  rw [hname] at hheld
  rw [hculture] at hheld'
  exact ⟨hsecond, hgrown.trans hgrown', hheld.grown hfirst hgrown', hheld'⟩

/-- Names are stored beside the tables. -/
theorem addName_rows (name : String) (s : Store) : ((addName name).run s).2.rows = s.rows := by
  have hrows : ∀ heap : StringHeap, { s with strings := heap }.rows = s.rows := fun _ => rfl
  exact hrows _

theorem addNames_rows (name culture : String) (s : Store) :
    ((addName culture).run ((addName name).run s).2).2.rows = s.rows :=
  (addName_rows culture _).trans (addName_rows name s)

theorem addStrongName_rows (s : Store) :
    ∀ n : Option StrongName, ((addStrongName n).run s).2.rows = s.rows
  | some (.publicKey _) => rfl
  | some (.token _) => rfl
  | none => rfl

theorem addFullKey_rows (s : Store) :
    ∀ n : Option StrongName, ((addFullKey n).run s).2.rows = s.rows
  | some (.publicKey _) => rfl
  | some (.token _) => rfl
  | none => rfl

/-- Rows of assembly references are put at the end. -/
theorem nth_push_assemblyRef (s : Store) (r : AssemblyRefRow) :
    nth ((push (.assemblyRef r)).run s).2.assemblyRefs (s.rowCount .assemblyRef + 1) = some r := by
  have hcount : s.rowCount .assemblyRef = s.assemblyRefs.length := List.length_map _
  rw [hcount]
  exact nth_concat _ _

theorem nth_push_assembly (s : Store) (r : AssemblyRow) :
    nth ((push (.assembly r)).run s).2.assemblies (s.rowCount .assembly + 1) = some r := by
  have hcount : s.rowCount .assembly = s.assemblies.length := List.length_map _
  rw [hcount]
  exact nth_concat _ _

/-- **What is added for a reference describes its identity.** -/
theorem addAssemblyRef_refers (hs : s.strings.Closed) (h : i.Storable) (flags : Flags) :
    let added := (addAssemblyRef i flags).run s
    let place := s.rowCount .assemblyRef + 1
    added.1 = Token.ofParts .assemblyRef place ∧ added.2.strings.Closed ∧
      ∃ r, nth added.2.assemblyRefs place = some r ∧ added.2.Refers i flags r := by
  intro added place
  obtain ⟨hkey, hkeyGrown⟩ := addStrongName_grows i.strongName s hs
  have hheld := addStrongName_holds s i.strongName
  have hkeyRows := addStrongName_rows s i.strongName
  obtain ⟨hnamed, hgrown, hname, hculture⟩ := addNames_hold hkey h.name_stored h.culture_stored
  set keyed := (addStrongName i.strongName).run s
  set first := (addName i.name).run keyed.2
  set second := (addName (i.culture.getD "")).run first.2
  have hplace : second.2.rowCount .assemblyRef + 1 = place := by
    have hrows : second.2.rows = s.rows := (addNames_rows _ _ keyed.2).trans hkeyRows
    rw [rowCount, hrows]
    rfl
  let row : AssemblyRefRow := ⟨⟨second.2.rowCount .assemblyRef + 1,
    Token.ofParts .assemblyRef (second.2.rowCount .assemblyRef + 1)⟩, i.version,
    AssemblyFlags.withKey (i.strongName.any StrongName.isKey) flags, keyed.1, first.1, second.1, 0⟩
  have hadded : added = (push (.assemblyRef row)).run second.2 := rfl
  obtain ⟨hclosed, hpushed⟩ := push_grows (.assemblyRef row) second.2 hnamed
  have hrefers : second.2.Refers i flags row := ⟨rfl, rfl, hheld.grown hgrown, hname, hculture⟩
  refine ⟨?_, hadded ▸ hclosed, row, ?_, hadded ▸ hrefers.grown hnamed hpushed⟩
  · rw [← hplace]
    rfl
  · rw [hadded, ← hplace]
    exact nth_push_assemblyRef second.2 row

/-- What is added for an assembly describes its identity. -/
theorem addAssembly_describes (hs : s.strings.Closed) (h : i.Storable)
    (htoken : ∀ t, i.strongName ≠ some (.token t)) :
    let added := (addAssembly i).run s
    added.2.strings.Closed ∧
      ∃ r, nth added.2.assemblies (s.rowCount .assembly + 1) = some r ∧ added.2.Describes i r := by
  intro added
  obtain ⟨hkey, hkeyGrown⟩ := addFullKey_grows i.strongName s hs
  have hheld := addFullKey_holds s htoken
  have hkeyRows := addFullKey_rows s i.strongName
  have hsteps : added = ((addAssembly i).run s) := rfl
  rw [addAssembly_eq] at hsteps
  obtain ⟨hnamed, hgrown, hname, hculture⟩ := addNames_hold hkey h.name_stored h.culture_stored
  set keyed := (addFullKey i.strongName).run s
  set first := (addName i.name).run keyed.2
  set second := (addName (i.culture.getD "")).run first.2
  have hcount : second.2.rowCount .assembly = s.rowCount .assembly := by
    have hrows : second.2.rows = s.rows := (addNames_rows _ _ keyed.2).trans hkeyRows
    rw [rowCount, rowCount, hrows]
  let row : AssemblyRow := ⟨⟨second.2.rowCount .assembly + 1,
    Token.ofParts .assembly (second.2.rowCount .assembly + 1)⟩, HashAlgorithm.sha1, i.version,
    keyed.1.2, keyed.1.1, first.1, second.1⟩
  have hadded : added = (push (.assembly row)).run second.2 := hsteps
  obtain ⟨hclosed, hpushed⟩ := push_grows (.assembly row) second.2 hnamed
  have hdescribes : second.2.Describes i row := ⟨rfl, hheld.grown hgrown, hname, hculture⟩
  refine ⟨hadded ▸ hclosed, row, ?_, hadded ▸ hdescribes.grown hnamed hpushed⟩
  rw [hadded, ← hcount]
  exact nth_push_assembly second.2 row

end Store

/-! ## Entities of rows -/

/-- **The assembly reference of a row has the identity that the row describes.** -/
theorem AssemblyRefRow.identity_eq {s : Store} {i : AssemblyIdentity} {flags : Flags}
    {r : AssemblyRefRow} (h : s.Refers i flags r) (hi : i.Storable) {place : Nat}
    (hrow : Store.nth s.assemblyRefs place = some r) (loader : Nat) :
    ∃ a : AssemblyRef, Recorded.ofRow? .assemblyRef s loader place = some a ∧ a.identity = i ∧
      a.flags = AssemblyFlags.withKey (i.strongName.any StrongName.isKey) flags := by
  refine ⟨_, congrArg (Option.map _) hrow, ?_, h.flags⟩
  rw [AssemblyRef.identity]
  dsimp only
  rw [h.name.string, Name.lossy_ofString, h.version,
    hi.storedCulture_eq h.culture, h.key.blob, h.flags, AssemblyFlags.has_withKey,
    StrongName.ofStored?_stored hi.key, hi.make_eq]

/-- **The assembly of a row has the identity that the row describes**, unless that has a key token in
place of a key. -/
theorem AssemblyRow.identity_eq {s : Store} {i : AssemblyIdentity} {r : AssemblyRow}
    (h : s.Describes i r) (hi : i.Storable) (htoken : ∀ t, i.strongName ≠ some (.token t)) :
    r.identity s = i := by
  have hkey : StrongName.ofStored? (StrongName.stored i.strongName) true = i.strongName := by
    have hread := StrongName.ofStored?_stored hi.key
    cases hn : i.strongName with
    | none => rfl
    | some n =>
      cases n with
      | publicKey key => rwa [hn] at hread
      | token t => exact absurd hn (htoken t)
  rw [AssemblyRow.identity, h.name.string, Name.lossy_ofString, h.version,
    hi.storedCulture_eq h.culture, h.key.blob, hkey, hi.make_eq]

/-- There is an entity of every row. -/
theorem Loading.sharedWithAttributes_value {k : Kind} {ρ : Type} [Recorded k ρ] {g : Graph}
    {token : ρ → Token} {loader place : Nat} {r : ρ}
    (h : ((g.store? loader).bind fun s => Recorded.ofRow? k s loader place) = some r) :
    ((sharedWithAttributes k token loader place).run g).1 = some ⟨.row loader place⟩ := by
  unfold sharedWithAttributes
  rw [run_get_bind]
  by_cases hc : g.entities.contains (⟨.row loader place⟩ : Id k).node
  · rw [if_pos hc]
    rfl
  · rw [if_neg hc, h]
    rfl

theorem Entity.Le.of_assembly {a a' : Assembly} (h : (Entity.assembly a).Le (.assembly a')) :
    a' = a := by
  cases h
  rfl

theorem Entity.Le.of_assemblyRef {r r' : AssemblyRef}
    (h : (Entity.assemblyRef r).Le (.assemblyRef r')) : r' = r := by
  cases h
  rfl

/-- The columns of an assembly do not change. -/
theorem Graph.Later.assembly {g g' : Graph} (h : g.Later g') {a : AssemblyId} (ha : g.Known a.key) :
    g'.get a = g.get a :=
  Entity.Le.of_assembly (h.entity (n := a.node) (Or.inl ha))

/-- The columns of an assembly reference of a row do not change. -/
theorem Graph.Later.assemblyRef {g g' : Graph} (h : g.Later g') {a : AssemblyRefId}
    (ha : g.Known a.key) : g'.get a = g.get a :=
  Entity.Le.of_assemblyRef (h.entity (n := a.node) (Or.inl ha))

section Opened

variable {s : Store} {policy : InitPolicy} {g₀ g : Graph}

/-- A graph in which a store has been opened as a module, the first one, and no assembly reference has
been read. -/
structure Graph.OpenFor (s : Store) (policy : InitPolicy) (g : Graph) : Prop where
  loader : g.loader? 0 = some ⟨s, policy⟩
  fresh : ∀ r : AssemblyRefId, ¬g.entities.contains r.node

/-- A row of the table of assembly references has an entity with its columns, whatever has been read
meanwhile. -/
theorem Graph.OpenFor.assemblyRef (h : g₀.OpenFor s policy) (hg : g₀.Later g) {place : Nat}
    {a : AssemblyRef} (ha : Recorded.ofRow? .assemblyRef s 0 place = some a) :
    let read := (ModuleId.assemblyRef ⟨.built 0⟩ place).run g
    read.1 = .ok ⟨.row 0 place⟩ ∧ read.2.get (⟨.row 0 place⟩ : AssemblyRefId) = a := by
  intro read
  let r : AssemblyRefId := ⟨.row 0 place⟩
  have hstored : ∀ g' : Graph, g₀.Later g' →
      ((g'.store? 0).bind fun s => Recorded.ofRow? .assemblyRef s 0 place) = some a := by
    intro g' hg'
    rw [store?, hg'.loader, h.loader]
    exact ha
  have hopened : (g.loader? 0).isSome := by rw [hg.loader, h.loader]; rfl
  have hread : read = (.ok r, ((Loading.assemblyRef 0 place).run g).2) := by
    have hvalue : ((Loading.assemblyRef 0 place).run g).1 = some r :=
      Loading.sharedWithAttributes_value (hstored g hg)
    show (ModuleId.row Loading.assemblyRef ⟨.built 0⟩ place).run g = _
    unfold ModuleId.row
    dsimp only
    rw [run_get_bind, if_pos hopened, run_bind, hvalue]
    rfl
  have hlater : g₀.Later read.2 := by
    rw [hread]
    exact hg.trans (keeps_assemblyRef 0 place g)
  have hcolumns : g₀.get r = a := get_of_not_contains (h.fresh r) (hstored g₀ (.refl g₀))
  have hsame : read.2.get r = g₀.get r := hlater.assemblyRef trivial
  exact ⟨by rw [hread], hsame.trans hcolumns⟩

theorem Store.loaded_opened {row : ModuleRow} (h : s.moduleRow? = some row) :
    (s.loaded policy).OpenFor s policy where
  loader := loaded_loader? h 0
  fresh r hr := by cases congrArg Node.kind (loaded_contains h hr)

/-- The first module is put into an assembly. -/
theorem Ownership.add_first {o : Node} {c : Key} (halive : g.alive o)
    (hlist : g.lists.get? (.assemblyModules, o) = some [])
    (howner : g.owners.get? (.assemblyModules, c) = some none) :
    (Ownership.add .assemblyModules o c).run g =
      (.ok (), (g.setOwner .assemblyModules c (some o)).setList .assemblyModules o [c]) := by
  have hitems : (Ownership.items .assemblyModules o).run g = ([], g) := getRelaxed_held hlist
  have hrefusal : (Ownership.refusal? .assemblyModules o c).run g = (none, g) := by
    have hread : (Ownership.owner .assemblyModules c).run g = (none, g) := by
      unfold Ownership.owner
      rw [run_get_bind, run_bind, getRelaxed_held (v := none) howner]
      rfl
    unfold Ownership.refusal?
    rw [run_bind]
    show StateT.run (Ownership.owner .assemblyModules c >>= _) g = _
    rw [run_bind, hread]
    rfl
  rw [add_run halive, hitems, Ownership.insert, run_get_bind, halive]
  rw [if_neg (by decide), run_bind, hitems, run_bind, hrefusal]
  rfl

/-- An assembly is opened with its module, and with the identity that its row describes. -/
theorem Store.openAssembly_run {row : ModuleRow} {r : AssemblyRow} (h : s.moduleRow? = some row)
    (hr : s.assemblyRow? = some r) :
    let opened := (openAssembly s policy).run .empty
    let a : AssemblyId := ⟨.built 1⟩
    opened.1 = .ok a ∧ opened.2.Known a.key ∧ (opened.2.get a).identity = r.identity s ∧
      opened.2.OpenFor s policy := by
  intro opened a
  let assembly : Assembly := ⟨r.rid, .row 0 r.rid, r.identity s, r.hashAlgorithm, r.flags⟩
  -- the graph before the module is put into the assembly
  let entered := (s.loaded policy).put a assembly
  let made := ({ entered with built := 2 } : Graph).setList .assemblyModules a.node []
  have hloaders : ∀ l, entered.loader? l = (s.loaded policy).loader? l :=
    loader?_put (by decide) a assembly
  have hcontains : made.entities.contains a.node := by
    show (entered.entities.get? a.node).isSome = true
    rw [show entered.entities = (s.loaded policy).entities.set a.node _ from rfl,
      Index.get?_set_same]
    rfl
  have hlist : made.lists.get? (.assemblyModules, a.node) = some [] := Index.get?_set_same _ _ _
  have howner : made.owners.get? (.assemblyModules, .built 0) = some none := by
    show (s.loaded policy).owners.get? (.assemblyModules, .built 0) = some none
    rw [loaded_eq h]
    exact Index.get?_set_same _ _ _
  have hopened : opened = (.ok a,
      (made.setOwner .assemblyModules (.built 0) (some a.node)).setList .assemblyModules a.node
        [.built 0]) := by
    have hmodule : (makeStoredModule s policy row).run .empty = (⟨.built 0⟩, s.loaded policy) := by
      rw [loaded_eq h]
      rfl
    have hassembly : (makeStoredAssembly s 0 r).run (s.loaded policy) = (a, made) := by
      dsimp only [made, entered]
      rw [loaded_eq h]
      rfl
    have hbuilt : Graph.empty.built = 0 := rfl
    show (openAssembly s policy).run .empty = _
    unfold openAssembly
    rw [h, hr]
    dsimp only
    rw [run_get_bind, run_bind, hmodule, run_bind, hbuilt, hassembly, run_bind,
      Ownership.add_first (alive_of_contains hcontains) hlist howner]
    rfl
  have hentities : opened.2.entities = entered.entities := by rw [hopened]; rfl
  have hopenedLoaders : ∀ l, opened.2.loader? l = entered.loader? l := by
    intro l
    rw [loader?, loader?, hentities]
  refine ⟨by rw [hopened], ?_, ?_, ?_, fun ref hc => ?_⟩
  · rw [hopened]
    exact Nat.one_lt_two
  · rw [get_congr a (by rw [hentities]) hopenedLoaders, get_put]
  · rw [hopenedLoaders, hloaders, loaded_loader? h, if_pos rfl]
  · rw [hentities] at hc
    have hne : a.node ≠ ref.node := by
      intro heq
      cases congrArg Node.kind heq
    rw [Index.contains, show entered.entities = (s.loaded policy).entities.set a.node _ from rfl,
      Index.get?_set_other _ _ hne] at hc
    exact (loaded_opened h).fresh ref hc

end Opened

/-! ## Whole sequences of calls -/

namespace AssemblyIdentity.Storable

variable {i : AssemblyIdentity}

/-- **An identity that is stored comes back**, whatever calls are made before and after.  The assembly
reference that is read from the row has the identity, and flags that say whether it has a key in full
and are otherwise the ones given.  So has the first assembly, unless there is a token in place of its
key, which is not stored for assemblies. -/
theorem materialized (h : i.Storable) (flags : Flags) (before after : List BuildCall)
    (policy : InitPolicy) :
    let s := ((Store.calls before).run Store.empty).2
    let place := s.rowCount .assemblyRef + 1
    let added := (Store.addAssemblyRef i flags).run s
    let withRef := ((Store.calls after).run added.2).2
    let withAssembly := ((Store.calls after).run ((Store.addAssembly i).run s).2).2
    added.1 = Token.ofParts .assemblyRef place ∧
      (withRef.moduleRow?.isSome → ∃ m, ((openModule withRef policy).run .empty).1 = .ok m ∧
        ∀ g, (withRef.loaded policy).Later g → ∃ r, ((m.assemblyRef place).run g).1 = .ok r ∧
          let a := ((m.assemblyRef place).run g).2.get r
          a.identity = i ∧
            a.flags &&& ~~~AssemblyFlags.publicKey = flags &&& ~~~AssemblyFlags.publicKey ∧
            (Flags.has a.flags AssemblyFlags.publicKey = true ↔
              ∃ key, i.strongName = some (.publicKey key))) ∧
      ((∀ t, i.strongName ≠ some (.token t)) → s.assemblies = [] →
        withAssembly.moduleRow?.isSome →
        let opened := (openAssembly withAssembly policy).run .empty
        ∃ a, opened.1 = .ok a ∧ ∀ g, opened.2.Later g → (g.get a).identity = i) := by
  intro s place added withRef withAssembly
  obtain ⟨hclosed, -⟩ := Store.calls_grows before Store.empty StringHeap.closed_empty
  obtain ⟨htoken, hadded, row, hrow, hrefers⟩ := Store.addAssemblyRef_refers hclosed h flags
  refine ⟨htoken, fun hmodule => ?_, fun htokenless hfirst hmodule => ?_⟩
  · obtain ⟨-, hgrown⟩ := Store.calls_grows after added.2 hadded
    obtain ⟨a, hread, hidentity, hflags⟩ := AssemblyRefRow.identity_eq (hrefers.grown hadded hgrown) h
      (Store.nth_grown hgrown.assemblyRefs hrow) 0
    obtain ⟨first, hfirst⟩ := Option.isSome_iff_exists.mp hmodule
    refine ⟨⟨.built 0⟩, ?_, fun g hg => ⟨⟨.row 0 place⟩, ?_⟩⟩
    · unfold openModule
      rw [hfirst]
      rfl
    · obtain ⟨hok, hcolumns⟩ := (Store.loaded_opened hfirst).assemblyRef hg hread
      refine ⟨hok, ?_⟩
      rw [hcolumns]
      refine ⟨hidentity, ?_, ?_⟩
      · rw [hflags, AssemblyFlags.withKey_others]
      · rw [hflags, AssemblyFlags.has_withKey]
        exact StrongName.any_isKey
  · obtain ⟨hbuilt, row, hrow, hdescribes⟩ := Store.addAssembly_describes hclosed h htokenless
    obtain ⟨-, hgrown⟩ := Store.calls_grows after _ hbuilt
    have hplace : s.rowCount .assembly + 1 = 1 := by
      rw [Store.rowCount, Store.rows, hfirst]
      rfl
    rw [hplace] at hrow
    obtain ⟨first, hfirst⟩ := Option.isSome_iff_exists.mp hmodule
    obtain ⟨hok, hknown, hidentity, -⟩ := @Store.openAssembly_run withAssembly policy
      first row hfirst (Store.nth_grown hgrown.assemblies hrow)
    refine ⟨_, hok, fun g hg => ?_⟩
    rw [hg.assembly hknown, hidentity]
    exact AssemblyRow.identity_eq (hdescribes.grown hbuilt hgrown) h htokenless

/-- An identity with a culture and a key in full. -/
def keyed : AssemblyIdentity := make "Core" ⟨4, 0, 1, 2⟩ (some "de-CH") (some (.publicKey [7, 0, 9]))

theorem keyed_storable : keyed.Storable where
  made := ⟨_, _, _, _, rfl⟩
  name := by decide
  culture c hc := by
    obtain rfl : "de-CH" = c := Option.some.inj hc
    decide
  key := by decide

/-- It comes back from between a module and another reference to an assembly of its name. -/
theorem keyed_materialized :
    let s := ((Store.calls [.module "Core.dll", .name "de-CH"]).run Store.empty).2
    let after : List BuildCall := [.assemblyRef ⟨"Core", .unknown, none, none⟩ 0]
    let withRef := ((Store.calls after).run ((Store.addAssemblyRef keyed 0x300).run s).2).2
    let withAssembly := ((Store.calls after).run ((Store.addAssembly keyed).run s).2).2
    (∃ m, ((openModule withRef .perEntityLock).run .empty).1 = .ok m ∧
      ∀ g, (withRef.loaded .perEntityLock).Later g → ∃ r, ((m.assemblyRef 1).run g).1 = .ok r ∧
        (((m.assemblyRef 1).run g).2.get r).identity = keyed) ∧
      let opened := (openAssembly withAssembly .noLocking).run .empty
      ∃ a, opened.1 = .ok a ∧ ∀ g, opened.2.Later g → (g.get a).identity = keyed := by
  intro s after withRef withAssembly
  obtain ⟨-, href, -⟩ := materialized keyed_storable 0x300 [.module "Core.dll", .name "de-CH"] after
    .perEntityLock
  obtain ⟨-, -, hassembly⟩ := materialized keyed_storable 0x300 [.module "Core.dll", .name "de-CH"]
    after .noLocking
  refine ⟨?_, hassembly (by rintro t ⟨⟩) rfl rfl⟩
  obtain ⟨m, hok, hread⟩ := href rfl
  refine ⟨m, hok, fun g hg => ?_⟩
  obtain ⟨r, hr, hidentity, -⟩ := hread g hg
  exact ⟨r, hr, hidentity⟩

end AssemblyIdentity.Storable
end CliMetadata
