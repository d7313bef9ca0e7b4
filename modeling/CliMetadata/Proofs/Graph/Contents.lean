import CliMetadata.Proofs.Graph.Consulting
import CliMetadata.Proofs.Graph.Materialized
import CliMetadata.Proofs.Identity.StoredIdentities
import CliMetadata.Proofs.Store.Addresses

/-!
# Bodies and bytes that are read from a store

A store is opened, and bodies of methods, implementations of resources and bytes of resources are
asked for in any order, while the graph is consulted in between (`Store.Drawn`).  **Every slot that is
filled then holds what the store says** (`Graph.Supplied`), whenever it has been filled.  So a method
reads as having the body at the address of its row, and a resource as having the bytes at the offset
of its row, unless it is kept elsewhere (`Store.Linked`).

Whether it is kept elsewhere is told by what its implementation resolves to.  An implementation that
is not null and resolves to nothing counts as none, and then the resource reads as having the bytes at
its offset, which for every linked resource is the offset of the first embedded one.

What is stored by address is not mixed up when calls build the store (`Store.Addressed.calls`), so it
is read back as it was given.
-/

namespace CliMetadata

open CliMetadata.Graph Loading Stateful

namespace Store

/-- What the implementation of a resource refers to, if it is there. -/
def implementation? (s : Store) (index : CodedIndex) : Option Implementation :=
  if index.validFor .implementation ∧ (s.row? index.tag index.row).isSome then
    match index.tag with
    | .file => some (.file ⟨.row 0 index.row⟩)
    | .assemblyRef => some (.assemblyRef ⟨.row 0 index.row⟩)
    | .exportedType => some (.exportedType ⟨.row 0 index.row⟩)
    | _ => none
  else none

/-- What the implementation of the resource with a number refers to. -/
def implementationOf (s : Store) (rid : Nat) : Option Implementation :=
  (nth s.resources rid).bind fun r => s.implementation? r.implementation

/-- The bytes that a row of the table of resources has. -/
def dataOf (s : Store) (r : ResourceRow) : Option (List UInt8) :=
  if (s.implementationOf r.rid).isSome then none else s.resource? r.offset

/-- What is told of the row at a place of a table, if there is one. -/
def told {σ α : Type} (table : TableId) (rows : List σ) (place : Nat) (value : σ → α) :
    Except Error α :=
  match nth rows place with
  | some r => .ok (value r)
  | none => .error (.rowNotFound (Token.ofParts table place))

end Store

namespace ModuleId

/-- What is read of the entity of a row of a module, by the number of the row. -/
def rowRead {k : Kind} {α : Type} (find : (loader rid : Nat) → GraphM (Option (Id k)))
    (m : ModuleId) (rid : Nat) (read : Id k → GraphM α) : GraphM (Except Error α) := do
  match ← m.row find rid with
  | .ok id => .ok <$> read id
  | .error e => return .error e

/-- The body of the method of a row. -/
def bodyAt (m : ModuleId) (rid : Nat) : GraphM (Except Error (Option MethodBody)) :=
  m.rowRead (shared .methodDef) rid MethodDefId.body

/-- Forgets the body of the method of a row. -/
def freeBodyAt (m : ModuleId) (rid : Nat) : GraphM (Except Error Unit) :=
  m.rowRead (shared .methodDef) rid MethodDefId.freeBody

/-- Where the resource of a row is kept. -/
def implementationAt (m : ModuleId) (rid : Nat) : GraphM (Except Error (Option Implementation)) :=
  m.rowRead (shared .resource) rid ResourceId.implementation

/-- The bytes of the resource of a row. -/
def dataAt (m : ModuleId) (rid : Nat) : GraphM (Except Error (Option (List UInt8))) :=
  m.rowRead (shared .resource) rid ResourceId.data

end ModuleId

/-- **An entity that holds what the store says.** -/
def Entity.Faithful (s : Store) (place : Nat) : Entity → Prop
  | methodDef e => ∀ r, Store.nth s.methodDefs place = some r →
    e.origin = .row 0 r.rid ∧ e.rva = r.rva ∧ ∀ b ∈ e.body, b = s.bodyOf r
  | resource e => ∀ r, Store.nth s.resources place = some r →
    e.origin = .row 0 r.rid ∧ e.offset = r.offset ∧
      (∀ i ∈ e.implementation, i = s.implementationOf r.rid) ∧
        ∀ d ∈ e.data, d = s.resource? r.offset
  | _ => True

namespace Graph

variable {s : Store} {policy : InitPolicy} {g g' : Graph} {place : Nat}

/-! ## Stores that have just been opened -/

/-- The graph of an assembly that is being opened, before its module is added to it. -/
def assemblyMade (s : Store) (policy : InitPolicy) (row : ModuleRow) (assembly : AssemblyRow) : Graph :=
  ((Graph.empty.opening s policy row).grow .assembly (openedAssembly s 0 assembly)).setList
    .assemblyModules ⟨.assembly, .built 1⟩ []

theorem assemblyMade_entities {row : ModuleRow} {assembly : AssemblyRow} {n : Node}
    (hn : ⟨.assembly, .built 1⟩ ≠ n) : (assemblyMade s policy row assembly).entities.get? n =
      (Graph.empty.opening s policy row).entities.get? n :=
  Index.get?_set_other _ _ hn

/-- The module is added to the assembly as its first. -/
theorem openAssembly_added {row : ModuleRow} {assembly : AssemblyRow}
    (hrow : s.moduleRow? = some row) (hassembly : s.assemblyRow? = some assembly) :
    ((openAssembly s policy).run .empty).2 =
      ((assemblyMade s policy row assembly).setOwner .assemblyModules (.built 0)
        (some ⟨.assembly, .built 1⟩)).setList .assemblyModules ⟨.assembly, .built 1⟩ [.built 0] := by
  have halive : (assemblyMade s policy row assembly).alive ⟨.assembly, .built 1⟩ :=
    alive_of_contains (congrArg Option.isSome (Index.get?_set_same _ _ _))
  rw [openAssembly_run hrow hassembly]
  exact congrArg Prod.snd (Ownership.add_first (g := assemblyMade s policy row assembly) halive
    (Index.get?_set_same _ _ _) (Index.get?_set_same _ _ _))

/-- **A graph of an open store of whose rows no entity has been made.** -/
structure Unmade (s : Store) (policy : InitPolicy) (g : Graph) : Prop where
  loader : g.loader? 0 = some ⟨s, policy⟩
  entities : ∀ k place, g.entities.get? ⟨k, .row 0 place⟩ = none

namespace Unmade

theorem store? (h : g.Unmade s policy) : g.store? 0 = some s := by
  rw [Graph.store?, h.loader]
  rfl

theorem present (h : g.Unmade s policy) (k : Kind) (place : Nat) :
    g.present ⟨k, .row 0 place⟩ = (s.row? k.table place).isSome := by
  rw [Graph.present, Index.contains, h.entities, Option.isSome_none, Bool.false_or, hasRow]
  dsimp only
  rw [h.store?, Option.bind_some]

/-- What has not been made reads as its row has it. -/
theorem get {k : Kind} {ρ : Type} [Recorded k ρ] {r : ρ} (h : g.Unmade s policy)
    (hr : Recorded.ofRow? k s 0 place = some r) : g.get (⟨.row 0 place⟩ : Id k) = r := by
  refine get_of_not_contains ?_ (by rw [h.store?, Option.bind_some, hr])
  have hunmade := h.entities k place
  rw [Index.contains, show (⟨.row 0 place⟩ : Id k).node = ⟨k, .row 0 place⟩ from rfl, hunmade]
  exact Bool.false_ne_true

theorem methodDef {r : MethodDefRow} (h : g.Unmade s policy)
    (hr : Store.nth s.methodDefs place = some r) : g.get (⟨.row 0 place⟩ : MethodDefId) =
      ⟨r.rid, .row 0 r.rid, r.rva, r.implFlags, r.flags, s.string r.name, none, none, none, none,
        none, none⟩ :=
  h.get (by simp [Recorded.ofRow?, hr])

/-- A store is opened as a module. -/
theorem openModule (hrow : s.moduleRow?.isSome) :
    ((CliMetadata.openModule s policy).run .empty).2.Unmade s policy := by
  obtain ⟨row, hrow⟩ := Option.isSome_iff_exists.mp hrow
  refine ⟨s.loaded_loader? hrow 0, fun k place => ?_⟩
  exact (s.loaded_entities hrow _).trans (if_neg nofun)

/-- A store is opened as an assembly. -/
theorem openAssembly (hrow : s.moduleRow?.isSome) (hassembly : s.assemblyRow?.isSome) :
    ((CliMetadata.openAssembly s policy).run .empty).2.Unmade s policy := by
  obtain ⟨row, hrow⟩ := Option.isSome_iff_exists.mp hrow
  obtain ⟨assembly, hassembly⟩ := Option.isSome_iff_exists.mp hassembly
  rw [openAssembly_added hrow hassembly]
  refine ⟨?_, fun k place => ?_⟩
  · show (assemblyMade s policy row assembly).loader? 0 = _
    rw [Graph.loader?, assemblyMade_entities (by decide), ← Graph.loader?]
    exact (opening_loader? 0).trans (if_pos rfl)
  · show (assemblyMade s policy row assembly).entities.get? ⟨k, .row 0 place⟩ = none
    have hkey : ∀ n : Node, n.key = .row 0 place →
        (assemblyMade s policy row assembly).entities.get? n = none := by
      intro n hn
      rw [assemblyMade_entities (by rintro rfl; cases hn), opening_entities,
        if_neg (by rintro rfl; cases hn)]
      rfl
    exact hkey _ rfl

end Unmade

/-! ## What is read of an open store -/

/-- **A property of the graphs of an open store that is kept by consulting them.** -/
structure Consultable (s : Store) (policy : InitPolicy) (P : Graph → Prop) : Prop where
  loader : ∀ {g}, P g → g.loader? 0 = some ⟨s, policy⟩
  rows : ∀ {g}, P g → ∀ k place, g.present ⟨k, .row 0 place⟩ = (s.row? k.table place).isSome
  consulted : ∀ {g g'}, P g → g.Consulted g' → P g'

namespace Consultable

variable {P : Graph → Prop} (hP : Consultable s policy P)
include hP

theorem store? (h : P g) : g.store? 0 = some s := by
  rw [Graph.store?, hP.loader h]
  rfl

/-- What the stores tell is told by the one store. -/
theorem fromStores {α : Type} {x : GraphM α} {v : α} (hx : ∀ {g : Graph}, P g → g.FromStores x v) :
    Yields P x v :=
  fun _ h => ⟨(hx h).value, hP.consulted h (.of_quiet (hx h).quiet)⟩

section Rows

variable {k : Kind} {ρ α : Type} [Recorded k ρ] [Recorded.Rowed k]

/-- The entity of a row is told by the store, where there is one. -/
theorem fromStores_shared (h : P g) (place : Nat) : g.FromStores (shared k 0 place)
    (if (s.row? k.table place).isSome then some ⟨.row 0 place⟩ else none) := by
  rw [← hP.rows h k place]
  exact CliMetadata.fromStores_shared 0 place

theorem row_yields (place : Nat) : Yields P (ModuleId.row (shared k) ⟨.built 0⟩ place)
    (if (s.row? k.table place).isSome then .ok ⟨.row 0 place⟩
      else .error (.rowNotFound (Token.ofParts k.table place))) := by
  intro g h
  have hloaded : (g.loader? 0).isSome := by
    rw [hP.loader h]
    rfl
  unfold ModuleId.row
  dsimp only
  rw [run_get_bind, if_pos hloaded]
  obtain ⟨hfound, hafter⟩ :=
    hP.fromStores (fun h => hP.fromStores_shared (k := k) h place) g h
  rw [run_bind, hfound]
  cases (s.row? k.table place).isSome <;> exact ⟨rfl, hafter⟩

/-- **What is read of the entity of a row** is read where there is a row. -/
theorem rowRead_yields {σ : Type} {rows : List σ} {read : Id k → GraphM α} {value : σ → α}
    (hrows : (s.row? k.table place).isSome = (Store.nth rows place).isSome)
    (hread : ∀ {r}, Store.nth rows place = some r → Yields P (read ⟨.row 0 place⟩) (value r)) :
    Yields P (ModuleId.rowRead (shared k) ⟨.built 0⟩ place read)
      (Store.told k.table rows place value) := by
  refine (hP.row_yields place).bind ?_
  rw [hrows, Store.told]
  cases hr : Store.nth rows place with
  | none => exact .pure _
  | some r => exact (hread hr).map Except.ok

end Rows

/-- **A slot that is filled from a row reads as one value**, which it holds if it holds any, and
which is computed for it otherwise. -/
theorem readSlot_yields {k : Kind} {ρ α : Type} [Recorded k ρ] {id : Id k} {slot : SlotIn Graph α}
    {absent v : α} {compute : Nat → Nat → GraphM α} {rid : Nat}
    (horigin : ∀ {g : Graph}, P g → g.origin id.node = .row 0 rid)
    (hheld : ∀ {g : Graph}, P g → ∀ w ∈ slot.peek g, w = v)
    (hcompute : ∀ {g : Graph}, P g → slot.peek g = none →
      ∃ g', (compute 0 rid).run g = (v, g') ∧ P g' ∧ slot.peek g' = none)
    (hput : ∀ {g : Graph}, P g → P (slot.publish v g)) :
    Yields P (readSlot id slot absent compute) v := by
  intro g h
  cases hslot : slot.peek g with
  | some w =>
    rw [readSlot, run_get_bind, getRelaxed_held hslot]
    exact ⟨hheld h w hslot, h⟩
  | none =>
    obtain ⟨g', hrun, hafter, hstill⟩ := hcompute h hslot
    have hreader : g.reader? (g.origin id.node) = some (0, rid) := by
      rw [horigin h, Graph.reader?, hP.loader h]
      rfl
    have hstore : (fromStore (g.origin id.node) absent compute).run g = (v, g') := by
      rw [fromStore, run_get_bind, hreader]
      exact hrun
    rw [readSlot, run_get_bind, getRelaxed_empty hslot (by rw [hstore, hstill]), hstore]
    exact ⟨rfl, hput hafter⟩

end Consultable

/-- What holds of every entity of a row holds after one is written down of which it holds. -/
theorem forall_entity_put {k : Kind} {ρ : Type} [Recorded k ρ] [Recorded.Lawful k]
    {F : Nat → Entity → Prop} (hk : k ≠ .module) {e : ρ} (he : F place (Recorded.pack k e))
    (h : ∀ kind place, F place (g.entity ⟨kind, .row 0 place⟩)) (kind : Kind) (place' : Nat) :
    F place' ((g.put (⟨.row 0 place⟩ : Id k) e).entity ⟨kind, .row 0 place'⟩) := by
  let id : Id k := ⟨.row 0 place⟩
  by_cases hn : id.node = ⟨kind, .row 0 place'⟩
  · obtain ⟨rfl, hkey⟩ := Node.mk.inj hn
    obtain rfl := (Key.row.inj hkey).2
    have hentity : (g.put id e).entity ⟨k, .row 0 place⟩ = Recorded.pack k e := entity_put id e
    rw [hentity]
    exact he
  · rw [entity_put_of_ne (loader?_put hk id e) hn]
    exact h kind place'

/-! ## Graphs that hold what the store says -/

/-- **A graph of an open store in which everything holds what the store says.** -/
structure Supplied (s : Store) (policy : InitPolicy) (g : Graph) : Prop where
  loader : g.loader? 0 = some ⟨s, policy⟩
  rows : ∀ k place, g.present ⟨k, .row 0 place⟩ = (s.row? k.table place).isSome
  faithful : ∀ k place, (g.entity ⟨k, .row 0 place⟩).Faithful s place

namespace Supplied

theorem store? (h : g.Supplied s policy) : g.store? 0 = some s := by
  rw [Graph.store?, h.loader]
  rfl

/-- Nothing has been read of an open store. -/
theorem of_unmade (h : g.Unmade s policy) : g.Supplied s policy := by
  refine ⟨h.loader, h.present, fun k place => ?_⟩
  -- what has not been made reads as its row has it, with empty slots
  cases k with
  | methodDef =>
    intro r hr
    dsimp only
    rw [h.methodDef hr]
    exact ⟨rfl, rfl, nofun⟩
  | resource =>
    intro r hr
    have hread : g.get (⟨.row 0 place⟩ : ResourceId) =
        ⟨r.rid, .row 0 r.rid, r.offset, r.flags, s.string r.name, none, none⟩ :=
      h.get (by simp [Recorded.ofRow?, hr])
    dsimp only
    rw [hread]
    exact ⟨rfl, rfl, nofun, nofun⟩
  | _ => trivial

/-- Consulting fills other slots. -/
theorem consulted (h : g.Supplied s policy) (k : g.Consulted g') : g'.Supplied s policy where
  loader := (k.loader 0).trans h.loader
  rows kind place := (k.rows kind 0 place).trans (h.rows kind place)
  faithful kind place := by
    have hfilled := k.filled (n := ⟨kind, .row 0 place⟩)
    have hfaithful := h.faithful kind place
    cases kind with
    | methodDef =>
      -- a method is the same but for its signature
      have hsame := Recorded.pack_inj (hfilled nofun)
      have horigin := congrArg MethodDef.origin hsame
      have hrva := congrArg MethodDef.rva hsame
      have hbody := congrArg MethodDef.body hsame
      intro r hr
      obtain ⟨ho, ha, hb⟩ := hfaithful r hr
      exact ⟨horigin.trans ho, hrva.trans ha, fun b hb' => hb b (hbody ▸ hb')⟩
    | resource =>
      have hsame : g'.entity ⟨.resource, .row 0 place⟩ = g.entity ⟨.resource, .row 0 place⟩ :=
        hfilled nofun
      rw [hsame]
      exact hfaithful
    | _ => trivial

/-- Something that the store says is written down. -/
theorem put {k : Kind} {ρ : Type} [Recorded k ρ] [Recorded.Lawful k] (h : g.Supplied s policy)
    (hk : k ≠ .module) {e : ρ} (hrow : (s.row? k.table place).isSome)
    (he : (Recorded.pack k e).Faithful s place) :
    (g.put (⟨.row 0 place⟩ : Id k) e).Supplied s policy where
  loader := (loader?_put hk _ e 0).trans h.loader
  rows kind place' := (present_put (loader?_put hk _ e) ((h.rows k place).trans hrow) _).trans
    (h.rows kind place')
  faithful := forall_entity_put hk he h.faithful

theorem consultable : Consultable s policy (Supplied s policy) := ⟨loader, rows, consulted⟩

/-! ## Bodies -/

section Bodies

variable {r : MethodDefRow}

/-- What is known of a method. -/
theorem methodDef (h : g.Supplied s policy) (hr : Store.nth s.methodDefs place = some r) :
    let e := g.get (⟨.row 0 place⟩ : MethodDefId)
    e.origin = .row 0 r.rid ∧ e.rva = r.rva ∧ ∀ b ∈ e.body, b = s.bodyOf r :=
  h.faithful .methodDef place r hr

theorem row?_methodDef (s : Store) (place : Nat) :
    (s.row? .methodDef place).isSome = (Store.nth s.methodDefs place).isSome := by
  rw [Store.row?, Store.rows.eq_def, Store.nth_map, Option.isSome_map]

/-- The body slot of a method is filled with its body, or emptied. -/
theorem putBody (h : g.Supplied s policy) (hr : Store.nth s.methodDefs place = some r)
    {v : Slot (Option MethodBody)} (hv : ∀ b ∈ v, b = s.bodyOf r) :
    (g.update (⟨.row 0 place⟩ : MethodDefId) fun e => { e with body := v }).Supplied s policy := by
  obtain ⟨horigin, hrva, -⟩ := h.methodDef hr
  refine h.put (by decide) ((row?_methodDef s place).trans (congrArg Option.isSome hr))
    fun r' hr' => ?_
  obtain rfl := Option.some.inj (hr.symm.trans hr')
  exact ⟨horigin, hrva, hv⟩

/-- **A method reads as having the body at the address of its row.** -/
theorem body_yields (hr : Store.nth s.methodDefs place = some r) :
    Yields (Supplied s policy) (MethodDefId.body ⟨.row 0 place⟩) (s.bodyOf r) := by
  -- the body is looked up by the address that the entity has, which is that of its row
  refine consultable.readSlot_yields (fun h => (h.methodDef hr).1) (fun h => (h.methodDef hr).2.2)
    (fun {g} h hempty => ⟨g, ?_, h, hempty⟩) fun h => h.putBody hr ?_
  · rw [run_get_bind, (h.methodDef hr).2.1, h.store?]
    rfl
  · rintro _ ⟨⟩
    rfl

/-- So it does again after its body has been forgotten. -/
theorem freeBody_yields (hr : Store.nth s.methodDefs place = some r) :
    Yields (Supplied s policy) (MethodDefId.freeBody ⟨.row 0 place⟩) () :=
  fun _ h => ⟨rfl, h.putBody hr nofun⟩

end Bodies

/-! ## Implementations and bytes -/

section Resources

variable {r : ResourceRow}

/-- What is known of a resource. -/
theorem resource (h : g.Supplied s policy) (hr : Store.nth s.resources place = some r) :
    let e := g.get (⟨.row 0 place⟩ : ResourceId)
    e.origin = .row 0 r.rid ∧ e.offset = r.offset ∧
      (∀ i ∈ e.implementation, i = s.implementationOf r.rid) ∧
        ∀ d ∈ e.data, d = s.resource? r.offset :=
  h.faithful .resource place r hr

theorem row?_resource (s : Store) (place : Nat) :
    (s.row? .manifestResource place).isSome = (Store.nth s.resources place).isSome := by
  rw [Store.row?, Store.rows.eq_def, Store.nth_map, Option.isSome_map]

/-- The slots of a resource are filled with its implementation and its bytes. -/
theorem putResource (h : g.Supplied s policy) (hr : Store.nth s.resources place = some r)
    {i : Slot (Option Implementation)} {d : Slot (Option (List UInt8))}
    (hi : ∀ v ∈ i, v = s.implementationOf r.rid) (hd : ∀ v ∈ d, v = s.resource? r.offset) :
    (g.update (⟨.row 0 place⟩ : ResourceId) fun e =>
      { e with implementation := i, data := d }).Supplied s policy := by
  obtain ⟨horigin, hoffset, -⟩ := h.resource hr
  refine h.put (by decide) ((row?_resource s place).trans (congrArg Option.isSome hr))
    fun r' hr' => ?_
  obtain rfl := Option.some.inj (hr.symm.trans hr')
  exact ⟨horigin, hoffset, hi, hd⟩

/-- What a row that is referred to stands for is told by the rows. -/
theorem fromStores_row {k : Kind} {x : GraphM (Option (Id k))} (h : g.Supplied s policy)
    (hx : g.FromStores x (if g.present ⟨k, .row 0 place⟩ then some ⟨.row 0 place⟩ else none))
    (make : Id k → Implementation) :
    g.FromStores (do return (← x).map make)
      (if (s.row? k.table place).isSome then some (make ⟨.row 0 place⟩) else none) := by
  have hmapped := hx.bind (f := fun found => Pure.pure (found.map make)) (.pure _)
  rw [h.rows k place] at hmapped
  cases hrow : (s.row? k.table place).isSome <;> simpa [hrow] using hmapped

/-- What an index refers to is told by the rows. -/
theorem fromStores_implementation (h : g.Supplied s policy) (index : CodedIndex) :
    g.FromStores (implementation 0 index) (s.implementation? index) := by
  obtain ⟨tag, row⟩ := index
  unfold implementation Store.implementation?
  by_cases hvalid : (⟨tag, row⟩ : CodedIndex).validFor .implementation
  · simp only [hvalid, if_true, true_and]
    cases tag with
    | file => exact h.fromStores_row (fromStores_sharedWithAttributes (by decide) _ 0 row) .file
    | assemblyRef =>
      exact h.fromStores_row (fromStores_sharedWithAttributes (by decide) _ 0 row) .assemblyRef
    | exportedType => exact h.fromStores_row (fromStores_shared 0 row) .exportedType
    | _ =>
      rw [ite_self]
      exact .pure none
  · simp only [hvalid, Bool.false_eq_true, false_and, if_false]
    exact .pure none

/-- What the row with a number refers to. -/
theorem fromStores_implementationOf (h : g.Supplied s policy) (rid : Nat) :
    g.FromStores (do
      match ← rowAt (·.resources) 0 rid with
      | none => return none
      | some row => implementation 0 row.implementation) (s.implementationOf rid) := by
  refine (fromStores_rowAt (·.resources) 0 rid).bind ?_
  rw [h.store?, Option.bind_some, Store.implementationOf]
  cases Store.nth s.resources rid with
  | none => exact .pure none
  | some row => exact h.fromStores_implementation row.implementation

/-- **A resource reads as being kept where the row with its number says**, if that is there. -/
theorem implementation_yields (hr : Store.nth s.resources place = some r) :
    Yields (Supplied s policy) (ResourceId.implementation ⟨.row 0 place⟩)
      (s.implementationOf r.rid) := by
  let m : ResourceId := ⟨.row 0 place⟩
  refine consultable.readSlot_yields (fun h => (h.resource hr).1) (fun h => (h.resource hr).2.2.1)
    (fun {g} h hempty => ?_) fun h => h.putResource hr ?_ (h.resource hr).2.2.2
  · have htold := h.fromStores_implementationOf r.rid
    -- the slot is still empty when its value has been computed
    have hsame : _ = g.get m :=
      Recorded.pack_inj (k := .resource) (htold.quiet.entity (n := m.node) nofun)
    exact ⟨_, Prod.ext htold.value rfl, h.consulted (.of_quiet htold.quiet),
      (congrArg Resource.implementation hsame).trans hempty⟩
  · rintro _ ⟨⟩
    rfl

/-- **A resource reads as having the bytes at the offset of its row**, unless it is kept
elsewhere. -/
theorem data_yields (hr : Store.nth s.resources place = some r) :
    Yields (Supplied s policy) (ResourceId.data ⟨.row 0 place⟩) (s.dataOf r) := by
  refine (implementation_yields hr).bind ?_
  rw [Store.dataOf]
  cases s.implementationOf r.rid with
  | some i => exact .pure none
  | none =>
    refine consultable.readSlot_yields (fun h => (h.resource hr).1) (fun h => (h.resource hr).2.2.2)
      (fun {g} h hempty => ⟨g, ?_, h, hempty⟩) fun h => h.putResource hr (h.resource hr).2.2.1 ?_
    · rw [run_get_bind, (h.resource hr).2.1, h.store?]
      rfl
    · rintro _ ⟨⟩
      rfl

end Resources

/-! ## Contents of rows -/

theorem bodyAt_yields (place : Nat) : Yields (Supplied s policy) (ModuleId.bodyAt ⟨.built 0⟩ place)
    (Store.told .methodDef s.methodDefs place s.bodyOf) :=
  consultable.rowRead_yields (row?_methodDef s place) body_yields

theorem freeBodyAt_yields (place : Nat) :
    Yields (Supplied s policy) (ModuleId.freeBodyAt ⟨.built 0⟩ place)
      (Store.told .methodDef s.methodDefs place fun _ => ()) :=
  consultable.rowRead_yields (row?_methodDef s place) freeBody_yields

theorem implementationAt_yields (place : Nat) :
    Yields (Supplied s policy) (ModuleId.implementationAt ⟨.built 0⟩ place)
      (Store.told .manifestResource s.resources place fun r => s.implementationOf r.rid) :=
  consultable.rowRead_yields (row?_resource s place) implementation_yields

theorem dataAt_yields (place : Nat) : Yields (Supplied s policy) (ModuleId.dataAt ⟨.built 0⟩ place)
    (Store.told .manifestResource s.resources place s.dataOf) :=
  consultable.rowRead_yields (row?_resource s place) data_yields

end Supplied
end Graph

/-! ## Reading a store that has been opened -/

namespace Store

variable {s : Store} {policy : InitPolicy} {g : Graph} {place : Nat}

/-- **The graphs of a store that is opened and read**, in any order. -/
inductive Drawn (s : Store) (policy : InitPolicy) : Graph → Prop
  | openModule (hmodule : s.moduleRow?.isSome) :
    Drawn s policy ((CliMetadata.openModule s policy).run .empty).2
  | openAssembly (hmodule : s.moduleRow?.isSome) (hassembly : s.assemblyRow?.isSome) :
    Drawn s policy ((CliMetadata.openAssembly s policy).run .empty).2
  | consulted {g g' : Graph} (h : Drawn s policy g) (k : g.Consulted g') : Drawn s policy g'
  | body {g : Graph} (h : Drawn s policy g) (rid : Nat) :
    Drawn s policy ((ModuleId.bodyAt ⟨.built 0⟩ rid).run g).2
  | freeBody {g : Graph} (h : Drawn s policy g) (rid : Nat) :
    Drawn s policy ((ModuleId.freeBodyAt ⟨.built 0⟩ rid).run g).2
  | implementation {g : Graph} (h : Drawn s policy g) (rid : Nat) :
    Drawn s policy ((ModuleId.implementationAt ⟨.built 0⟩ rid).run g).2
  | data {g : Graph} (h : Drawn s policy g) (rid : Nat) :
    Drawn s policy ((ModuleId.dataAt ⟨.built 0⟩ rid).run g).2

/-- **Everything that is held in such a graph is what the store says.** -/
theorem Drawn.supplied (h : s.Drawn policy g) : g.Supplied s policy := by
  induction h with
  | openModule hmodule => exact .of_unmade (.openModule hmodule)
  | openAssembly hmodule hassembly => exact .of_unmade (.openAssembly hmodule hassembly)
  | consulted _ k ih => exact ih.consulted k
  | body _ rid ih => exact (Supplied.bodyAt_yields rid _ ih).2
  | freeBody _ rid ih => exact (Supplied.freeBodyAt_yields rid _ ih).2
  | implementation _ rid ih => exact (Supplied.implementationAt_yields rid _ ih).2
  | data _ rid ih => exact (Supplied.dataAt_yields rid _ ih).2

/-- The body of a method, whenever it is read. -/
theorem Drawn.bodyAt_row (h : s.Drawn policy g) {r : MethodDefRow}
    (hr : nth s.methodDefs place = some r) :
    ((ModuleId.bodyAt ⟨.built 0⟩ place).run g).1 = .ok (s.bodyOf r) := by
  rw [(Supplied.bodyAt_yields place g h.supplied).1, told, hr]

/-- The bytes of a resource, whenever they are read. -/
theorem Drawn.dataAt_row (h : s.Drawn policy g) {r : ResourceRow}
    (hr : nth s.resources place = some r) :
    ((ModuleId.dataAt ⟨.built 0⟩ place).run g).1 = .ok (s.dataOf r) := by
  rw [(Supplied.dataAt_yields place g h.supplied).1, told, hr]

/-! ## Linked resources -/

/-- **The resource with a number is kept elsewhere**: its implementation is of a table that it may be
of, and is there. -/
def Linked (s : Store) (rid : Nat) : Prop :=
  ∃ r, nth s.resources rid = some r ∧ r.implementation.validFor .implementation ∧
    (s.row? r.implementation.tag r.implementation.row).isSome

/-- An index that may be an implementation refers to one if it refers to a row. -/
theorem implementation?_isSome (s : Store) (index : CodedIndex) : (s.implementation? index).isSome ↔
    index.validFor .implementation ∧ (s.row? index.tag index.row).isSome := by
  obtain ⟨tag, row⟩ := index
  unfold implementation?
  split
  · next hrow =>
    refine iff_of_true ?_ hrow
    obtain ⟨hvalid, -⟩ := hrow
    cases tag with
    | file | assemblyRef | exportedType => rfl
    | _ => simp [CodedIndex.validFor, CodedKind.tables] at hvalid
  · next hrow => exact iff_of_false nofun hrow

theorem implementationOf_isSome (s : Store) (rid : Nat) :
    (s.implementationOf rid).isSome ↔ s.Linked rid := by
  unfold implementationOf Linked
  cases nth s.resources rid with
  | none => simp
  | some r => simp [implementation?_isSome]

/-- **A resource has the bytes at the offset of its row exactly if the implementation of the row
with its number is not there.** -/
theorem linked_data (h : s.Drawn policy g) {r : ResourceRow} (hr : nth s.resources place = some r) :
    let data := ((ModuleId.dataAt ⟨.built 0⟩ place).run g).1
    (s.Linked r.rid → data = .ok none) ∧ (¬ s.Linked r.rid → data = .ok (s.resource? r.offset)) ∧
      (data = .ok none ↔ s.Linked r.rid ∨ s.resource? r.offset = none) := by
  intro data
  have hdata : data = .ok (s.dataOf r) := h.dataAt_row hr
  rw [hdata, ← implementationOf_isSome, dataOf]
  cases s.implementationOf r.rid with
  | none => simp
  | some i => simp

/-- A module with a resource of its own, and one that is linked to a file. -/
def fileLinked : Store := ((calls [.module "M", .embeddedResource "a" 1 [1, 2, 3], .file "f" 0,
  .linkedResource "b" 1 (Token.ofParts .file 1)]).run empty).2

/-- The one has its bytes, and the other has none. -/
theorem linked_data_file :
    let g := ((openModule fileLinked .perEntityLock).run .empty).2
    ((ModuleId.dataAt ⟨.built 0⟩ 1).run g).1 = .ok (some [1, 2, 3]) ∧
      ((ModuleId.dataAt ⟨.built 0⟩ 2).run g).1 = .ok none := by
  intro g
  have hg : fileLinked.Drawn .perEntityLock g := .openModule (by decide +kernel)
  obtain ⟨r, hr, hown, hoffset⟩ : ∃ r, nth fileLinked.resources 1 = some r ∧
      (fileLinked.implementationOf r.rid).isSome = false ∧
        fileLinked.resource? r.offset = some [1, 2, 3] :=
    ⟨_, rfl, by decide +kernel, by decide +kernel⟩
  obtain ⟨r', hr', hfile⟩ : ∃ r, nth fileLinked.resources 2 = some r ∧
      (fileLinked.implementationOf r.rid).isSome := ⟨_, rfl, by decide +kernel⟩
  refine ⟨?_, (linked_data hg hr').1 ((implementationOf_isSome _ _).mp hfile)⟩
  rw [(linked_data hg hr).2.1 (by rw [← implementationOf_isSome, hown]; decide), hoffset]

/-- A module with a resource of its own, and one that is linked to a file that is not there. -/
def fileMissing : Store := ((calls [.module "M", .embeddedResource "a" 1 [1, 2, 3],
  .linkedResource "b" 1 (Token.ofParts .file 1)]).run empty).2

/-- **An implementation that is not null but refers to no row counts as none**: the resource has the
bytes of the first one that is embedded. -/
theorem data_dangling :
    let g := ((openModule fileMissing .perEntityLock).run .empty).2
    ∃ r, nth fileMissing.resources 2 = some r ∧ r.rid = 2 ∧ r.implementation = ⟨.file, 1⟩ ∧
      ((ModuleId.dataAt ⟨.built 0⟩ 2).run g).1 = .ok (some [1, 2, 3]) := by
  intro g
  have hg : fileMissing.Drawn .perEntityLock g := .openModule (by decide +kernel)
  obtain ⟨r, hr, hrid, hfile, hdata⟩ : ∃ r, nth fileMissing.resources 2 = some r ∧ r.rid = 2 ∧
      r.implementation = ⟨.file, 1⟩ ∧ fileMissing.dataOf r = some [1, 2, 3] :=
    ⟨_, rfl, by decide +kernel, by decide +kernel, by decide +kernel⟩
  exact ⟨r, hr, hrid, hfile, by rw [hg.dataAt_row hr, hdata]⟩

/-! ## Stores that calls build -/

/-- The bytes of a resource that is embedded are its own: its implementation is null. -/
theorem Embeds.dataOf {offset : Nat} {data : List UInt8} (h : s.Embeds place offset data) :
    ∃ r, nth s.resources place = some r ∧ r.offset = offset ∧ s.dataOf r = some data := by
  obtain ⟨r, hr, rfl, hnull, hoffset⟩ := h.row
  have hown : ¬ (s.implementationOf r.rid).isSome := by
    rw [implementationOf_isSome]
    rintro ⟨r', hr', hvalid, -⟩
    obtain rfl := Option.some.inj (hr.symm.trans hr')
    rw [hnull] at hvalid
    cases hvalid
  exact ⟨r, hr, hoffset, by rw [Store.dataOf, if_neg hown, hoffset, h.bytes]⟩

/-- **What calls store is read back**, whatever they are and in whatever order, as long as addresses
last.  Each method has the body that it was last given after it was added, if any.  Each embedded
resource has its bytes, at an offset of its own, and each stored body is at an address of its
own. -/
theorem calls_contents (cs : List BuildCall) (hpush : ∀ c ∈ cs, ¬ c.IsPush)
    (hbody : empty.nextRva + (cs.map BuildCall.bodySpace).sum < UInt32.size)
    (hdata : empty.nextOffset + (cs.map BuildCall.dataSpace).sum < UInt32.size) :
    let s := ((calls cs).run empty).2
    (addedMethods 0 cs).map Prod.fst = List.range' 1 s.methodDefs.length ∧
      (s.bodies.map Prod.fst).Nodup ∧
      ((addedResources 0 cs).Pairwise fun a b => ∀ r r', nth s.resources a.1 = some r →
        nth s.resources b.1 = some r' → r.offset ≠ r'.offset) ∧
      ∀ policy g, s.Drawn policy g →
        (∀ e ∈ addedMethods 0 cs, ((ModuleId.bodyAt ⟨.built 0⟩ e.1).run g).1 = .ok e.2) ∧
          ∀ e ∈ addedResources 0 cs,
            ((ModuleId.dataAt ⟨.built 0⟩ e.1).run g).1 = .ok (some e.2) := by
  intro s
  have hs : empty.Settles cs s := addressed_empty.calls hpush hbody hdata
  refine ⟨?_, hs.addressed.bodies.nodup, ?_, fun policy g hg => ⟨fun e he => ?_, fun e he => ?_⟩⟩
  · rw [hs.methodCount, addedMethods_places]
    exact congrArg (List.range' 1) (Nat.zero_add _).symm
  · refine hs.apart.imp_of_mem fun {a b} ha hb hlt r r' hr hr' => Nat.ne_of_lt ?_
    obtain ⟨offset, -, hembeds⟩ := hs.resources a ha
    obtain ⟨offset', -, hembeds'⟩ := hs.resources b hb
    obtain ⟨_, hrow, rfl, -⟩ := hembeds.dataOf
    obtain ⟨_, hrow', rfl, -⟩ := hembeds'.dataOf
    obtain rfl := Option.some.inj (hr.symm.trans hrow)
    obtain rfl := Option.some.inj (hr'.symm.trans hrow')
    exact hlt _ _ hembeds hembeds'
  · obtain ⟨r, hr, hbody⟩ := hs.methods e he
    rw [hg.bodyAt_row hr, hbody]
  · obtain ⟨offset, -, hembeds⟩ := hs.resources e he
    obtain ⟨r, hr, -, hdata⟩ := hembeds.dataOf
    rw [hg.dataAt_row hr, hdata]

/-- A method that is given two bodies, one to which a body is given before it is added, and
resources on both sides of a linked one, the second of them without bytes. -/
def mixedCalls : List BuildCall :=
  let body (n : Nat) : MethodBody := ⟨n, true, Token.ofParts .standAloneSig 0, [0x00, 0x2a]⟩
  let type := Token.ofParts .typeDef 1
  let method := Token.ofParts .methodDef
  [.module "M", .typeDef "N" "T" 0 none, .method type "f" 0 0, .body (method 1) (body 1),
    .body (method 2) (body 2), .embeddedResource "a" 1 [1, 2, 3], .method type "g" 0 0,
    .linkedResource "b" 1 (Token.ofParts .file 1), .embeddedResource "c" 1 [],
    .body (method 1) (body 3)]

/-- What is read of them. -/
theorem calls_contents_mixed :
    let s := ((calls mixedCalls).run empty).2
    let g := ((openModule s .noLocking).run .empty).2
    ((ModuleId.bodyAt ⟨.built 0⟩ 1).run g).1 =
        .ok (some ⟨3, true, Token.ofParts .standAloneSig 0, [0x00, 0x2a]⟩) ∧
      ((ModuleId.bodyAt ⟨.built 0⟩ 2).run g).1 = .ok none ∧
      ((ModuleId.dataAt ⟨.built 0⟩ 1).run g).1 = .ok (some [1, 2, 3]) ∧
      ((ModuleId.dataAt ⟨.built 0⟩ 3).run g).1 = .ok (some []) := by
  intro s g
  have hpush : ∀ c ∈ mixedCalls, ¬ c.IsPush := by simp [mixedCalls, BuildCall.IsPush]
  have hg : s.Drawn .noLocking g := .openModule (by decide +kernel)
  obtain ⟨-, -, -, hread⟩ := calls_contents mixedCalls hpush (by decide +kernel) (by decide +kernel)
  obtain ⟨hbodies, hdata⟩ := hread .noLocking g hg
  exact ⟨hbodies (1, _) (by decide +kernel), hbodies (2, none) (by decide +kernel),
    hdata (1, _) (by decide +kernel), hdata (3, []) (by decide +kernel)⟩

end Store
end CliMetadata
