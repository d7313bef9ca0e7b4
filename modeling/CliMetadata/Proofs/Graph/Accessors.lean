import CliMetadata.Proofs.Graph.Contents
import CliMetadata.Proofs.Ownership.Links

/-!
# Getters and setters that are read from a store

A method gathers the roles of all rows that name it, and a property lists the method of each row that
is associated with it, under the first of its roles.  A store is opened, and roles and accessors are
read in any order, while anything else is done that leaves them alone (`Store.Accessed`).  **Every
slot that is filled then holds what the rows say** (`Graph.Accounted`), whenever it has been filled.

So a method and the properties say the same of getters, as long as the rows for getters and setters
name methods and properties that are there (`Store.Associated`).  They do not of setters, where one
row makes a method getter and setter: it is listed as a getter only.  **A method is listed as a setter
exactly if some row makes it a setter and no getter** (`Store.accessors_agree`).
-/

namespace CliMetadata

open CliMetadata.Graph Loading Stateful

/-! ## Roles -/

theorem Flags.has_or (a b mask : Flags) : has (a ||| b) mask = (has a mask || has b mask) := by
  have hmasked : (a ||| b) &&& mask = (a &&& mask) ||| (b &&& mask) :=
    UInt32.toBitVec_inj.mp BitVec.and_or_distrib_right
  rw [Bool.eq_iff_iff, Bool.or_eq_true]
  simp only [has, hmasked, bne_iff_ne, ne_eq, UInt32.or_eq_zero_iff]
  exact not_and_or

/-- The role of a setter that is not the one of a getter as well. -/
def Semantics.isOnlySetter (role : Flags) : Bool :=
  Flags.has role setter && !Flags.has role getter

namespace PropertyAccessors

theorem getters_insert (a : PropertyAccessors) (role : Flags) (m : MethodDefId) :
    (a.insert role m).getters =
      if Flags.has role Semantics.getter then a.getters ++ [m] else a.getters := by
  unfold insert
  by_cases hgetter : Flags.has role Semantics.getter
  · rw [if_pos hgetter, if_pos hgetter]
  · rw [if_neg hgetter, if_neg hgetter]
    split
    · rfl
    · split <;> rfl

theorem setters_insert (a : PropertyAccessors) (role : Flags) (m : MethodDefId) :
    (a.insert role m).setters =
      if Semantics.isOnlySetter role then a.setters ++ [m] else a.setters := by
  unfold insert Semantics.isOnlySetter
  by_cases hgetter : Flags.has role Semantics.getter
  · simp [hgetter]
  · by_cases hsetter : Flags.has role Semantics.setter
    · simp [hgetter, hsetter]
    · have honly : ¬ (Flags.has role Semantics.setter && !Flags.has role Semantics.getter) = true := by
        simp [hsetter]
      rw [if_neg hgetter, if_neg hsetter, if_neg honly]
      split <;> rfl

/-- **Which methods are listed**, where those of certain roles are. -/
theorem mem_foldl_insert {pick : PropertyAccessors → List MethodDefId} {plays : Flags → Bool}
    (hpick : ∀ a role m,
      pick (insert a role m) = if plays role then pick a ++ [m] else pick a)
    {m : MethodDefId} (roles : List (Flags × MethodDefId)) (a : PropertyAccessors) :
    m ∈ pick (roles.foldl (fun a (role, m) => a.insert role m) a) ↔
      m ∈ pick a ∨ ∃ role, (role, m) ∈ roles ∧ plays role = true := by
  induction roles generalizing a with
  | nil => simp
  | cons entry roles ih =>
    obtain ⟨role, m'⟩ := entry
    have hhead : m ∈ pick (insert a role m') ↔ m ∈ pick a ∨ m = m' ∧ plays role = true := by
      rw [hpick]
      split
      · next hrole => simp [hrole]
      · next hrole => simp [hrole]
    rw [List.foldl_cons, ih, hhead]
    grind

end PropertyAccessors

namespace Store

/-- Some row says of the method with a number that it has one of certain roles. -/
def Says (s : Store) (plays : Flags → Bool) (rid : Nat) : Prop :=
  ∃ r ∈ s.methodSemantics, r.method = rid ∧ plays r.semantics = true

instance (s : Store) (plays : Flags → Bool) (rid : Nat) : Decidable (s.Says plays rid) :=
  inferInstanceAs (Decidable (∃ r ∈ _, _))

/-- **A method has the roles that rows say it has.** -/
theorem has_storedSemantics (s : Store) (rid : Nat) (mask : Flags) :
    Flags.has (MethodDefId.storedSemantics s rid) mask = true ↔ s.Says (Flags.has · mask) rid := by
  have hfold : ∀ (rows : List MethodSemanticsRow) (roles : Flags),
      Flags.has (rows.foldl (fun roles r => if r.method = rid then roles ||| r.semantics else roles)
        roles) mask = true ↔
      Flags.has roles mask = true ∨
        ∃ r ∈ rows, r.method = rid ∧ Flags.has r.semantics mask = true := by
    -- on the rows, whatever roles have been gathered before
    intro rows
    induction rows with
    | nil => simp
    | cons r rows ih =>
      intro roles
      simp only [List.foldl_cons, ih, List.mem_cons, exists_eq_or_imp]
      split
      · next hrow => simp [hrow, Flags.has_or, or_assoc]
      · next hrow => simp [hrow]
  have hnone : ¬ Flags.has 0 mask = true := by simp [Flags.has]
  rw [MethodDefId.storedSemantics, hfold, or_iff_right hnone]
  rfl

/-- What a row at a place says of a method, if the method is there. -/
def accessor? (s : Store) (place : Nat) : Option (Flags × MethodDefId) :=
  (nth s.methodSemantics place).bind fun r =>
    if (s.row? .methodDef r.method).isSome then some (r.semantics, ⟨.row 0 r.method⟩) else none

/-- The methods that rows associate with a row. -/
def accessorsOf (s : Store) (association : Token) : List (Flags × MethodDefId) :=
  (s.children .methodSemantics association).filterMap s.accessor?

/-- The accessors of the property with a number. -/
def accessors (s : Store) (rid : Nat) : PropertyAccessors :=
  (s.accessorsOf (Token.ofParts .property rid)).foldl (fun a (role, m) => a.insert role m) default

end Store

/-! ## Graphs that hold what the rows say -/

/-- **An entity that holds the roles and the accessors that the rows say it has.** -/
def Entity.Accounts (s : Store) (place : Nat) : Entity → Prop
  | methodDef e => ∀ r, Store.nth s.methodDefs place = some r →
    e.origin = .row 0 r.rid ∧ ∀ v ∈ e.semantics, v = MethodDefId.storedSemantics s r.rid
  | property e => ∀ r, Store.nth s.properties place = some r →
    e.origin = .row 0 r.rid ∧ ∀ a ∈ e.accessors, a = s.accessors r.rid
  | _ => True

namespace ModuleId

/-- The roles of the method of a row. -/
def semanticsAt (m : ModuleId) (rid : Nat) : GraphM (Except Error Flags) :=
  m.rowRead (shared .methodDef) rid MethodDefId.semantics

/-- Whether the method of a row is a getter. -/
def isGetterAt (m : ModuleId) (rid : Nat) : GraphM (Except Error Bool) :=
  m.rowRead (shared .methodDef) rid MethodDefId.isGetter

/-- Whether the method of a row is a setter. -/
def isSetterAt (m : ModuleId) (rid : Nat) : GraphM (Except Error Bool) :=
  m.rowRead (shared .methodDef) rid MethodDefId.isSetter

/-- The accessors of the property of a row. -/
def accessorsAt (m : ModuleId) (rid : Nat) : GraphM (Except Error PropertyAccessors) :=
  m.rowRead (shared .property) rid PropertyId.accessors

end ModuleId

/-- Every member of a list is told by the stores, or that there is none for it. -/
theorem Graph.FromStores.collect {g : Graph} {ι β : Type} {f : ι → GraphM (Option β)}
    {φ : ι → Option β} (hf : ∀ i, g.FromStores (f i) (φ i)) :
    ∀ is : List ι, g.FromStores (collect f is) (is.filterMap φ)
  | [] => .pure _
  | i :: is => by
    rw [List.filterMap_cons]
    refine (hf i).bind ?_
    cases φ i with
    | none => exact collect hf is
    | some x => exact (collect hf is).bind (.pure _)

theorem fromStores_children (g : Graph) (loader : Nat) (relation : Relation) (owner : Token) :
    g.FromStores (children loader relation owner)
      (((g.store? loader).map fun s => s.children relation owner).getD []) := by
  intro g' h
  obtain ⟨hasked, hvalue⟩ := Graph.children_run g' loader relation owner
  rw [← h.store?]
  exact ⟨hvalue, .of_asked hasked⟩

namespace Graph

/-- **A step that leaves rows, roles and accessors as they are.** -/
structure Spares (g g' : Graph) : Prop where
  loader : g'.loader? 0 = g.loader? 0
  rows : ∀ k place, g'.present ⟨k, .row 0 place⟩ = g.present ⟨k, .row 0 place⟩
  methodDef : ∀ place, let m : MethodDefId := ⟨.row 0 place⟩
    (g'.get m).origin = (g.get m).origin ∧ (g'.get m).semantics = (g.get m).semantics
  property : ∀ place, let p : PropertyId := ⟨.row 0 place⟩
    (g'.get p).origin = (g.get p).origin ∧ (g'.get p).accessors = (g.get p).accessors

/-- Consulting fills other slots. -/
theorem Consulted.spares {g g' : Graph} (h : g.Consulted g') : g.Spares g' where
  loader := h.loader 0
  rows k place := h.rows k 0 place
  methodDef place := by
    -- a method is the same but for its signature
    have hsame := Recorded.pack_inj (h.filled (n := ⟨.methodDef, .row 0 place⟩) nofun)
    have horigin := congrArg MethodDef.origin hsame
    have hsemantics := congrArg MethodDef.semantics hsame
    exact ⟨horigin, hsemantics⟩
  property place := by
    have hsame := Recorded.pack_inj (k := .property)
      (h.filled (n := ⟨.property, .row 0 place⟩) nofun)
    have horigin := congrArg Property.origin hsame
    have haccessors := congrArg Property.accessors hsame
    exact ⟨horigin, haccessors⟩

/-- **A graph of an open store in which roles and accessors are what the rows say.** -/
structure Accounted (s : Store) (policy : InitPolicy) (g : Graph) : Prop where
  loader : g.loader? 0 = some ⟨s, policy⟩
  rows : ∀ k place, g.present ⟨k, .row 0 place⟩ = (s.row? k.table place).isSome
  accounts : ∀ k place, (g.entity ⟨k, .row 0 place⟩).Accounts s place

namespace Accounted

variable {s : Store} {policy : InitPolicy} {g g' : Graph} {place : Nat}

/-- Nothing has been read of an open store. -/
theorem of_unmade (h : g.Unmade s policy) : g.Accounted s policy := by
  refine ⟨h.loader, h.present, fun k place => ?_⟩
  -- what has not been made reads as its row has it, with empty slots
  cases k with
  | methodDef =>
    intro r hr
    dsimp only
    rw [h.methodDef hr]
    exact ⟨rfl, nofun⟩
  | property =>
    intro r hr
    have hread : g.get (⟨.row 0 place⟩ : PropertyId) =
        ⟨r.rid, .row 0 r.rid, r.flags, s.string r.name, none, none, none⟩ :=
      h.get (by simp [Recorded.ofRow?, hr])
    dsimp only
    rw [hread]
    exact ⟨rfl, nofun⟩
  | _ => trivial

theorem spared (h : g.Accounted s policy) (k : g.Spares g') : g'.Accounted s policy where
  loader := k.loader.trans h.loader
  rows kind place := (k.rows kind place).trans (h.rows kind place)
  accounts kind place := by
    have haccounts := h.accounts kind place
    cases kind with
    | methodDef =>
      obtain ⟨horigin, hsemantics⟩ := k.methodDef place
      intro r hr
      obtain ⟨ho, hv⟩ := haccounts r hr
      exact ⟨horigin.trans ho, fun v hv' => hv v (hsemantics ▸ hv')⟩
    | property =>
      obtain ⟨horigin, haccessors⟩ := k.property place
      intro r hr
      obtain ⟨ho, ha⟩ := haccounts r hr
      exact ⟨horigin.trans ho, fun a ha' => ha a (haccessors ▸ ha')⟩
    | _ => trivial

theorem consultable : Consultable s policy (Accounted s policy) :=
  ⟨loader, rows, fun h k => h.spared k.spares⟩

/-- Something that the rows say is written down. -/
theorem put {k : Kind} {ρ : Type} [Recorded k ρ] [Recorded.Lawful k] (h : g.Accounted s policy)
    (hk : k ≠ .module) {e : ρ} (hrow : (s.row? k.table place).isSome)
    (he : (Recorded.pack k e).Accounts s place) :
    (g.put (⟨.row 0 place⟩ : Id k) e).Accounted s policy where
  loader := (loader?_put hk _ e 0).trans h.loader
  rows kind place' := (present_put (loader?_put hk _ e) ((h.rows k place).trans hrow) _).trans
    (h.rows kind place')
  accounts := forall_entity_put hk he h.accounts

/-! ### Roles -/

section Roles

variable {r : MethodDefRow}

/-- What is known of a method. -/
theorem methodDef (h : g.Accounted s policy) (hr : Store.nth s.methodDefs place = some r) :
    let e := g.get (⟨.row 0 place⟩ : MethodDefId)
    e.origin = .row 0 r.rid ∧ ∀ v ∈ e.semantics, v = MethodDefId.storedSemantics s r.rid :=
  h.accounts .methodDef place r hr

/-- **A method reads as having the roles that the rows say it has.** -/
theorem semantics_yields (hr : Store.nth s.methodDefs place = some r) :
    Yields (Accounted s policy) (MethodDefId.semantics ⟨.row 0 place⟩)
      (MethodDefId.storedSemantics s r.rid) := by
  refine consultable.readSlot_yields (fun h => (h.methodDef hr).1) (fun h => (h.methodDef hr).2)
    (fun {g} h hempty => ⟨g, ?_, h, hempty⟩) fun {g} h => ?_
  · rw [run_get_bind, consultable.store? h]
    rfl
  · refine h.put (by decide) ((Supplied.row?_methodDef s place).trans (congrArg Option.isSome hr))
      fun r' hr' => ?_
    obtain rfl := Option.some.inj (hr.symm.trans hr')
    refine ⟨(h.methodDef hr).1, ?_⟩
    rintro _ ⟨⟩
    rfl

theorem isGetter_yields (hr : Store.nth s.methodDefs place = some r) :
    Yields (Accounted s policy) (MethodDefId.isGetter ⟨.row 0 place⟩)
      (Flags.has (MethodDefId.storedSemantics s r.rid) Semantics.getter) :=
  (semantics_yields hr).bind (.pure _)

theorem isSetter_yields (hr : Store.nth s.methodDefs place = some r) :
    Yields (Accounted s policy) (MethodDefId.isSetter ⟨.row 0 place⟩)
      (Flags.has (MethodDefId.storedSemantics s r.rid) Semantics.setter) :=
  (semantics_yields hr).bind (.pure _)

end Roles

/-! ### Accessors -/

section Accessors

variable {r : PropertyRow}

/-- What is known of a property. -/
theorem property (h : g.Accounted s policy) (hr : Store.nth s.properties place = some r) :
    let e := g.get (⟨.row 0 place⟩ : PropertyId)
    e.origin = .row 0 r.rid ∧ ∀ a ∈ e.accessors, a = s.accessors r.rid :=
  h.accounts .property place r hr

theorem row?_property (s : Store) (place : Nat) :
    (s.row? .property place).isSome = (Store.nth s.properties place).isSome := by
  rw [Store.row?, Store.rows.eq_def, Store.nth_map, Option.isSome_map]

/-- What the rows associate with a row is told by them. -/
theorem fromStores_accessorsOf (h : g.Accounted s policy) (association : Token) :
    g.FromStores (CliMetadata.accessorsOf 0 association) (s.accessorsOf association) := by
  have hstore : g.store? 0 = some s := consultable.store? h
  have hchildren := fromStores_children g 0 .methodSemantics association
  rw [hstore, Option.map_some, Option.getD_some] at hchildren
  refine hchildren.bind (.collect (fun place => ?_) _)
  refine (fromStores_rowAt (·.methodSemantics) 0 place).bind ?_
  rw [hstore, Option.bind_some, Store.accessor?]
  cases Store.nth s.methodSemantics place with
  | none => exact .pure _
  | some r =>
    refine (consultable.fromStores_shared (k := .methodDef) h r.method).bind ?_
    rw [show Kind.methodDef.table = TableId.methodDef from rfl, Option.bind_some]
    cases (s.row? .methodDef r.method).isSome
    · exact .pure _
    · exact .pure _

/-- **A property reads as having the accessors that the rows say it has.** -/
theorem accessors_yields (hr : Store.nth s.properties place = some r) :
    Yields (Accounted s policy) (PropertyId.accessors ⟨.row 0 place⟩) (s.accessors r.rid) := by
  let p : PropertyId := ⟨.row 0 place⟩
  refine consultable.readSlot_yields (fun h => (h.property hr).1) (fun h => (h.property hr).2)
    (fun {g} h hempty => ?_) fun {g} h => ?_
  · have htold := (h.fromStores_accessorsOf (Token.ofParts .property r.rid)).bind
      (f := fun roles => Pure.pure
        (roles.foldl (fun a (role, m) => a.insert role m) (default : PropertyAccessors))) (.pure _)
    -- the slot is still empty when its value has been computed
    have hsame : _ = g.get p :=
      Recorded.pack_inj (k := .property) (htold.quiet.entity (n := p.node) nofun)
    exact ⟨_, Prod.ext htold.value rfl, consultable.consulted h (.of_quiet htold.quiet),
      (congrArg Property.accessors hsame).trans hempty⟩
  · refine h.put (by decide) ((row?_property s place).trans (congrArg Option.isSome hr))
      fun r' hr' => ?_
    obtain rfl := Option.some.inj (hr.symm.trans hr')
    refine ⟨(h.property hr).1, ?_⟩
    rintro _ ⟨⟩
    rfl

end Accessors

/-! ### Rows -/

theorem semanticsAt_yields (place : Nat) :
    Yields (Accounted s policy) (ModuleId.semanticsAt ⟨.built 0⟩ place)
      (Store.told .methodDef s.methodDefs place fun r => MethodDefId.storedSemantics s r.rid) :=
  consultable.rowRead_yields (Supplied.row?_methodDef s place) semantics_yields

theorem isGetterAt_yields (place : Nat) :
    Yields (Accounted s policy) (ModuleId.isGetterAt ⟨.built 0⟩ place)
      (Store.told .methodDef s.methodDefs place fun r =>
        Flags.has (MethodDefId.storedSemantics s r.rid) Semantics.getter) :=
  consultable.rowRead_yields (Supplied.row?_methodDef s place) isGetter_yields

theorem isSetterAt_yields (place : Nat) :
    Yields (Accounted s policy) (ModuleId.isSetterAt ⟨.built 0⟩ place)
      (Store.told .methodDef s.methodDefs place fun r =>
        Flags.has (MethodDefId.storedSemantics s r.rid) Semantics.setter) :=
  consultable.rowRead_yields (Supplied.row?_methodDef s place) isSetter_yields

theorem accessorsAt_yields (place : Nat) :
    Yields (Accounted s policy) (ModuleId.accessorsAt ⟨.built 0⟩ place)
      (Store.told .property s.properties place fun r => s.accessors r.rid) :=
  consultable.rowRead_yields (row?_property s place) accessors_yields

end Accounted
end Graph

/-! ## Reading a store that has been opened -/

/-- Some property of a module has a method among its accessors of a sort. -/
def ModuleId.Lists (g : Graph) (mod : ModuleId) (pick : PropertyAccessors → List MethodDefId)
    (m : MethodDefId) : Prop :=
  ∃ rid a, ((mod.accessorsAt rid).run g).1 = .ok a ∧ m ∈ pick a

namespace Store

/-- **The graphs of a store that is opened and of which roles and accessors are read**, in any order,
while anything is done that leaves them alone. -/
inductive Accessed (s : Store) (policy : InitPolicy) : Graph → Prop
  | openModule (hmodule : s.moduleRow?.isSome) :
    Accessed s policy ((CliMetadata.openModule s policy).run .empty).2
  | openAssembly (hmodule : s.moduleRow?.isSome) (hassembly : s.assemblyRow?.isSome) :
    Accessed s policy ((CliMetadata.openAssembly s policy).run .empty).2
  | spared {g g' : Graph} (h : Accessed s policy g) (k : g.Spares g') : Accessed s policy g'
  | semantics {g : Graph} (h : Accessed s policy g) (rid : Nat) :
    Accessed s policy ((ModuleId.semanticsAt ⟨.built 0⟩ rid).run g).2
  | accessors {g : Graph} (h : Accessed s policy g) (rid : Nat) :
    Accessed s policy ((ModuleId.accessorsAt ⟨.built 0⟩ rid).run g).2

section Reading

variable {s : Store} {policy : InitPolicy} {g g' : Graph} {place : Nat}
  {pick : PropertyAccessors → List MethodDefId} {plays : Flags → Bool}

/-- **Everything that is held in such a graph is what the rows say.** -/
theorem Accessed.accounted (h : s.Accessed policy g) : g.Accounted s policy := by
  induction h with
  | openModule hmodule => exact .of_unmade (.openModule hmodule)
  | openAssembly hmodule hassembly => exact .of_unmade (.openAssembly hmodule hassembly)
  | spared _ k ih => exact ih.spared k
  | semantics _ rid ih => exact (Accounted.semanticsAt_yields rid _ ih).2
  | accessors _ rid ih => exact (Accounted.accessorsAt_yields rid _ ih).2

theorem Accessed.lists_iff (h : s.Accessed policy g) {m : MethodDefId} :
    ModuleId.Lists g ⟨.built 0⟩ pick m ↔ ∃ r ∈ s.properties, m ∈ pick (s.accessors r.rid) := by
  constructor
  · rintro ⟨place, a, ha, hm⟩
    rw [(Accounted.accessorsAt_yields place g h.accounted).1, told] at ha
    cases hr : nth s.properties place with
    | none => simp [hr] at ha
    | some r =>
      rw [hr] at ha
      cases ha
      exact ⟨r, nth_mem hr, hm⟩
  · rintro ⟨r, hr, hm⟩
    obtain ⟨place, hplace⟩ := exists_nth hr
    refine ⟨place, _, ?_, hm⟩
    rw [(Accounted.accessorsAt_yields place g h.accounted).1, told, hplace]

/-! ## Rows that name what is there -/

/-- **Rows for getters and setters that name properties and methods that are there.** -/
structure Associated (s : Store) : Prop where
  property : ∀ r ∈ s.methodSemantics,
    Flags.has r.semantics Semantics.getter ∨ Flags.has r.semantics Semantics.setter →
      r.association.tag = .property ∧ (s.row? .property r.association.row).isSome
  method : ∀ r ∈ s.methodSemantics,
    Flags.has r.semantics Semantics.getter ∨ Flags.has r.semantics Semantics.setter →
      (s.row? .methodDef r.method).isSome

/-- What is associated with a row is said of the method. -/
theorem exists_of_mem_accessorsOf {association : Token} {role : Flags}
    (h : (role, ⟨.row 0 place⟩) ∈ s.accessorsOf association) :
    ∃ r ∈ s.methodSemantics, r.method = place ∧ r.semantics = role := by
  obtain ⟨q, -, hq⟩ := List.mem_filterMap.mp h
  obtain ⟨r, hr, hrole⟩ := Option.bind_eq_some_iff.mp hq
  split at hrole
  · cases hrole
    exact ⟨r, nth_mem hr, rfl, rfl⟩
  · cases hrole

/-- A row associates the method that it names, if that is there. -/
theorem Numbered.mem_accessorsOf (hn : s.Numbered) {r : MethodSemanticsRow}
    (hr : r ∈ s.methodSemantics) (hmethod : (s.row? .methodDef r.method).isSome) :
    (r.semantics, ⟨.row 0 r.method⟩) ∈ s.accessorsOf r.association.token := by
  obtain ⟨q, hq⟩ := exists_nth hr
  have hrid : r.rid = q :=
    hn.rid (show s.rows .methodSemantics = s.methodSemantics.map .methodSemantics from rfl) hq
  refine List.mem_filterMap.mpr ⟨q, ?_, ?_⟩
  · exact List.mem_map.mpr ⟨r, List.mem_filter.mpr ⟨hr, beq_self_eq_true _⟩, hrid⟩
  · rw [accessor?, hq, Option.bind_some, if_pos hmethod]

/-- **A method is listed by some property exactly if some row gives it a role under which methods are
listed.** -/
theorem Accessed.lists_iff_said (h : s.Accessed policy g) (hn : s.Numbered)
    (hpick : ∀ a role m,
      pick (a.insert role m) = if plays role then pick a ++ [m] else pick a)
    (hnone : pick default = [])
    (hproperty : ∀ r ∈ s.methodSemantics, plays r.semantics →
      r.association.tag = .property ∧ (s.row? .property r.association.row).isSome)
    (hmethod : ∀ r ∈ s.methodSemantics, plays r.semantics → (s.row? .methodDef r.method).isSome) :
    ModuleId.Lists g ⟨.built 0⟩ pick ⟨.row 0 place⟩ ↔ s.Says plays place := by
  have hmem : ∀ rid, (⟨.row 0 place⟩ : MethodDefId) ∈ pick (s.accessors rid) ↔
      ∃ role, (role, ⟨.row 0 place⟩) ∈ s.accessorsOf (Token.ofParts .property rid) ∧
        plays role = true := by
    intro rid
    rw [Store.accessors, PropertyAccessors.mem_foldl_insert hpick, hnone]
    simp
  simp only [h.lists_iff, hmem]
  constructor
  · rintro ⟨p, -, role, hrole, hplays⟩
    obtain ⟨r, hr, hplace, rfl⟩ := exists_of_mem_accessorsOf hrole
    exact ⟨r, hr, hplace, hplays⟩
  · rintro ⟨r, hr, rfl, hplays⟩
    obtain ⟨htag, hrow⟩ := hproperty r hr hplays
    rw [Accounted.row?_property] at hrow
    obtain ⟨p, hp⟩ := Option.isSome_iff_exists.mp hrow
    have hrid : p.rid = r.association.row :=
      hn.rid (show s.rows .property = s.properties.map .property from rfl) hp
    -- so the row is associated with the token that the property looks its rows up by
    have htoken : r.association.token = Token.ofParts .property p.rid := by
      rw [CodedIndex.token, htag, hrid]
    exact ⟨p, nth_mem hp, r.semantics, htoken ▸ hn.mem_accessorsOf hr (hmethod r hr hplays), hplays⟩

/-- **A method and the properties say the same of getters.**  Of a setter they do exactly if some row
makes it a setter and no getter, or none makes it a setter at all. -/
theorem accessors_agree (hn : s.Numbered) (ha : s.Associated) (h : s.Accessed policy g)
    (h' : s.Accessed policy g') {r : MethodDefRow} (hr : nth s.methodDefs place = some r) :
    let getter := ((ModuleId.isGetterAt ⟨.built 0⟩ place).run g).1
    let setter := ((ModuleId.isSetterAt ⟨.built 0⟩ place).run g).1
    let listed := fun pick => ModuleId.Lists g' ⟨.built 0⟩ pick ⟨.row 0 place⟩
    (∃ yes, getter = .ok yes) ∧ (∃ yes, setter = .ok yes) ∧
      (getter = .ok true ↔ listed (·.getters)) ∧
      (listed (·.setters) ↔ s.Says Semantics.isOnlySetter place) ∧
      ((setter = .ok true ↔ listed (·.setters)) ↔
        (s.Says (Flags.has · Semantics.setter) place → s.Says Semantics.isOnlySetter place)) := by
  intro getter setter listed
  have hrid : r.rid = place :=
    hn.rid (show s.rows .methodDef = s.methodDefs.map .methodDef from rfl) hr
  have hgetter : getter = .ok (Flags.has (MethodDefId.storedSemantics s place) Semantics.getter) := by
    refine (Accounted.isGetterAt_yields place g h.accounted).1.trans ?_
    rw [told, hr, ← hrid]
  have hsetter : setter = .ok (Flags.has (MethodDefId.storedSemantics s place) Semantics.setter) := by
    refine (Accounted.isSetterAt_yields place g h.accounted).1.trans ?_
    rw [told, hr, ← hrid]
  have honly : ∀ role : Flags, Semantics.isOnlySetter role = true →
      Flags.has role Semantics.setter = true := fun role hrole => (Bool.and_eq_true_iff.mp hrole).1
  have hgetters : listed (·.getters) ↔ s.Says (Flags.has · Semantics.getter) place :=
    h'.lists_iff_said hn PropertyAccessors.getters_insert rfl
      (fun r hr hrole => ha.property r hr (.inl hrole))
      fun r hr hrole => ha.method r hr (.inl hrole)
  have hsetters : listed (·.setters) ↔ s.Says Semantics.isOnlySetter place :=
    h'.lists_iff_said hn PropertyAccessors.setters_insert rfl
      (fun r hr hrole => ha.property r hr (.inr (honly _ hrole)))
      fun r hr hrole => ha.method r hr (.inr (honly _ hrole))
  refine ⟨⟨_, hgetter⟩, ⟨_, hsetter⟩, ?_, hsetters, ?_⟩
  · rw [hgetter, Except.ok.injEq, has_storedSemantics, hgetters]
  · rw [hsetter, Except.ok.injEq, has_storedSemantics, hsetters]
    have hweaker : s.Says Semantics.isOnlySetter place →
        s.Says (Flags.has · Semantics.setter) place := by
      rintro ⟨r, hr, hplace, hrole⟩
      exact ⟨r, hr, hplace, honly _ hrole⟩
    exact ⟨Iff.mp, fun hsaid => ⟨hsaid, hweaker⟩⟩

end Reading

/-- A property with one method to get it, and one to set it. -/
def apart : Store :=
  let type := Token.ofParts .typeDef 1
  let property := Token.ofParts .property 1
  ((calls [.module "M", .typeDef "N" "T" 0 none, .method type "get_P" 0 0,
    .method type "set_P" 0 0, .property type "P" 0,
    .methodSemantics Semantics.getter (Token.ofParts .methodDef 1) property,
    .methodSemantics Semantics.setter (Token.ofParts .methodDef 2) property]).run empty).2

/-- Each is listed as what it is. -/
theorem accessors_agree_apart :
    let g := ((openModule apart .perEntityLock).run .empty).2
    ((ModuleId.isGetterAt ⟨.built 0⟩ 1).run g).1 = .ok true ∧
      ModuleId.Lists g ⟨.built 0⟩ (·.getters) ⟨.row 0 1⟩ ∧
      ((ModuleId.isSetterAt ⟨.built 0⟩ 2).run g).1 = .ok true ∧
      ModuleId.Lists g ⟨.built 0⟩ (·.setters) ⟨.row 0 2⟩ := by
  intro g
  have hn : apart.Numbered := by decide +kernel
  have ha : apart.Associated := ⟨by decide +kernel, by decide +kernel⟩
  have hg : apart.Accessed .perEntityLock g := .openModule (by decide +kernel)
  have hget : (nth apart.methodDefs 1).isSome := by decide +kernel
  have hset : (nth apart.methodDefs 2).isSome := by decide +kernel
  obtain ⟨get, hget⟩ := Option.isSome_iff_exists.mp hget
  obtain ⟨set, hset⟩ := Option.isSome_iff_exists.mp hset
  obtain ⟨-, -, hgetter, -, -⟩ := accessors_agree hn ha hg hg hget
  obtain ⟨-, -, -, hsetters, hagree⟩ := accessors_agree hn ha hg hg hset
  have hsaid : apart.Says Semantics.isOnlySetter 2 := by decide +kernel
  have hgetters : ModuleId.Lists g ⟨.built 0⟩ (·.getters) ⟨.row 0 1⟩ :=
    hg.lists_iff.mpr (by decide +kernel)
  exact ⟨hgetter.mpr hgetters, hgetters, (hagree.mpr fun _ => hsaid).mpr (hsetters.mpr hsaid),
    hsetters.mpr hsaid⟩

/-- A property with one method to get and set it. -/
def combined : Store :=
  let type := Token.ofParts .typeDef 1
  ((calls [.module "M", .typeDef "N" "T" 0 none, .method type "both" 0 0, .property type "P" 0,
    .methodSemantics (Semantics.getter ||| Semantics.setter) (Token.ofParts .methodDef 1)
      (Token.ofParts .property 1)]).run empty).2

/-- **A method that gets and sets is a setter that no property lists.** -/
theorem setter_unlisted :
    let g := ((openModule combined .perEntityLock).run .empty).2
    combined.Numbered ∧ combined.Associated ∧
      ((ModuleId.isSetterAt ⟨.built 0⟩ 1).run g).1 = .ok true ∧
        ¬ ModuleId.Lists g ⟨.built 0⟩ (·.setters) ⟨.row 0 1⟩ := by
  intro g
  have hg : combined.Accessed .perEntityLock g := .openModule (by decide +kernel)
  refine ⟨by decide +kernel, ⟨by decide +kernel, by decide +kernel⟩, ?_, ?_⟩
  · rw [(Accounted.isSetterAt_yields 1 g hg.accounted).1]
    decide +kernel
  · rw [hg.lists_iff]
    decide +kernel

end Store
end CliMetadata
