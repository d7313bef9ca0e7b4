import CliMetadata.Proofs.Graph.References
import CliMetadata.Proofs.Ownership.Reading
import CliMetadata.Proofs.Resolution.Steps

/-!
# What a reference resolves to is found in a module

A resolver looks into the assembly, the module or the referenced module that a
reference is scoped to, and then into one assembly after another, as forwarders lead
on.  All of this only reads the graph, and **whatever it gives comes out of the look-up
in one module** (`Resolver.resolveType_found`): the answer is returned as soon as
there is one, so the graph that this look-up leads to is the one that resolving leads
to.

`Found ref g g' t` says that some module gives the type `t` for a reference, in a graph
that comes after `g` and on the way to `g'`; `Resolver.Finds` says it of every answer
of a computation, and follows the way in which the computation is built.
-/

namespace CliMetadata

open CliMetadata.Graph Loading Stateful

/-! ## Searching -/

/-- The first answer of several modules is of the sort that each answer is of. -/
theorem Sequential.firstOf {C : (α : Type) → GraphM α → Prop} (hC : Sequential C) {α : Type}
    {f : ModuleId → GraphM (Option α)} (h : ∀ m, C _ (f m)) : ∀ ms, C _ (AssemblyId.firstOf f ms)
  | [] => hC.pure _
  | m :: ms => by
    refine hC.bind (h m) fun found => ?_
    cases found with
    | none => exact hC.firstOf h ms
    | some _ => exact hC.pure _

/-- A sort of computations that what a search for a type reads is of: the scopes of references,
lists, and what is looked up in the graph to decide how to go on. -/
structure Graph.Searches (C : (α : Type) → GraphM α → Prop) : Prop extends Sequential C where
  scope : ∀ r : TypeRefId, C _ r.scope
  items : ∀ e o, C _ (Ownership.items e o)
  look : ∀ {α : Type} {f : Graph → GraphM α}, (∀ g, C _ (f g)) → C _ (MonadState.get >>= f)

namespace Graph.Searches

variable {C : (α : Type) → GraphM α → Prop} (h : Searches C)

include h

theorem nestingChain (r : TypeRefId) : C _ r.nestingChain := by
  refine h.bind (h.toSequential.chain (fun x => h.bind (h.scope x) fun scope => ?_) _ r)
    fun _ => h.pure _
  split
  · exact h.pure _
  · exact h.pure _

theorem types (m : ModuleId) : C _ m.types := h.bind (h.items _ _) fun _ => h.pure _

theorem modules (a : AssemblyId) : C _ a.modules := h.bind (h.items _ _) fun _ => h.pure _

theorem descend : ∀ (refs : List TypeRefId) (t : TypeDefId), C _ (ModuleId.descend t refs)
  | [], _ => h.pure _
  | r :: rest, t => by
    refine h.bind (h.bind (h.items _ _) fun _ => h.pure _) fun nested => h.look fun g => ?_
    cases ModuleId.firstAt g r nested with
    | none => exact h.pure _
    | some t' => exact descend rest t'

/-- **Searching a module is of the sort that its reads are of.** -/
theorem find (m : ModuleId) (r : TypeRefId) : C _ (m.find r) := by
  refine h.bind (h.nestingChain r) fun chain => ?_
  split
  · exact h.pure _
  · exact h.pure _
  · next outermost nested =>
    refine h.bind (h.types m) fun ts => h.look fun g => ?_
    cases ModuleId.firstAt g outermost ts with
    | none => exact h.pure _
    | some t => exact h.descend nested t

/-- So is searching an assembly. -/
theorem findIn (a : AssemblyId) (r : TypeRefId) : C _ (a.find r) :=
  h.bind (h.modules a) fun ms => h.toSequential.firstOf (fun m => h.find m r) ms

end Graph.Searches

theorem searches_later : Searches fun _ x => Keeps Later x where
  toSequential := Keeps.sequential
  scope := TypeRefId.keeps_scope
  items := keeps_items
  look := Keeps.get.bind

/-! ## Modules -/

namespace ModuleId

variable (m : ModuleId)

/-- What a module exports has no bearing on what it is read through. -/
theorem loader?_exported (g : Graph) (es : List ExportedTypeId) (l : Nat) :
    (m.exportedTypesSlot.publish es g).loader? l = g.loader? l := by
  have hentities : (m.exportedTypesSlot.publish es g).entities =
      g.entities.set m.node (.module { g.get m with exportedTypes := some es }) := rfl
  by_cases hm : m.node = ⟨.module, .built l⟩
  · have hget : (g.get m).loader = g.loader? l := by
      unfold Graph.get Graph.loader?
      rw [hm]
      cases g.entities.get? ⟨.module, .built l⟩ with
      | none =>
        obtain ⟨key⟩ := m
        cases congrArg Node.key hm
        rfl
      | some e =>
        obtain ⟨key⟩ := m
        cases congrArg Node.key hm
        cases e <;> rfl
    rw [← hget, Graph.loader?, hentities, hm, Index.get?_set_same]
  · unfold Graph.loader?
    rw [hentities, Index.get?_set_other _ _ hm]

theorem keeps_exportedTypes : Keeps Later m.exportedTypes := by
  refine keeps_readSlot (fun loader _ => ?_) fun g es hempty => ?_
  · exact (keeps_children _ _ _).bind fun rids => keeps_collect (keeps_shared (by decide) loader) rids
  · show g.Later (g.update m fun x => { x with exportedTypes := some es })
    exact Later.of_update (m.loader?_exported g es)
      (.module (Slot.Le.fill hempty es) (Slot.Le.refl _) rfl)

theorem keeps_assembly : Keeps Later m.assembly := (keeps_owner _ _).bind fun _ => Keeps.pure _

theorem keeps_descend (refs : List TypeRefId) (t : TypeDefId) : Keeps Later (descend t refs) :=
  searches_later.descend refs t

theorem keeps_find (r : TypeRefId) : Keeps Later (m.find r) := searches_later.find m r

theorem keeps_findExported (r : TypeRefId) : Keeps Later (m.findExported r) := by
  have answer : ∀ es, Keeps Later (firstAnswer r es) := by
    intro es
    induction es with
    | nil => exact Keeps.pure _
    | cons e es ih => exact (e.keeps_answers r).bind fun _ => Keeps.ite (Keeps.pure _) ih
  exact m.keeps_exportedTypes.bind fun es => answer es

end ModuleId

/-! ## Assemblies -/

namespace AssemblyId

variable (a : AssemblyId)

theorem keeps_modules : Keeps Later a.modules := searches_later.modules a

theorem keeps_findModule (name : String) : Keeps Later (a.findModule name) :=
  a.keeps_modules.bind fun _ => Keeps.get.bind fun _ => Keeps.pure _

theorem keeps_firstOf {α : Type} {f : ModuleId → GraphM (Option α)} (h : ∀ m, Keeps Later (f m))
    (ms : List ModuleId) : Keeps Later (firstOf f ms) := Keeps.sequential.firstOf h ms

theorem keeps_find (r : TypeRefId) : Keeps Later (a.find r) := searches_later.findIn a r

end AssemblyId

theorem ExportedTypeId.keeps_definitionAssembly (e : ExportedTypeId) :
    Keeps Later e.definitionAssembly := by
  have from_ : ∀ bound i, Keeps Later (e.definitionFrom bound i) := by
    intro bound
    induction bound with
    | zero => exact fun _ => Keeps.pure _
    | succ n ih =>
      intro i
      cases i with
      | assemblyRef _ => exact Keeps.pure _
      | file _ =>
        refine e.keeps_module.bind fun m => ?_
        cases m with
        | none => exact Keeps.pure _
        | some m => exact m.keeps_assembly.bind fun _ => Keeps.pure _
      | exportedType enclosing =>
        refine enclosing.keeps_implementation.bind fun i => ?_
        cases i with
        | none => exact Keeps.pure _
        | some i => exact ih i
  refine e.keeps_implementation.bind fun i => ?_
  cases i with
  | none => exact Keeps.pure _
  | some i => exact from_ _ i

/-! ## Looking a reference up -/

/-- A module gives a type for a reference, in a graph that comes after `g`, and leads to
`g'` by it. -/
def Found (ref : TypeRefId) (g g' : Graph) (t : TypeDefId) : Prop :=
  ∃ (m : ModuleId) (g₀ : Graph), g.Later g₀ ∧ (m.find ref).run g₀ = (some t, g')

section Found

variable {ref : TypeRefId} {g g₁ g' : Graph} {t : TypeDefId}

theorem Found.before (h : g.Later g₁) (k : Found ref g₁ g' t) : Found ref g g' t := by
  obtain ⟨m, g₀, hlater, hfind⟩ := k
  exact ⟨m, g₀, h.trans hlater, hfind⟩

theorem ModuleId.find_found {m : ModuleId} (h : ((m.find ref).run g).1 = some t) :
    Found ref g ((m.find ref).run g).2 t :=
  ⟨m, g, Later.refl g, Prod.ext h rfl⟩

/-- The first answer of several modules is the answer of one of them. -/
theorem AssemblyId.firstOf_found : ∀ (ms : List ModuleId) {g : Graph},
    ((firstOf (fun m => m.find ref) ms).run g).1 = some t →
    Found ref g ((firstOf (fun m => m.find ref) ms).run g).2 t
  | [], _, h => by cases h
  | m :: ms, g, h => by
    rw [firstOf, run_bind] at h ⊢
    cases hm : ((m.find ref).run g).1 with
    | some t' =>
      rw [hm] at h
      cases h
      exact m.find_found hm
    | none =>
      rw [hm] at h
      exact (firstOf_found ms h).before (m.keeps_find ref g)

theorem AssemblyId.find_found {a : AssemblyId} (h : ((a.find ref).run g).1 = some t) :
    Found ref g ((a.find ref).run g).2 t := by
  rw [AssemblyId.find, run_bind] at h ⊢
  exact (firstOf_found _ h).before (a.keeps_modules g)

end Found

/-! ## Resolving -/

/-- The graph after some resolving comes after the graph before. -/
def Resolving.Later (s s' : Resolving) : Prop := s.graph.Later s'.graph

instance : IsPreorder Resolving Resolving.Later where
  refl s := Graph.Later.refl s.graph
  trans _ _ _ := Graph.Later.trans

theorem keeps_inGraph {α : Type} {x : GraphM α} (h : Keeps Graph.Later x) :
    Keeps Resolving.Later (inGraph x) := fun s => h s.graph

namespace Resolver

variable {r : Resolver} {ref : TypeRefId} {source : Option ModuleId}

theorem keeps_resolveAssembly (identity : AssemblyIdentity) :
    Keeps Resolving.Later (r.resolveAssembly identity source) := fun s => Later.refl s.graph

theorem keeps_referencedModule (mr : ModuleRefId) (current : ModuleId) :
    Keeps Graph.Later (referencedModule mr current) := by
  refine Keeps.get.bind fun g => Keeps.ite (Keeps.pure _) ?_
  refine current.keeps_assembly.bind fun a => ?_
  cases a with
  | none => exact Keeps.pure _
  | some a => exact a.keeps_findModule _

/-- **Whatever a computation gives for a reference is found in a module.** -/
def Finds (ref : TypeRefId) (x : ResolveM (Option TypeDefId)) : Prop :=
  ∀ s t, (x.run s).1 = some t → Found ref s.graph (x.run s).2.graph t

namespace Finds

theorem none : Finds ref (pure .none) := by
  intro s t h
  cases h

theorem apply {x : ResolveM (Option TypeDefId)} {s : Resolving} {t : TypeDefId} (h : Finds ref x)
    (ht : (x.run s).1 = some t) : Found ref s.graph (x.run s).2.graph t := h s t ht

theorem bind {α : Type} {x : ResolveM α} {f : α → ResolveM (Option TypeDefId)}
    (hx : Keeps Resolving.Later x) (hf : ∀ a, Finds ref (f a)) : Finds ref (x >>= f) := by
  intro s t h
  rw [run_bind] at h ⊢
  exact (hf _ _ _ h).before (hx s)

/-- What a look-up gives is returned, and where it gives nothing the search goes on. -/
theorem orElse {y : GraphM (Option TypeDefId)} {z : ResolveM (Option TypeDefId)}
    (hlater : Keeps Graph.Later y)
    (hy : ∀ g t, (y.run g).1 = some t → Found ref g (y.run g).2 t) (hz : Finds ref z) :
    Finds ref (do
      match ← inGraph y with
      | some t => return some t
      | .none => z) := by
  intro s t h
  rw [run_bind] at h ⊢
  cases hv : ((inGraph y).run s).1 with
  | some t' =>
    rw [hv] at h
    cases h
    exact hy s.graph t hv
  | none =>
    rw [hv] at h
    exact (hz _ _ h).before (hlater s.graph)

end Finds

/-- However many hops are followed, the type is found in a module of the last assembly. -/
theorem followForwarders_finds : ∀ (hops : Nat) (ms : List ModuleId),
    Finds ref (r.followForwarders ref source hops ms)
  | 0, _ => Finds.none
  | n + 1, ms => by
    have hforwarder : Keeps Later (findForwarder ms ref) :=
      AssemblyId.keeps_firstOf (fun m => m.keeps_findExported ref) ms
    refine Finds.bind (keeps_inGraph hforwarder) fun exported => ?_
    cases exported with
    | none => exact Finds.none
    | some exported =>
      refine Finds.bind (keeps_inGraph exported.keeps_definitionAssembly) fun definition => ?_
      cases definition with
      | none => exact Finds.none
      | some definition =>
        refine Finds.bind Keeps.get fun s => Finds.bind (keeps_resolveAssembly _) fun a => ?_
        cases a with
        | none => exact Finds.none
        | some a =>
          refine Finds.orElse (a.keeps_find ref) (fun _ _ => AssemblyId.find_found) ?_
          exact Finds.bind (keeps_inGraph a.keeps_modules) (followForwarders_finds n)

theorem findInModule_finds (m : ModuleId) : Finds ref (r.findInModule ref source m) :=
  Finds.orElse (m.keeps_find ref) (fun _ _ => ModuleId.find_found) (followForwarders_finds _ _)

theorem findInAssembly_finds (a : AssemblyId) : Finds ref (r.findInAssembly ref source a) :=
  Finds.orElse (a.keeps_find ref) (fun _ _ => AssemblyId.find_found)
    (Finds.bind (keeps_inGraph a.keeps_modules) (followForwarders_finds _))

theorem lookIn_finds (outermost : TypeRefId) (scope : Option ResolutionScope) :
    Finds ref (r.lookIn ref source outermost scope) := by
  rcases scope with _ | (m | mr | a | enclosing)
  · exact Finds.none
  · refine Finds.bind Keeps.get fun s => ?_
    cases s.graph.upgrade m with
    | none => exact Finds.none
    | some m => exact findInModule_finds m
  · refine Finds.bind (keeps_inGraph outermost.keeps_module) fun current => ?_
    cases current with
    | none => exact Finds.none
    | some current =>
      refine Finds.bind (keeps_inGraph (keeps_referencedModule mr current)) fun m => ?_
      cases m with
      | none => exact Finds.none
      | some m => exact findInModule_finds m
  · refine Finds.bind Keeps.get fun s => Finds.bind (keeps_resolveAssembly _) fun a => ?_
    cases a with
    | none => exact Finds.none
    | some a => exact findInAssembly_finds a
  · exact Finds.none

theorem lookUp_finds : Finds ref (r.lookUp ref source) := by
  refine Finds.bind (keeps_inGraph ref.keeps_module) fun own => ?_
  refine Finds.bind (keeps_inGraph ref.keeps_nonNested) fun outermost => ?_
  cases outermost with
  | none => exact Finds.none
  | some outermost =>
    exact Finds.bind (keeps_inGraph outermost.keeps_scope) (lookIn_finds outermost)

/-- **What a reference resolves to is found in a module**, for the reference that takes
its place and after that has been made. -/
theorem resolveType_found {s : Resolving} {t : TypeDefId}
    (h : ((r.resolveType ref source).run s).1 = some t) :
    Found ((r.projectType ref).run s).1 ((r.projectType ref).run s).2.graph
      ((r.resolveType ref source).run s).2.graph t := by
  rw [resolveType_eq, run_bind] at h ⊢
  exact lookUp_finds.apply h

end Resolver
end CliMetadata
