import CliMetadata.Proofs.Rereading.Searches

/-!
# Looking types up again

What a resolver looks up it looks up again with the same result (`Resolver.lookUp_rereads`): in the
assembly, the module or the referenced module that a reference is scoped to, and along the forwarders
from there, as the cache that it asks for assemblies answers as before.  The second time it may be
for another reference that stands for the same.
-/

namespace CliMetadata

open CliMetadata.Graph Loading Stateful

variable {P : Fact}

section InGraph

variable {α : Type} {x y : GraphM α}

theorem Again.inGraph {Q : α → α → Fact} (h : Again P x y Q) : Again P (inGraph x) (inGraph y) Q :=
  ⟨h.keeps.inGraph, fun hP hs ht hper => h.run hP hs ht hper⟩

theorem Rereads.inGraph {Q : α → Fact} (h : Rereads P x y Q) :
    Rereads P (inGraph x) (inGraph y) Q := Again.inGraph h

end InGraph

/-- A cache answers as before. -/
theorem AssemblyCache.resolve_perused {g u : Graph} (h : g.Perused u) (c : AssemblyCache)
    (required : AssemblyIdentity) : c.resolve u required = c.resolve g required := by
  have hidentity : identityOf u = identityOf g := funext fun a => by
    rw [identityOf, identityOf, h.assembly]
  have hbetter : better u required = better g required := by
    funext best candidate
    unfold better
    rw [hidentity]
  rw [resolve, resolve, hbetter]

namespace Resolver

variable {r : Resolver} {c : AssemblyCache} {ref ref' : TypeRefId} {asking asking' : Option ModuleId}

/-! ## Where a search begins -/

/-- The module that is meant from a module: that module itself, or the first of its assembly of a
name. -/
def moduleNamed (current : ModuleId) (own : Bool) (name : String) : GraphM (Option ModuleId) :=
  if own then return some current
  else current.assembly >>= fun a => a.elim (pure none) (·.findModule name)

theorem referencedModule_eq (mr : ModuleRefId) (m : ModuleId) :
    referencedModule mr m = get >>= fun g =>
      moduleNamed m (namesModule g mr m) (g.get mr).name.lossy := by
  refine bind_congr fun g => ?_
  unfold moduleNamed
  split
  · rfl
  · refine bind_congr fun a => ?_
    cases a <;> rfl

/-- The module that a module reference names is the same again. -/
theorem referencedModule_rereads {mr : ModuleRefId} (hmr : P ≤ .of mr.key.IsRow) (m : ModuleId) :
    Rereads P (referencedModule mr m) (referencedModule mr m) fun _ => .of True := by
  rw [referencedModule_eq]
  refine Rereads.look (R := fun _ => .of True) (fun g => (namesModule g mr m, (g.get mr).name.lossy))
    (fun g => (namesModule g mr m, (g.get mr).name.lossy)) (fun b => moduleNamed m b.1 b.2)
    (fun b => moduleNamed m b.1 b.2) (fun {g u} hP _ (hper : g.Perused u) => ⟨?_, trivial⟩) fun b => ?_
  · have hrow : mr.key.IsRow := hmr _ _ hP
    show (namesModule u mr m, (u.get mr).name.lossy) = (namesModule g mr m, (g.get mr).name.lossy)
    rw [namesModule, namesModule, hper.moduleRef hrow.known, hper.module_name]
  · refine Again.ite (Rereads.pure fun _ _ _ => trivial) (m.assembly_rereads.bind fun a => ?_)
    cases a with
    | none => exact Rereads.pure fun _ _ _ => trivial
    | some a => exact a.findModule_rereads b.2

theorem resolveAssembly_rereads (hsource : r.source = c.source) (identity : AssemblyIdentity) :
    Rereads P (r.resolveAssembly identity asking) (r.resolveAssembly identity asking')
      fun _ => .of True := by
  refine ⟨r.resolveAssembly_peruses identity asking, fun _ _ ht hper => ⟨⟨ht, .refl _⟩, ?_, trivial⟩⟩
  show r.source _ _ _ = r.source _ _ _
  rw [hsource]
  exact AssemblyCache.resolve_perused hper c identity

/-- An assembly is asked for by its identity and then searched. -/
theorem resolveAssembly_look (i i' : Graph → AssemblyIdentity)
    {k k' : AssemblyId → ResolveM (Option TypeDefId)} (hsource : r.source = c.source)
    (hi : ∀ {g u : Graph}, P.holds g u → g.Perused u → i' u = i g)
    (hk : ∀ a, Rereads P (k a) (k' a) .found) {f f' : Option AssemblyId → ResolveM (Option TypeDefId)}
    (hf : ∀ o, f o = o.elim (pure none) k) (hf' : ∀ o, f' o = o.elim (pure none) k') :
    Rereads P (get >>= fun s => r.resolveAssembly (i s.graph) asking >>= f)
      (get >>= fun s => r.resolveAssembly (i' s.graph) asking' >>= f') .found := by
  refine Rereads.look (R := fun _ => .of True) (fun s : Resolving => i s.graph) (fun s => i' s.graph)
    (fun i => r.resolveAssembly i asking >>= f) (fun i => r.resolveAssembly i asking' >>= f')
    (fun hP _ hper => ⟨hi hP hper, trivial⟩) fun identity => ?_
  refine (resolveAssembly_rereads hsource identity).bind fun a => ?_
  rw [hf, hf']
  cases a with
  | none => exact Rereads.pure Fact.maybe_none
  | some a => exact (hk a).under (Fact.before Fact.and_left)

/-! ## Forwarders -/

theorem findForwarder_rereads (hr : P ≤ .same ref ref') (ms : List ModuleId) :
    Rereads P (findForwarder ms ref) (findForwarder ms ref') fun o =>
      .maybe o fun e => .of e.key.IsRow :=
  AssemblyId.firstOf_rereads (fun m => m.findExported_rereads hr) ms

/-- **Forwarders lead to the same type again.** -/
theorem followForwarders_rereads (hsource : r.source = c.source) : ∀ (hops : Nat) {P : Fact}
    (ms : List ModuleId), P ≤ .same ref ref' →
    Rereads P (r.followForwarders ref asking hops ms) (r.followForwarders ref' asking' hops ms) .found
  | 0, _, _, _ => Rereads.pure Fact.maybe_none
  | n + 1, P, ms, hr => by
    refine (findForwarder_rereads hr ms).inGraph.bind_some (Rereads.pure Fact.maybe_none)
      fun exported => ?_
    refine (ExportedTypeId.definitionAssembly_rereads Fact.and_right).inGraph.bind_some
      (Rereads.pure Fact.maybe_none) fun definition => ?_
    refine resolveAssembly_look (fun g => definitionIdentity g definition)
      (fun g => definitionIdentity g definition) hsource (fun hP hper => ?_) (fun a => ?_)
      (fun o => by cases o <;> rfl) fun o => by cases o <;> rfl
    · have hdefined := hP.2
      cases definition with
      | assembly a => exact congrArg Assembly.identity (hper.assembly a)
      | reference a =>
        exact congrArg AssemblyRef.identity (hper.assemblyRef (Key.IsRow.known hdefined))
    · refine (a.find_rereads (Fact.before (Fact.before hr))).inGraph.bind_some ?_ fun t =>
        Rereads.pure (Fact.maybe_some.mpr Fact.and_right)
      exact a.modules_rereads.inGraph.bind fun ms' =>
        followForwarders_rereads hsource n ms' (Fact.before (Fact.before (Fact.before hr)))

theorem findInModule_rereads (hsource : r.source = c.source) (hr : P ≤ .same ref ref') (m : ModuleId) :
    Rereads P (r.findInModule ref asking m) (r.findInModule ref' asking' m) .found :=
  (m.find_rereads hr).inGraph.bind_some (followForwarders_rereads hsource _ _ hr) fun _ =>
    Rereads.pure (Fact.maybe_some.mpr Fact.and_right)

theorem findInAssembly_rereads (hsource : r.source = c.source) (hr : P ≤ .same ref ref')
    (a : AssemblyId) :
    Rereads P (r.findInAssembly ref asking a) (r.findInAssembly ref' asking' a) .found := by
  refine (a.find_rereads hr).inGraph.bind_some ?_ fun _ =>
    Rereads.pure (Fact.maybe_some.mpr Fact.and_right)
  exact a.modules_rereads.inGraph.bind fun ms =>
    followForwarders_rereads hsource _ _ (Fact.before hr)

/-! ## References -/

variable {outermost outermost' : TypeRefId}

/-- Looking into an assembly of an identity. -/
theorem lookIn_assembly (hsource : r.source = c.source) (hr : P ≤ .same ref ref')
    {a a' : AssemblyRefId} (ha : ∀ {g u : Graph}, P.holds g u → g.Perused u →
      (u.get a').identity = (g.get a).identity) :
    Rereads P (r.lookIn ref asking outermost (some (.assemblyRef a)))
      (r.lookIn ref' asking' outermost' (some (.assemblyRef a'))) .found :=
  resolveAssembly_look (fun g => (g.get a).identity) (fun g => (g.get a').identity)
    hsource ha (fun a => findInAssembly_rereads hsource hr a) (fun _ => rfl) fun _ => rfl

/-- Looking where a row says. -/
theorem lookIn_rereads (hsource : r.source = c.source) (hr : P ≤ .same ref ref')
    (ho : P ≤ .of outermost.key.IsRow) {v : Option ResolutionScope} (hv : P ≤ .inScope v) :
    Rereads P (r.lookIn ref asking outermost v) (r.lookIn ref' asking' outermost v) .found := by
  have hrow : ∀ s, v = some s → (∀ m, s ≠ .module m) → P ≤ .of s.node.key.IsRow := by
    rintro s rfl hs g u hP
    refine (hv g u hP).1 _ ?_
    cases s with
    | module m => exact absurd rfl (hs m)
    | moduleRef | assemblyRef | typeRef => exact List.mem_singleton_self _
  rcases v with _ | (m | mr | a | enclosing)
  · exact Rereads.pure Fact.maybe_none
  · refine Rereads.look (R := fun _ => .of True) (fun s : Resolving => s.graph.upgrade m)
      (fun s => s.graph.upgrade m) (fun m => m.elim (pure none) (r.findInModule ref asking))
      (fun m => m.elim (pure none) (r.findInModule ref' asking'))
      (fun hP _ hper => ⟨hper.upgrade ((hv _ _ hP).2 m rfl), trivial⟩) fun m => ?_
    cases m with
    | none => exact Rereads.pure Fact.maybe_none
    | some m => exact findInModule_rereads hsource (Fact.before hr) m
  · have hmr : P ≤ .of mr.key.IsRow := hrow _ rfl (by simp)
    refine (TypeRefId.module_rereads fun g u hP => .inl ⟨rfl, ho g u hP⟩).inGraph.bind fun current => ?_
    cases current with
    | none => exact Rereads.pure Fact.maybe_none
    | some current =>
      refine (referencedModule_rereads (Fact.before hmr) current).inGraph.bind fun m => ?_
      cases m with
      | none => exact Rereads.pure Fact.maybe_none
      | some m => exact findInModule_rereads hsource (Fact.before (Fact.before hr)) m
  · refine lookIn_assembly hsource hr fun hP hper => ?_
    rw [hper.assemblyRef (Key.IsRow.known (hrow _ rfl (by simp) _ _ hP))]
  · exact Rereads.pure Fact.maybe_none

/-- **A reference is looked up again as it was.** -/
theorem lookUp_rereads (hsource : r.source = c.source) (hr : P ≤ .same ref ref') :
    Rereads P (r.lookUp ref asking) (r.lookUp ref' asking') .found := by
  refine (TypeRefId.module_rereads hr).inGraph.bind fun own => ?_
  refine (TypeRefId.nonNested_again (Fact.before hr)).inGraph.bind_both
    (Rereads.pure Fact.maybe_none) fun outermost outermost' => ?_
  refine (TypeRefId.scope_again Fact.and_right).inGraph.bind fun v v' => ?_
  have hkeeps := r.lookIn_peruses ref (asking.or own) outermost v
  have hr' := Fact.before (Q := .same outermost outermost') (Fact.before (Q := .maybe own fun m => .alive m.node) hr)
  refine .or_elim Fact.and_right (.of_fact hkeeps (fun _ _ h => h.2.1) ?_) (.of_fact hkeeps
    (φ := ∃ a a', v = some (.assemblyRef a) ∧ v' = some (.assemblyRef a')) ?_ ?_)
  · rintro ⟨⟨rfl, hrow⟩, rfl⟩
    exact lookIn_rereads hsource (Fact.before (Fact.before hr')) (Fact.le_of hrow)
      fun _ _ h => h.2.2
  · rintro g u ⟨_, a, a', hv, hv', _⟩
    exact ⟨a, a', hv, hv'⟩
  · rintro ⟨a, a', rfl, rfl⟩
    refine lookIn_assembly hsource (Fact.before (Fact.before hr')) fun hP _ => ?_
    obtain ⟨_, _, ha, ha', i, h, h'⟩ := hP.2
    cases ha
    cases ha'
    exact h'.identity.trans h.identity.symm

end Resolver
end CliMetadata
