import CliMetadata.Proofs.Comparison.Paths
import CliMetadata.Proofs.Ownership.Steps
import CliMetadata.Proofs.Resolution.Agreement
import CliMetadata.Proofs.Resolution.Registration

/-!
# A reference resolves to a type of its scope

The scope of a reference is read twice.  A resolver asks where to look, and takes the answer of
the cache for an assembly reference, the module itself for a module, and for a module reference
the module that asks or another one of its assembly.  A comparison that counts scopes asks for a
name, that of the assembly or of the module.

**The two readings agree** (`Resolver.resolveType_scope`): where no forwarder is followed, the
type that a reference resolves to is equal to the reference also where scopes count.  The type is
enclosed in the end by one in the list of a module that the scope stands for (`ScopedTo`), and
that module and the scope have one name up to case.  The letters differ only for an assembly
reference, which the cache answers by names in lower case.

A module reference is resolved from the module of the outermost reference, and compared by that of
the reference itself, so the two have to be the same.
-/

namespace CliMetadata

open CliMetadata.Graph Loading Stateful

/-! ## What a search leaves as it is -/

namespace Graph

variable {g g' : Graph}

/-- **Assemblies and references to them are as they were**, and so are the containers that
modules are recorded in. -/
structure SameAssemblies (g g' : Graph) : Prop where
  assembly : ∀ a : AssemblyId, g'.get a = g.get a
  reference : ∀ a : AssemblyRefId, g'.get a = g.get a
  recorded : ∀ {c v}, g.owners.get? (.assemblyModules, c) = some v →
    g'.owners.get? (.assemblyModules, c) = some v

instance : IsPreorder Graph SameAssemblies where
  refl _ := ⟨fun _ => rfl, fun _ => rfl, id⟩
  trans _ _ _ h k := ⟨fun a => (k.assembly a).trans (h.assembly a),
    fun a => (k.reference a).trans (h.reference a), fun hv => k.recorded (h.recorded hv)⟩

namespace SameAssemblies

/-- Entities of other kinds are written. -/
theorem of_entities (h : ∀ n, n.kind = .assembly ∨ n.kind = .assemblyRef → g'.entity n = g.entity n)
    (howners : ∀ c, g'.owners.get? (.assemblyModules, c) = g.owners.get? (.assemblyModules, c)) :
    g.SameAssemblies g' where
  assembly a := LazySlot.get_of_entity (h a.node (.inl rfl))
  reference a := LazySlot.get_of_entity (h a.node (.inr rfl))
  recorded hv := (howners _).trans hv

theorem of_put {k : Kind} {ρ : Type} [Recorded k ρ] (hk : k ≠ .assembly) (hk' : k ≠ .assemblyRef)
    (hmodule : k ≠ .module) (id : Id k) (r : ρ) : g.SameAssemblies (g.put id r) := by
  refine of_entities (fun n hn => entity_put_of_ne (loader?_put hmodule id r) ?_) fun _ => rfl
  rintro rfl
  exact hn.elim hk hk'

/-- Reading a slot of another kind. -/
theorem of_read {k : Kind} {ρ : Type} [Recorded k ρ] [Recorded.Lawful k] {α : Type}
    (z : LazySlot k α) (hk : k ≠ .assembly) (hk' : k ≠ .assemblyRef) (id : Id k) :
    Keeps SameAssemblies (z.read id) := by
  intro g
  cases hv : z.get (g.get id) with
  | some v =>
    rw [z.run_held hv]
    exact refl_of SameAssemblies g
  | none =>
    obtain ⟨v, htold, -⟩ := z.told_stored g id
    rw [z.run_empty hv]
    have hstored : g.SameAssemblies ((z.stored g id).run g).2 := by
      refine of_entities (fun n hn => htold.quiet.entity ?_) fun c => htold.quiet.recorded _
      rintro hkind
      rw [hkind] at hn
      exact hn.elim nofun nofun
    exact trans_of SameAssemblies hstored (of_put hk hk' z.ne_module id _)

theorem takesOver (e : Edge) (o : Node) : TakesOver e o SameAssemblies where
  asked h := ⟨fun a => LazySlot.get_of_entity (h.entity a.node),
    fun a => LazySlot.get_of_entity (h.entity a.node), h.recorded⟩
  take he _ := by
    refine of_entities (fun _ _ => rfl) fun c' => Index.get?_set_other _ _ ?_
    rintro ⟨⟩
    exact he rfl
  copy {g k ρ _ r} he hk := by
    have hkinds : k ≠ .assembly ∧ k ≠ .assemblyRef ∧ k ≠ .module := by
      subst hk
      cases e <;> first | exact absurd rfl he | decide
    have hput := of_put (g := g) hkinds.1 hkinds.2.1 hkinds.2.2 ⟨.built g.built⟩ r
    refine ⟨hput.assembly, hput.reference, fun hv => ?_⟩
    refine (Index.get?_set_other _ _ ?_).trans (hput.recorded hv)
    rintro ⟨⟩
    exact he rfl

/-- **Searching for a type leaves the assemblies as they are.** -/
theorem searches : Searches fun _ x => Keeps SameAssemblies x where
  toSequential := Keeps.sequential
  scope := of_read TypeRefId.lazyScope nofun nofun
  items e o := (takesOver e o).items fun _ _ => of_entities (fun _ _ => rfl) fun _ => rfl
  look := Keeps.get.bind

end SameAssemblies
end Graph

/-! ## The outermost reference -/

section Outermost

open Chain

variable {α : Type} {next : α → Option α} {start : Option α} {xs ys : List α}
  {up : α → GraphM (Option α)} {S : Graph → Prop}

theorem Chain.Climbs.unique (h : Climbs next start xs) (k : Climbs next start ys) : xs = ys := by
  induction h generalizing ys with
  | ended =>
    cases k
    rfl
  | step _ ih =>
    cases k with
    | step k => rw [ih k]

/-- The outermost of a climb within the bound is its last. -/
theorem Chain.Climbs.outermost : ∀ {bound : Nat} {x : α} {xs : List α},
    Climbs next (some x) xs → xs.length ≤ bound → (∀ y ∈ xs, Yields S (up y) (next y)) →
    Yields S (Chain.outermost up bound x) xs.getLast?
  | 0, _, _, .step _, hbound, _ => absurd hbound (Nat.not_succ_le_zero _)
  | n + 1, x, _ :: xs, .step above, hbound, hup => by
    refine (hup x List.mem_cons_self).bind ?_
    cases hnext : next x with
    | none =>
      rw [hnext] at above
      cases above
      exact .pure _
    | some y =>
      rw [hnext] at above
      have hrest := outermost above (Nat.le_of_succ_le_succ hbound)
        fun z hz => hup z (List.mem_cons_of_mem _ hz)
      obtain ⟨z, zs, rfl⟩ : ∃ z zs, xs = z :: zs := by
        cases above with
        | step _ => exact ⟨_, _, rfl⟩
      rwa [List.getLast?_cons_cons]

/-- Going up to the outermost reads the chain. -/
theorem Chain.chain_of_outermost : ∀ {bound : Nat} {x y : α} {g : Graph},
    ((Chain.outermost up bound x).run g).1 = some y →
    ∃ xs, (Chain.chain up bound x).run g = (some xs, ((Chain.outermost up bound x).run g).2) ∧
      xs.getLast? = some y
  | 0, _, _, _, h => by cases h
  | n + 1, x, y, g, h => by
    rw [Chain.outermost, run_bind] at h ⊢
    rw [Chain.chain, run_bind]
    cases hnext : ((up x).run g).1 with
    | none =>
      rw [hnext] at h
      cases h
      exact ⟨[x], rfl, rfl⟩
    | some z =>
      rw [hnext] at h
      obtain ⟨xs, hchain, hlast⟩ := chain_of_outermost h
      dsimp only
      rw [run_bind, hchain]
      refine ⟨x :: xs, rfl, ?_⟩
      cases xs with
      | nil => cases hlast
      | cons _ _ => rwa [List.getLast?_cons_cons]

variable {g g' : Graph} {r outermost : TypeRefId} {rs : List TypeRefId}

/-- The outermost reference is the last of those that enclose it, also later on. -/
theorem TypeRefId.Enclosed.last (h : TypeRefId.Enclosed g' r rs)
    (houtermost : (r.nonNested.run g).1 = some outermost) (hlater : (r.nonNested.run g).2.Later g') :
    rs.getLast? = some outermost := by
  obtain ⟨xs, hchain, hlast⟩ := Chain.chain_of_outermost houtermost
  have hread : ((Chain.chain TypeRefId.declaringType recursionBound r).run g).2.Later g' := by
    rw [hchain]
    exact hlater
  obtain ⟨hclimbs, -, -⟩ := TypeRefId.chain_climbs (congrArg Prod.fst hchain) hread
  rw [h.climbs.unique hclimbs, hlast]

end Outermost

/-! ## What a scope stands for -/

/-- **A module that the scope of an outermost reference stands for.** -/
inductive Graph.ScopedTo (g : Graph) (outermost : TypeRefId) : ModuleId → Prop
  /-- A module of an assembly whose name agrees with that of an assembly reference up to case. -/
  | assemblyRef {a : AssemblyRefId} {assembly : AssemblyId} {m : ModuleId}
      (scope : (g.get outermost).scope = some (some (.assemblyRef a)))
      (named : Text.Ascii.sameText (g.get assembly).identity.name (g.get a).name.lossy = true)
      (listed : m.key ∈ g.held .assemblyModules assembly.node) : ScopedTo g outermost m
  | module {m : ModuleId} (scope : (g.get outermost).scope = some (some (.module m)))
      (present : g.upgrade m = some m) : ScopedTo g outermost m
  /-- The module that a module reference belongs to. -/
  | current {mr : ModuleRefId} {m : ModuleId}
      (scope : (g.get outermost).scope = some (some (.moduleRef mr)))
      (asks : (outermost.module.run g).1 = some m) : ScopedTo g outermost m
  /-- Another module of the assembly of that one. -/
  | sibling {mr : ModuleRefId} {current m : ModuleId} {assembly : AssemblyId}
      (scope : (g.get outermost).scope = some (some (.moduleRef mr)))
      (asks : (outermost.module.run g).1 = some current)
      (within : (current.assembly.run g).1 = some assembly)
      (listed : m.key ∈ g.held .assemblyModules assembly.node) : ScopedTo g outermost m

section Later

variable {g g' : Graph}

/-- What a list that has been read holds, it holds from then on. -/
theorem Graph.Later.held {e : Edge} {o : Node} {c : Key} (h : g.Later g') (hc : c ∈ g.held e o) :
    c ∈ g'.held e o := by
  cases hl : g.lists.get? (e, o) with
  | none =>
    rw [Graph.held, hl] at hc
    cases hc
  | some cs => rwa [held_eq (h.list hl), ← held_eq hl]

/-- What is there stays there. -/
theorem Graph.Later.upgrade {k : Kind} {id id' : Id k} (h : g.Later g')
    (hid : g.upgrade id = some id') : g'.upgrade id = some id' := by
  unfold Graph.upgrade at *
  split at hid
  · next halive => rwa [if_pos (h.alive halive)]
  · cases hid

/-- A module that has been found in an assembly stays in it. -/
theorem Graph.SameAssemblies.within {m : ModuleId} {a : AssemblyId}
    (hm : (m.assembly.run g).1 = some a) (h : (m.assembly.run g).2.SameAssemblies g')
    (hlater : (m.assembly.run g).2.Later g') : (m.assembly.run g').1 = some a := by
  let read := (Ownership.owner .assemblyModules m.key).run g
  obtain ⟨o, ho, rfl⟩ := Option.map_eq_some_iff.mp
    (show read.1.map (fun n : Node => (⟨n.key⟩ : AssemblyId)) = some a from hm)
  obtain ⟨hasked, hvalue, hrecorded⟩ := owner_run g .assemblyModules m.key
  obtain ⟨hnoted, halive⟩ := Option.filter_eq_some_iff.mp (hvalue.symm.trans ho)
  rw [hnoted] at hrecorded
  have halive' : g'.alive o := hlater.alive (hasked.alive o ▸ halive)
  have hnoted' : g'.noted .assemblyModules m.key = some o := noted_of_recorded (h.recorded hrecorded)
  show ((Ownership.owner .assemblyModules m.key).run g').1.map _ = _
  rw [(owner_run g' .assemblyModules m.key).2.1, hnoted', Option.filter_some, if_pos halive']
  rfl

/-- What a reference belongs to stays, as long as it is there. -/
theorem TypeRefId.module_later {r : TypeRefId} {m : ModuleId} (h : g.Later g')
    (hm : (r.module.run g).1 = some m) : (r.module.run g').1 = some m := by
  have hcolumns : g'.get r = { g.get r with scope := (g'.get r).scope } :=
    (Entity.Le.of_typeRef (h.entity (n := r.node) (Or.inr rfl))).2
  exact h.upgrade (by rw [hcolumns]; exact hm)

end Later

section Searching

variable {g g' : Graph} {ref : TypeRefId} {t : TypeDefId}

/-- What the first answer of several modules is comes from one of them. -/
theorem AssemblyId.firstOf_some : ∀ {ms : List ModuleId} {g : Graph},
    (firstOf (fun m => m.find ref) ms).run g = (some t, g') →
    ∃ m ∈ ms, ∃ g₀, g.Later g₀ ∧ (m.find ref).run g₀ = (some t, g')
  | [], _, h => by cases h
  | m :: ms, g, h => by
    rw [firstOf, run_bind] at h
    cases hm : ((m.find ref).run g).1 with
    | some t' =>
      rw [hm] at h
      cases h
      exact ⟨m, List.mem_cons_self, g, .refl g, Prod.ext hm rfl⟩
    | none =>
      rw [hm] at h
      obtain ⟨m', hm', g₀, hlater, hfind⟩ := firstOf_some h
      exact ⟨m', List.mem_cons_of_mem _ hm', g₀, (m.keeps_find ref g).trans hlater, hfind⟩

/-- What is found in an assembly is found in a module that it lists. -/
theorem AssemblyId.find_some {a : AssemblyId} (h : (a.find ref).run g = (some t, g')) :
    ∃ m : ModuleId, m.key ∈ g'.held .assemblyModules a.node ∧
      ∃ g₀, g.Later g₀ ∧ (m.find ref).run g₀ = (some t, g') := by
  rw [AssemblyId.find, run_bind] at h
  have hread : g.Later ((Ownership.items .assemblyModules a.node).run g).2 := keeps_items _ _ g
  obtain ⟨m, hm, g₀, hlater, hfind⟩ := AssemblyId.firstOf_some h
  obtain ⟨key, hkey, rfl⟩ := List.mem_map.mp hm
  -- the list has been read before the modules are searched
  have hafter := hlater.trans ((ModuleId.keeps_find _ _).result hfind)
  have hheld : key ∈ ((Ownership.items .assemblyModules a.node).run g).2.held .assemblyModules a.node := by
    rw [held_eq (items_read g _ a.node)]
    exact hkey
  exact ⟨⟨key⟩, hafter.held hheld, g₀, hread.trans hlater, hfind⟩

end Searching

namespace Resolver

variable {r : Resolver} {ref : TypeRefId} {source : Option ModuleId} {s s' : Resolving}
  {t : TypeDefId}

/-- A resolver that follows no forwarders gives what the assembly has. -/
theorem findInAssembly_here (hhops : r.config.maxHops = 0) {a : AssemblyId}
    (h : (r.findInAssembly ref source a).run s = (some t, s')) :
    (a.find ref).run s.graph = (some t, s'.graph) := by
  rw [findInAssembly, run_bind] at h
  cases hfind : ((inGraph (a.find ref)).run s).1 with
  | none =>
    rw [hfind, hhops] at h
    cases congrArg Prod.fst h
  | some u =>
    rw [hfind] at h
    cases h
    exact Prod.ext hfind rfl

/-- So does it give what the module has. -/
theorem findInModule_here (hhops : r.config.maxHops = 0) {m : ModuleId}
    (h : (r.findInModule ref source m).run s = (some t, s')) :
    (m.find ref).run s.graph = (some t, s'.graph) := by
  rw [findInModule, run_bind] at h
  cases hfind : ((inGraph (m.find ref)).run s).1 with
  | none =>
    rw [hfind, hhops] at h
    cases congrArg Prod.fst h
  | some u =>
    rw [hfind] at h
    cases h
    exact Prod.ext hfind rfl

/-- A module reference stands for the module that asks, or for another one in the list of its
assembly. -/
theorem referencedModule_some {mr : ModuleRefId} {current m : ModuleId} {g g' : Graph}
    (h : (referencedModule mr current).run g = (some m, g')) : m = current ∨
      ∃ a, (current.assembly.run g).1 = some a ∧ (current.assembly.run g).2.SameAssemblies g' ∧
        (current.assembly.run g).2.Later g' ∧ m.key ∈ g'.held .assemblyModules a.node := by
  rw [referencedModule, run_get_bind] at h
  split at h
  · cases h
    exact .inl rfl
  · rw [run_bind] at h
    cases ha : (current.assembly.run g).1 with
    | none =>
      rw [ha] at h
      cases h
    | some a =>
      rw [ha] at h
      let g₁ := (current.assembly.run g).2
      let read := (Ownership.items .assemblyModules a.node).run g₁
      have hsame : g₁.SameAssemblies read.2 := SameAssemblies.searches.items _ _ _
      have hlater : g₁.Later read.2 := keeps_items _ _ _
      obtain ⟨hfound, rfl⟩ : (read.1.map Id.mk).find? _ = some m ∧ read.2 = g' := Prod.mk.inj h
      obtain ⟨key, hkey, rfl⟩ := List.mem_map.mp (List.mem_of_find?_eq_some hfound)
      refine .inr ⟨a, rfl, hsame, hlater, ?_⟩
      rw [held_eq (items_read g₁ _ _)]
      exact hkey

section LookingIn

variable {outermost : TypeRefId} {asking : Option ModuleId} (hhops : r.config.maxHops = 0)

include hhops

/-- An assembly that the cache answers with goes by the name of the reference to it. -/
theorem lookIn_scopedTo_assemblyRef {c : AssemblyCache} (hsource : r.source = c.source)
    {a : AssemblyRefId} (hheld : (s.graph.get outermost).scope = some (some (.assemblyRef a)))
    (h : (r.lookIn ref asking outermost (some (.assemblyRef a))).run s = (some t, s')) :
    ∃ m g, s.graph.Later g ∧ (m.find ref).run g = (some t, s'.graph) ∧
      s'.graph.ScopedTo outermost m := by
  obtain ⟨assembly, s₁, hasked, hlooked⟩ := lookIn_assemblyRef_eq_some.mp h
  obtain ⟨hsome, hrequested⟩ := Prod.mk.inj hasked
  have hanswer : c.resolve s.graph (s.graph.get a).identity = some assembly := by
    rw [hsource] at hsome
    exact hsome
  have hfind : (assembly.find ref).run s.graph = (some t, s'.graph) := by
    have hfind := findInAssembly_here hhops hlooked
    rwa [← hrequested] at hfind
  obtain ⟨m, hlisted, g, hlater, hfound⟩ := AssemblyId.find_some hfind
  have hlast := ((assembly.keeps_find ref).result hfind).scope_held hheld
  have hanswers : (AssemblyCache.identityOf s.graph assembly).satisfies (s.graph.get a).identity =
      true := (AssemblyCache.resolve_best c s.graph _).answers assembly hanswer
  have hname : Text.Ascii.sameText (s.graph.get assembly).identity.name
      (s.graph.get a).name.lossy = true := by
    simp only [AssemblyIdentity.satisfies, Bool.and_eq_true] at hanswers
    exact hanswers.1.1.1
  have hsame := SameAssemblies.searches.findIn assembly ref s.graph
  rw [hfind] at hsame
  refine ⟨m, g, hlater, hfound, .assemblyRef hlast ?_ hlisted⟩
  rw [hsame.assembly, hsame.reference]
  exact hname

/-- A module is looked in itself. -/
theorem lookIn_scopedTo_module {m : ModuleId}
    (hheld : (s.graph.get outermost).scope = some (some (.module m)))
    (h : (r.lookIn ref asking outermost (some (.module m))).run s = (some t, s')) :
    (m.find ref).run s.graph = (some t, s'.graph) ∧ s'.graph.ScopedTo outermost m := by
  obtain ⟨hpresent, hlooked⟩ := lookIn_module_eq_some.mp h
  have hfind := findInModule_here hhops hlooked
  have hlater := (m.keeps_find ref).result hfind
  exact ⟨hfind, .module (hlater.scope_held hheld) (hlater.upgrade hpresent)⟩

/-- For a reference to a module, the module that asks is looked in or another one of its
assembly. -/
theorem lookIn_scopedTo_moduleRef {mr : ModuleRefId}
    (hheld : (s.graph.get outermost).scope = some (some (.moduleRef mr)))
    (h : (r.lookIn ref asking outermost (some (.moduleRef mr))).run s = (some t, s')) :
    ∃ m g, s.graph.Later g ∧ (m.find ref).run g = (some t, s'.graph) ∧
      s'.graph.ScopedTo outermost m := by
  obtain ⟨current, m, g, hcurrent, hmodule, hlooked⟩ := lookIn_moduleRef_eq_some.mp h
  have hfind := findInModule_here hhops hlooked
  have hread : s.graph.Later g := (keeps_referencedModule mr current).result hmodule
  have hlater := (m.keeps_find ref).result hfind
  have hheld' := (hread.trans hlater).scope_held hheld
  have hcurrent' := TypeRefId.module_later (hread.trans hlater) hcurrent
  refine ⟨m, g, hread, hfind, ?_⟩
  rcases referencedModule_some hmodule with rfl | ⟨a, ha, hsame, hassembly, hlisted⟩
  · exact .current hheld' hcurrent'
  · have hsame' := SameAssemblies.searches.find m ref g
    rw [hfind] at hsame'
    refine .sibling hheld' hcurrent' ?_ (hlater.held hlisted)
    exact (trans_of SameAssemblies hsame hsame').within ha (hassembly.trans hlater)

end LookingIn

/-- **Where a resolver looks**: in a module that the scope of the outermost reference stands for,
once it has been looked in. -/
theorem resolveType_scopedTo {c : AssemblyCache} (hsource : r.source = c.source)
    (hproject : r.projection = none) (hhops : r.config.maxHops = 0)
    (h : (r.resolveType ref source).run s = (some t, s')) :
    ∃ outermost m g, (ref.nonNested.run s.graph).1 = some outermost ∧
      (ref.nonNested.run s.graph).2.Later g ∧ (m.find ref).run g = (some t, s'.graph) ∧
      s'.graph.ScopedTo outermost m := by
  obtain ⟨outermost, g₁, scope, g₂, hnested, hscope, hlooked⟩ := resolveType_eq_some hproject h
  have hread : g₁.Later g₂ := outermost.keeps_scope.result hscope
  have hheld : (g₂.get outermost).scope = some scope := by
    have hheld := TypeRefId.scope_read g₁ outermost
    rwa [hscope] at hheld
  rw [hnested]
  rcases scope with _ | (m | mr | a | enclosing)
  · cases hlooked
  · obtain ⟨hfind, hscoped⟩ := lookIn_scopedTo_module hhops hheld hlooked
    exact ⟨outermost, m, g₂, rfl, hread, hfind, hscoped⟩
  · obtain ⟨m, g, hlater, hfind, hscoped⟩ := lookIn_scopedTo_moduleRef hhops hheld hlooked
    exact ⟨outermost, m, g, rfl, hread.trans hlater, hfind, hscoped⟩
  · obtain ⟨m, g, hlater, hfind, hscoped⟩ := lookIn_scopedTo_assemblyRef hhops hsource hheld hlooked
    exact ⟨outermost, m, g, rfl, hread.trans hlater, hfind, hscoped⟩
  · cases hlooked

end Resolver

/-! ## The name of a scope -/

section Names

open Chain

variable {g : Graph} {m : ModuleId} {t u : TypeDefId} {ts : List TypeDefId}

/-- The name of a module's scope is that of its assembly, where it has one. -/
theorem CompareOptions.moduleScope_run (g : Graph) (m : ModuleId) :
    ((moduleScope m).run g).1 = (match (m.assembly.run g).1 with
      | some a => (g.get a).identity.name
      | none => (g.get m).name.lossy) ∧
    ((moduleScope m).run g).2 = (m.assembly.run g).2 := by
  have hasked := (owner_run g .assemblyModules m.key).1
  rw [moduleScope, run_bind]
  cases (m.assembly.run g).1 with
  | some a =>
    refine ⟨?_, rfl⟩
    exact congrArg (fun e : Assembly => e.identity.name) (LazySlot.get_of_entity (hasked.entity a.node))
  | none =>
    refine ⟨?_, rfl⟩
    exact congrArg (fun e : Module => e.name.lossy) (LazySlot.get_of_entity (hasked.entity m.node))

/-- It reads alike after back-references have been asked for. -/
theorem CompareOptions.yields_moduleScope (g : Graph) (m : ModuleId) :
    Yields (TypeDefId.Asks g) (moduleScope m) ((moduleScope m).run g).1 := by
  intro g' h
  have hassembly : (m.assembly.run g').1 = (m.assembly.run g).1 :=
    congrArg (Option.map fun n : Node => (⟨n.key⟩ : AssemblyId)) (h.owner .assemblyModules m.key)
  have hasked := (owner_run g' .assemblyModules m.key).1
  rw [(moduleScope_run g' m).1, (moduleScope_run g' m).2, (moduleScope_run g m).1, hassembly]
  refine ⟨?_, h.trans (hasked.mono fun _ _ => trivial)⟩
  cases (m.assembly.run g).1 with
  | some a =>
    exact congrArg (fun e : Assembly => e.identity.name) (LazySlot.get_of_entity (h.entity a.node))
  | none =>
    exact congrArg (fun e : Module => e.name.lossy) (LazySlot.get_of_entity (h.entity m.node))

/-- The module of a type is that of the outermost type that encloses it. -/
theorem TypeDefId.yields_moduleWithin (hm : (u.ownerModule.run g).1 = some m) :
    ∀ {bound : Nat} {t : TypeDefId} {ts : List TypeDefId}, Climbs (above g) (some t) ts →
      ts.length ≤ bound + 1 → ts.getLast? = some u →
      Yields (Asks g) (t.moduleWithin bound) (some m)
  | bound, t, _ :: ts, .step habove, hbound, hlast => by
    unfold TypeDefId.moduleWithin
    refine (yields_above g t).bind ?_
    cases hup : above g t with
    | none =>
      rw [hup] at habove
      cases habove
      obtain rfl : t = u := Option.some.inj hlast
      intro g' h
      refine ⟨?_, h.trans ((owner_run g' .moduleTypes t.key).1.mono fun _ _ => trivial)⟩
      exact (congrArg (Option.map fun n : Node => (⟨n.key⟩ : ModuleId))
        (h.owner .moduleTypes t.key)).trans hm
    | some next =>
      rw [hup] at habove
      obtain ⟨x, xs, rfl⟩ : ∃ x xs, ts = x :: xs := by
        cases habove with
        | step _ => exact ⟨_, _, rfl⟩
      rw [List.getLast?_cons_cons] at hlast
      simp only [List.length_cons] at hbound
      cases bound with
      | zero => omega
      | succ n =>
        exact yields_moduleWithin hm habove (by simp only [List.length_cons]; omega) hlast

end Names

/-! ## Resolving and comparing -/

/-- Two types whose paths read as the same, and the names of whose scopes are the same up to
case, are equal in both orders. -/
theorem CompareOptions.equalTypes_of_yields {g : Graph} {r : TypeRefId} {t : TypeDefId}
    {path : TypePath} {a b : String} (hr : Yields (TypeDefId.Asks g) r.path? (some path))
    (ht : Yields (TypeDefId.Asks g) t.path? (some path))
    (ha : Yields (TypeDefId.Asks g) (scopeName? (.typeRef r)) (some a))
    (hb : Yields (TypeDefId.Asks g) (scopeName? (.typeDef t)) (some b))
    (hsame : Text.Ascii.sameText a b = true) (o : CompareOptions) :
    ((o.equalTypes (.typeRef r) (.typeDef t)).run g).1 = true ∧
      ((o.equalTypes (.typeDef t) (.typeRef r)).run g).1 = true := by
  have hasked : TypeDefId.Asks g g := Asked.refl g
  have hpathR : g.pathOf (.typeRef r) = some path := (hr g hasked).1
  have hpathT : g.pathOf (.typeDef t) = some path := (ht g hasked).1
  have hscopeR : g.scopeOf (.typeRef r) = some a := (ha g hasked).1
  have hscopeT : g.scopeOf (.typeDef t) = some b := (hb g hasked).1
  have hagree : PathsAgree o g (.typeRef r) (.typeDef t) :=
    ⟨path, hpathR, hpathT, fun _ => ⟨a, b, hscopeR, hscopeT, hsame⟩⟩
  rw [← hpathR] at hr
  rw [← hpathT] at ht
  rw [← hscopeR] at ha
  rw [← hscopeT] at hb
  obtain ⟨first, hfirst, hiff⟩ := decides_pathsAgree (o := o) hr ht ha hb
  obtain ⟨second, hsecond, hiff'⟩ := decides_pathsAgree (o := o) ht hr hb ha
  exact ⟨(hfirst g hasked).1.trans (hiff.mpr hagree),
    (hsecond g hasked).1.trans (hiff'.mpr hagree.symm)⟩

namespace Graph

/-- **The lists of modules and of types agree with the back-references.** -/
structure WellPlaced (g : Graph) : Prop extends WellNested g where
  /-- A module in the list of an assembly has that assembly. -/
  member : ∀ {a : AssemblyId} {m : ModuleId}, m.key ∈ g.held .assemblyModules a.node →
    (m.assembly.run g).1 = some a

/-- The invariant of containment makes a graph well placed. -/
theorem Sound.wellPlaced {g : Graph} (h : g.Sound) : g.WellPlaced where
  toWellNested := h.wellNested
  member hm := congrArg (Option.map fun n : Node => (⟨n.key⟩ : AssemblyId)) (h.consistent.owner hm)

/-- A module of an assembly is compared by the name of the assembly. -/
theorem WellPlaced.moduleScope {g : Graph} {a : AssemblyId} {m : ModuleId} (h : g.WellPlaced)
    (hm : m.key ∈ g.held .assemblyModules a.node) :
    ((CompareOptions.moduleScope m).run g).1 = (g.get a).identity.name := by
  rw [(CompareOptions.moduleScope_run g m).1, h.member hm]

end Graph

section Compared

variable {g : Graph} {ref outermost : TypeRefId} {rs : List TypeRefId} {m : ModuleId}

/-- A scope that is held reads alike after back-references have been asked for. -/
theorem TypeRefId.yields_scope {r : TypeRefId} {scope : Option ResolutionScope}
    (h : (g.get r).scope = some scope) : Yields (TypeDefId.Asks g) r.scope scope := by
  intro g' hasked
  have hheld : (g'.get r).scope = some scope := by
    rw [LazySlot.get_of_entity (hasked.entity r.node)]
    exact h
  rw [scope_run hheld]
  exact ⟨rfl, hasked⟩

/-- So does the outermost of the references that enclose one. -/
theorem TypeRefId.Enclosed.yields_nonNested (h : TypeRefId.Enclosed g ref rs)
    (hlast : rs.getLast? = some outermost) :
    Yields (TypeDefId.Asks g) ref.nonNested (some outermost) := by
  have hup : ∀ x ∈ rs, Yields (TypeDefId.Asks g) x.declaringType (TypeRefId.above g x) := by
    intro x hx
    obtain ⟨scope, hscope⟩ := Option.isSome_iff_exists.mp (h.read x hx)
    rw [TypeRefId.above_eq hscope]
    intro g' hasked
    rw [TypeRefId.declaringType_eq, (TypeRefId.yields_scope hscope g' hasked).1]
    exact ⟨rfl, (TypeRefId.yields_scope hscope g' hasked).2⟩
  rw [← hlast]
  exact h.climbs.outermost h.bounded hup

/-- A module is compared by its name wherever it is what a scope leads to. -/
theorem CompareOptions.yields_someScope (g : Graph) (m : ModuleId) :
    Yields (TypeDefId.Asks g) (some <$> moduleScope m) (some ((moduleScope m).run g).1) :=
  (yields_moduleScope g m).map some

/-- **The scope that a module is found by and the module have one name**, up to case. -/
theorem Graph.ScopedTo.named (h : g.ScopedTo outermost m) (placed : g.WellPlaced)
    (href : TypeRefId.Enclosed g ref rs) (hlast : rs.getLast? = some outermost)
    (hmodule : (ref.module.run g).1 = (outermost.module.run g).1) :
    ∃ name, Yields (TypeDefId.Asks g) (CompareOptions.scopeName? (.typeRef ref)) (some name) ∧
      Text.Ascii.sameText name ((CompareOptions.moduleScope m).run g).1 = true := by
  have same : ∀ name : String, Text.Ascii.sameText name name = true :=
    fun name => Text.Ascii.lower_eq_iff.mp rfl
  have belongs : ∀ {current : ModuleId}, (outermost.module.run g).1 = some current →
      Yields (TypeDefId.Asks g) ref.module (some current) := by
    intro current hcurrent g' hasked
    refine ⟨?_, hasked⟩
    rw [← hcurrent, ← hmodule]
    show g'.upgrade (g'.get ref).module = g.upgrade (g.get ref).module
    rw [LazySlot.get_of_entity (hasked.entity ref.node), upgrade, upgrade, hasked.alive]
  cases h with
  | @assemblyRef a assembly _ scope named listed =>
    refine ⟨(g.get a).name.lossy, (href.yields_nonNested hlast).bind
      ((TypeRefId.yields_scope scope).bind fun g' hasked => ⟨?_, hasked⟩), ?_⟩
    · exact congrArg (fun e : AssemblyRef => some e.name.lossy)
        (LazySlot.get_of_entity (hasked.entity a.node))
    · rw [placed.moduleScope listed, ← Text.Ascii.lower_eq_iff]
      exact (Text.Ascii.lower_eq_iff.mpr named).symm
  | module scope present =>
    refine ⟨_, (href.yields_nonNested hlast).bind
      ((TypeRefId.yields_scope scope).bind fun g' hasked => ?_), same _⟩
    have hpresent : g'.upgrade m = some m := by
      rw [upgrade, hasked.alive]
      exact present
    dsimp only
    rw [run_get_bind, hpresent]
    exact CompareOptions.yields_someScope g m g' hasked
  | current scope asks =>
    exact ⟨_, (href.yields_nonNested hlast).bind ((TypeRefId.yields_scope scope).bind
      ((belongs asks).bind (CompareOptions.yields_someScope g m))), same _⟩
  | @sibling mr current _ assembly scope asks within listed =>
    refine ⟨_, (href.yields_nonNested hlast).bind ((TypeRefId.yields_scope scope).bind
      ((belongs asks).bind (CompareOptions.yields_someScope g current))), ?_⟩
    rw [placed.moduleScope listed, (CompareOptions.moduleScope_run g current).1, within]
    exact same _

/-- The path of a reference that is read with what encloses it reads alike after back-references
have been asked for. -/
theorem TypeRefId.Enclosed.yields_path? (h : TypeRefId.Enclosed g ref rs) :
    Yields (TypeDefId.Asks g) ref.path? (some (rs.reverse.map (TypeRefId.level g))) := by
  intro g' hasked
  obtain ⟨hafter, hlevel⟩ := h.asked hasked
  rw [hafter.path?_run, hlevel]
  exact ⟨rfl, hasked⟩

/-- So does the path of a type. -/
theorem TypeDefId.Enclosed.yields_path? {t : TypeDefId} {ts : List TypeDefId}
    (h : TypeDefId.Enclosed g t ts) :
    Yields (TypeDefId.Asks g) t.path? (some (ts.reverse.map (TypeDefId.level g))) := by
  intro g' hasked
  have habove : TypeDefId.above g' = TypeDefId.above g :=
    funext fun x => (TypeDefId.yields_above g x g' hasked).1
  have hafter : TypeDefId.Enclosed g' t ts := ⟨habove ▸ h.climbs, h.bounded⟩
  obtain ⟨hpath, hasked'⟩ := hafter.path?_run
  rw [hpath, show TypeDefId.level g' = TypeDefId.level g from funext (TypeDefId.level_asked hasked)]
  exact ⟨rfl, hasked.trans hasked'⟩

/-- A type is looked for in the module that lists the outermost type around it. -/
theorem TypeDefId.Enclosed.yields_scopeName {t u : TypeDefId} {ts : List TypeDefId}
    (h : TypeDefId.Enclosed g t ts) (hlast : ts.getLast? = some u)
    (hm : (u.ownerModule.run g).1 = some m) :
    Yields (TypeDefId.Asks g) (CompareOptions.scopeName? (.typeDef t))
      (some ((CompareOptions.moduleScope m).run g).1) :=
  Yields.bind (TypeDefId.yields_moduleWithin hm h.climbs (Nat.le_succ_of_le h.bounded) hlast)
    (CompareOptions.yields_someScope g m)

end Compared

namespace Resolver

/-- **A reference resolves to a type of its scope.**  Let a resolver that follows no forwarder
ask a cache, and let all the references around one and itself belong to one module.  Then the
type that the reference resolves to is equal to it, in both orders and also where the scope
counts, if the lists that have been read by then agree with the back-references. -/
theorem resolveType_scope (r : Resolver) (c : AssemblyCache) (hsource : r.source = c.source)
    (hproject : r.projection = none) (hhops : r.config.maxHops = 0) (ref : TypeRefId)
    (source : Option ModuleId) (s s' : Resolving) (t : TypeDefId) (m : ModuleId)
    (closed : s.graph.Closed) (h : (r.resolveType ref source).run s = (some t, s'))
    (placed : s'.graph.WellPlaced)
    (belong : ∀ chain, (ref.nestingChain.run s'.graph).1 = some chain →
      ∀ x ∈ chain, (x.module.run s'.graph).1 = some m) (o : CompareOptions) :
    ((o.equalTypes (.typeRef ref) (.typeDef t)).run s'.graph).1 = true ∧
      ((o.equalTypes (.typeDef t) (.typeRef ref)).run s'.graph).1 = true := by
  obtain ⟨outermost, within, g, hnested, hlater, hfind, hscoped⟩ :=
    resolveType_scopedTo hsource hproject hhops h
  have hclosed : g.Closed :=
    closed.later ((ref.keeps_nonNested s.graph).trans hlater)
  obtain ⟨rs, ts, u, href, htype, hsame, hu, hlisted⟩ :=
    ModuleId.find_enclosed hfind hclosed placed.toWellNested
  have hlast : rs.getLast? = some outermost :=
    href.last hnested (hlater.trans ((within.keeps_find ref).result hfind))
  have hmodule : ∀ x ∈ rs, (x.module.run s'.graph).1 = some m := fun x hx =>
    belong rs.reverse (by rw [href.nestingChain_run]) x (List.mem_reverse.mpr hx)
  have hself : ref ∈ rs := by
    cases href.climbs with
    | step _ => exact List.mem_cons_self
  have hasker : (ref.module.run s'.graph).1 = (outermost.module.run s'.graph).1 := by
    rw [hmodule ref hself, hmodule outermost (List.mem_of_getLast? hlast)]
  obtain ⟨name, hname, hagree⟩ := hscoped.named placed href hlast hasker
  have htop := htype.yields_scopeName hu (placed.top hlisted).1
  have hpath := htype.yields_path?
  rw [List.map_reverse, hsame, ← List.map_reverse] at hpath
  exact CompareOptions.equalTypes_of_yields href.yields_path? hpath hname htop hagree o

/-! ## Names in other letters -/

/-- The module of the two types is in an assembly, and a nested reference to the inner type is
scoped to that assembly by its name in other letters. -/
def otherLetters : Graph :=
  let g := ((makeAssembly ⟨"Lib", ⟨1, 0, 0, 0⟩, none, none⟩).run innerType).2
  let g := ((makeAssemblyRef ⟨"LIB", ⟨1, 0, 0, 0⟩, none, none⟩ 0).run g).2
  let g := (Ownership.Action.add .assemblyModules ⟨.assembly, .built 5⟩ (.built 0)).apply g
  let g := ((makeTypeRef ⟨.built 0⟩ ⟨[78]⟩ ⟨[79]⟩ (some (.assemblyRef ⟨.built 6⟩))).run g).2
  ((makeTypeRef ⟨.built 0⟩ .empty ⟨[73]⟩ (some (.typeRef ⟨.built 7⟩))).run g).2

theorem otherLetters_reached : Graph.empty.Reaches otherLetters := by
  have hassembly : InMemory .assembly
      (⟨0, .inMemory, ⟨"Lib", ⟨1, 0, 0, 0⟩, none, none⟩, HashAlgorithm.sha1, 0⟩ : Assembly) :=
    ⟨fun _ _ => by rintro ⟨⟩, fun m hm => by cases hm⟩
  have hlib : InMemory .assemblyRef (⟨0, Token.ofParts .assemblyRef 0, .ofString "LIB",
      ⟨1, 0, 0, 0⟩, none, none, AssemblyFlags.withKey false 0, []⟩ : AssemblyRef) :=
    ⟨fun _ _ => by rintro ⟨⟩, fun m hm => by cases hm⟩
  have href : ∀ space name scope, InMemory .typeRef
      (⟨0, .inMemory, ⟨.built 0⟩, space, name, scope⟩ : TypeRef) :=
    fun _ _ _ => ⟨fun _ _ => by rintro ⟨⟩, fun m hm => by cases hm⟩
  have hmade := (innerType_reached.make .assembly hassembly).make .assemblyRef hlib
  have hlisted := hmade.action (.add .assemblyModules ⟨.assembly, .built 5⟩ (.built 0))
    ⟨⟨by decide +kernel, by decide⟩, by decide +kernel⟩
  have houter := hlisted.make .typeRef (href ⟨[78]⟩ ⟨[79]⟩ (some (some (.assemblyRef ⟨.built 6⟩))))
  exact houter.make .typeRef (href .empty ⟨[73]⟩ (some (some (.typeRef ⟨.built 7⟩))))

/-- The cache in which the assembly is registered. -/
def letterCache : AssemblyCache := AssemblyCache.empty.register otherLetters ⟨.built 5⟩

/-- The resolver over a cache that replaces nothing and follows no forwarder. -/
def direct (c : AssemblyCache) : Resolver := ⟨c.source, none, { maxHops := 0 }⟩

/-- The reference resolves to the type in the assembly that writes its name otherwise, and is equal
to it where the scope counts. -/
theorem resolveType_otherLetters :
    let asked : List AssemblyRequest := [⟨⟨"LIB", ⟨1, 0, 0, 0⟩, none, none⟩, some ⟨.built 0⟩⟩]
    otherLetters.Closed ∧ otherLetters.WellPlaced ∧
      ((direct letterCache).resolveType ⟨.built 8⟩ none).run ⟨otherLetters, []⟩ =
        (some ⟨.built 2⟩, ⟨otherLetters, asked⟩) ∧
      ((TypeRefId.nestingChain ⟨.built 8⟩).run otherLetters).1 =
        some [⟨.built 7⟩, ⟨.built 8⟩] ∧
      ((CompareOptions.equalTypes { scope := true } (.typeRef ⟨.built 8⟩)
        (.typeDef ⟨.built 2⟩)).run otherLetters).1 = true := by
  intro asked
  have hsound := (otherLetters_reached.kept empty_sound).sound
  have hresolved : ((direct letterCache).resolveType ⟨.built 8⟩ none).run ⟨otherLetters, []⟩ =
      (some ⟨.built 2⟩, ⟨otherLetters, asked⟩) := rfl
  have hchain : ((TypeRefId.nestingChain ⟨.built 8⟩).run otherLetters).1 =
      some [⟨.built 7⟩, ⟨.built 8⟩] := rfl
  have hbelong : ∀ chain, ((TypeRefId.nestingChain ⟨.built 8⟩).run otherLetters).1 = some chain →
      ∀ x ∈ chain, (x.module.run otherLetters).1 = some ⟨.built 0⟩ := by
    intro chain h x hx
    obtain rfl := Option.some.inj (hchain.symm.trans h)
    simp only [List.mem_cons, List.not_mem_nil, or_false] at hx
    rcases hx with rfl | rfl <;> rfl
  have hequal := resolveType_scope (direct letterCache) letterCache rfl rfl rfl ⟨.built 8⟩ none
    ⟨otherLetters, []⟩ ⟨otherLetters, asked⟩ ⟨.built 2⟩ ⟨.built 0⟩ hsound.closed hresolved
    hsound.wellPlaced hbelong { scope := true }
  exact ⟨hsound.closed, hsound.wellPlaced, hresolved, hchain, hequal.1⟩

end Resolver
end CliMetadata
