import CliMetadata.Proofs.Resolution.Steps

/-!
# Chains of forwarders

A reference that is scoped to an assembly is looked for there and, where the
assembly does not have the type, in the assembly that its first matching exported
type leads to, and so on.  `Resolver.followForwarders` is this walk with the
look-ups of one round in the middle of each step; here it is read from look-up to
look-up (`findWithin`): an assembly either has the type, or **one hop**
(`forwardedFrom`) leads on to the next.

Every look-up may read more of the graph, and every hop asks the source for an
assembly, which may answer by all that it has been asked before.  `stateAt` is
what the walk along a given sequence of assemblies has come to when it arrives at
one of them, and `HopsAt` says of one place in the sequence that the assembly
there does not have the type and that its hop leads to the next.

**The bound is exact**: a type at the end of `n` hops is found by a resolver that
follows at least `n`, and by no other; a sequence without an end, whether it comes
back to an assembly or not, gives nothing under any bound.
-/

namespace CliMetadata
namespace Resolver

open Stateful

variable (r : Resolver) (ref : TypeRefId) (source : Option ModuleId)

/-! ## The walk, look-up by look-up -/

/-- The assembly that the outermost level of a reference is scoped to. -/
def scopeAssembly : ResolveM (Option AssemblyId) := do
  match ← inGraph ref.nonNested with
  | none => return none
  | some outermost =>
    match ← inGraph outermost.scope with
    | some (.assemblyRef a) => r.resolveAssembly ((← get).graph.get a).identity source
    | _ => return none

/-- The assembly that the first exported type matching a reference, among those of
some modules, is defined in. -/
def forwardedTo (ms : List ModuleId) : ResolveM (Option AssemblyId) := do
  match ← inGraph (findForwarder ms ref) with
  | none => return none
  | some exported =>
    match ← inGraph exported.definitionAssembly with
    | none => return none
    | some definition =>
      r.resolveAssembly (definitionIdentity (← get).graph definition) source

/-- One hop from an assembly. -/
def forwardedFrom (a : AssemblyId) : ResolveM (Option AssemblyId) := do
  r.forwardedTo ref source (← inGraph a.modules)

/-- The type that a reference names in an assembly or at the end of at most `hops`
hops from it. -/
def findWithin (hops : Nat) (a : AssemblyId) : ResolveM (Option TypeDefId) := do
  match ← inGraph (a.find ref) with
  | some t => return some t
  | none => followForwarders r ref source hops (← inGraph a.modules)

theorem followForwarders_succ (hops : Nat) (ms : List ModuleId) :
    r.followForwarders ref source (hops + 1) ms = (do
      match ← r.forwardedTo ref source ms with
      | none => return none
      | some a => r.findWithin ref source hops a) := by
  rw [followForwarders, forwardedTo, bind_assoc]
  refine bind_congr fun found => ?_
  cases found with
  | none => rfl
  | some exported =>
    rw [bind_assoc]
    refine bind_congr fun definition => ?_
    cases definition with
    | none => rfl
    | some definition => rfl

/-- An assembly that has the type ends the walk, whatever the bound. -/
theorem findWithin_found {s : Resolving} {a : AssemblyId} {t : TypeDefId}
    (h : ((inGraph (a.find ref)).run s).1 = some t) (hops : Nat) :
    ((r.findWithin ref source hops a).run s).1 = some t := by
  rw [findWithin, run_bind, h]
  rfl

/-- Without hops left, an assembly that does not have the type gives nothing. -/
theorem findWithin_zero {s : Resolving} {a : AssemblyId}
    (h : ((inGraph (a.find ref)).run s).1 = none) :
    ((r.findWithin ref source 0 a).run s).1 = none := by
  rw [findWithin, run_bind, h]
  rfl

/-- With hops left, the walk goes on from where one hop leads. -/
theorem findWithin_succ {s : Resolving} {a b : AssemblyId}
    (h : ((inGraph (a.find ref)).run s).1 = none)
    (hb : ((r.forwardedFrom ref source a).run ((inGraph (a.find ref)).run s).2).1 = some b)
    (hops : Nat) :
    ((r.findWithin ref source (hops + 1) a).run s).1 =
      ((r.findWithin ref source hops b).run
        ((r.forwardedFrom ref source a).run ((inGraph (a.find ref)).run s).2).2).1 := by
  rw [findWithin, run_bind, h]
  show ((inGraph a.modules >>= r.followForwarders ref source (hops + 1)).run _).1 = _
  rw [run_bind, followForwarders_succ, run_bind]
  rw [forwardedFrom, run_bind] at hb
  rw [hb]
  rfl

/-! ## Walks along a sequence -/

/-- The module that a reference is resolved for: the one that asks, else its own. -/
def asker (s : Resolving) : Option ModuleId := source.or (ref.module.run s.graph).1

/-- What resolving a reference has come to when it arrives at a place of a sequence
of assemblies: the scope has been resolved, and for each place before that one the
assembly has been searched and its hop followed. -/
def stateAt (s : Resolving) (assemblies : Nat → AssemblyId) : Nat → Resolving
  | 0 => ((r.scopeAssembly ref (asker ref source s)).run s).2
  | i + 1 =>
    ((r.forwardedFrom ref (asker ref source s) (assemblies i)).run
      ((inGraph ((assemblies i).find ref)).run (stateAt s assemblies i)).2).2

/-- What the look-up at a place of a sequence gives. -/
def lookupAt (s : Resolving) (assemblies : Nat → AssemblyId) (i : Nat) : Option TypeDefId :=
  ((inGraph ((assemblies i).find ref)).run (r.stateAt ref source s assemblies i)).1

/-- The assembly at a place of a sequence does not have the type, and its hop leads
to the next. -/
structure HopsAt (s : Resolving) (assemblies : Nat → AssemblyId) (i : Nat) : Prop where
  absent : r.lookupAt ref source s assemblies i = none
  leads : ((r.forwardedFrom ref (asker ref source s) (assemblies i)).run
    ((inGraph ((assemblies i).find ref)).run (r.stateAt ref source s assemblies i)).2).1 =
      some (assemblies (i + 1))

variable {r ref source} {s : Resolving} {assemblies : Nat → AssemblyId}

/-- One hop along the sequence takes one from the bound. -/
theorem HopsAt.findWithin_succ {i : Nat} (h : r.HopsAt ref source s assemblies i) (hops : Nat) :
    ((r.findWithin ref (asker ref source s) (hops + 1) (assemblies i)).run
        (r.stateAt ref source s assemblies i)).1 =
      ((r.findWithin ref (asker ref source s) hops (assemblies (i + 1))).run
        (r.stateAt ref source s assemblies (i + 1))).1 :=
  Resolver.findWithin_succ r ref _ h.absent h.leads hops

/-- Where a sequence has the type `n` places further on, it is found exactly under a
bound of at least `n`. -/
theorem findWithin_sequence {t : TypeDefId} (n : Nat) : ∀ i hops,
    (∀ j, i ≤ j → j < i + n → r.HopsAt ref source s assemblies j) →
    r.lookupAt ref source s assemblies (i + n) = some t →
    ((r.findWithin ref (asker ref source s) hops (assemblies i)).run
      (r.stateAt ref source s assemblies i)).1 = if n ≤ hops then some t else none := by
  induction n with
  | zero =>
    intro i hops _ ht
    rw [if_pos (Nat.zero_le hops)]
    exact findWithin_found r ref _ ht hops
  | succ n ih =>
    intro i hops hj ht
    have here := hj i (Nat.le_refl i) (by omega)
    cases hops with
    | zero =>
      rw [if_neg (by omega)]
      exact findWithin_zero r ref _ here.absent
    | succ hops =>
      rw [here.findWithin_succ, ih (i + 1) hops (fun j hl hu => hj j (by omega) (by omega))
        (by rw [Nat.add_right_comm]; exact ht)]
      simp only [Nat.add_le_add_iff_right]

/-- A sequence that hops on for ever has the type nowhere within any bound. -/
theorem findWithin_endless (h : ∀ i, r.HopsAt ref source s assemblies i) (hops : Nat) : ∀ i,
    ((r.findWithin ref (asker ref source s) hops (assemblies i)).run
      (r.stateAt ref source s assemblies i)).1 = none := by
  induction hops with
  | zero =>
    intro i
    exact findWithin_zero r ref _ (h i).absent
  | succ hops ih =>
    intro i
    rw [(h i).findWithin_succ]
    exact ih (i + 1)

/-- Without a projection, a reference scoped to an assembly is looked for from there
on, as far as the resolver's bound allows. -/
theorem resolveType_scoped (hp : r.projection = none)
    (h : ((r.scopeAssembly ref (asker ref source s)).run s).1 = some (assemblies 0)) :
    ((r.resolveType ref source).run s).1 =
      ((r.findWithin ref (asker ref source s) r.config.maxHops (assemblies 0)).run
        (r.stateAt ref source s assemblies 0)).1 := by
  rw [stateAt]
  rw [scopeAssembly, run_bind] at h ⊢
  rcases houtermost : ref.nonNested.run s.graph with ⟨_ | outermost, g₁⟩
  · rw [inGraph_run houtermost] at h
    cases h
  · rw [inGraph_run houtermost] at h ⊢
    dsimp only at h ⊢
    rcases hscope : outermost.scope.run g₁ with ⟨scope, g₂⟩
    rw [run_bind, inGraph_run hscope] at h ⊢
    rw [resolveType_lookIn hp houtermost hscope, ← asker]
    -- no other scope is resolved to an assembly
    rcases scope with _ | (m | mr | a | enclosing)
    · cases h
    · cases h
    · cases h
    · have hanswer : (r.resolveAssembly (g₂.get a).identity (asker ref source s)).run
          ⟨g₂, s.requests⟩ = (some (assemblies 0), _) := Prod.ext h rfl
      rw [lookIn, run_get_bind, run_elim hanswer]
      rfl
    · cases h

/-- **Forwarders are followed exactly as far as the bound says.**  Let a reference be
scoped to an assembly that the source resolves to the first of a sequence.  If `n`
assemblies hop on, each to the next, and the one after them has the type, it is the
answer for a bound of at least `n` and there is none for a smaller one; if all of the
sequence hop on, there is none for any bound. -/
theorem resolveType_follows_sequence (r : Resolver) (hp : r.projection = none)
    (ref : TypeRefId) (source : Option ModuleId) (s : Resolving) (assemblies : Nat → AssemblyId)
    (hscope : ((r.scopeAssembly ref (asker ref source s)).run s).1 = some (assemblies 0)) :
    (∀ n t, (∀ i, i < n → r.HopsAt ref source s assemblies i) →
      r.lookupAt ref source s assemblies n = some t →
      ((r.resolveType ref source).run s).1 = if n ≤ r.config.maxHops then some t else none) ∧
    ((∀ i, r.HopsAt ref source s assemblies i) →
      ((r.resolveType ref source).run s).1 = none) := by
  rw [resolveType_scoped hp hscope]
  constructor
  · intro n t hn ht
    refine findWithin_sequence n 0 _ (fun j _ hj => hn j (by omega)) ?_
    rw [Nat.zero_add]
    exact ht
  · intro h
    exact findWithin_endless h _ 0

/-! ## Two assemblies -/

/-- A graph of two assemblies with a module each.  The first has no types and exports
one by a reference to an assembly, and the second has that type. -/
def twoAssemblies : Graph :=
  ((do
    let m : ModuleId ← make .module ⟨0, .inMemory, .empty, Guid.zero, none, none, some []⟩
    let a ← makeAssembly default
    let _ ← Ownership.add .assemblyModules a.node m.key
    let outside ← makeAssemblyRef default 0
    let _ ← makeTypeRef m .empty .empty (some (.assemblyRef outside))
    let exported ← makeExportedType m .empty .empty 0 (some (.assemblyRef outside))
    modify (m.exportedTypesSlot.publish [exported])
    let m' : ModuleId ← make .module ⟨0, .inMemory, .empty, Guid.zero, none, some [], some []⟩
    let b ← makeAssembly default
    let _ ← Ownership.add .assemblyModules b.node m'.key
    let t ← makeTypeDef .empty .empty 0
    let _ ← Ownership.add .moduleTypes m'.node t.key
    return ()
    : GraphM Unit).run Graph.empty).2

/-- A resolver over the two assemblies.  Its source answers the first request with the
first assembly, and later ones with the second or, where it `turns` back, with the
first again. -/
def overTwoAssemblies (turns : Bool) (hops : Nat) : Resolver where
  source _ asked _ := if turns || asked.isEmpty then some ⟨.built 1⟩ else some ⟨.built 6⟩
  projection := none
  config := ⟨false, hops⟩

/-- Arriving anywhere in a sequence that turns back for ever leaves the graph as it is. -/
theorem stateAt_turning (i : Nat) : ∃ requests,
    (overTwoAssemblies true 30).stateAt ⟨.built 3⟩ none ⟨twoAssemblies, []⟩
      (fun _ => ⟨.built 1⟩) i = ⟨twoAssemblies, requests⟩ := by
  induction i with
  | zero => exact ⟨_, rfl⟩
  | succ i ih =>
    obtain ⟨requests, h⟩ := ih
    rw [stateAt, h]
    exact ⟨_, rfl⟩

theorem hopsAt_turning (i : Nat) :
    (overTwoAssemblies true 30).HopsAt ⟨.built 3⟩ none ⟨twoAssemblies, []⟩
      (fun _ => ⟨.built 1⟩) i := by
  obtain ⟨requests, h⟩ := stateAt_turning i
  constructor
  · rw [lookupAt, h]
    rfl
  · rw [h]
    rfl

/-- The first assembly, and then always the second. -/
def firstThenSecond : Nat → AssemblyId
  | 0 => ⟨.built 1⟩
  | _ + 1 => ⟨.built 6⟩

/-- The type of the second assembly is found under a bound of one and not under a bound
of none; a sequence that turns back has it nowhere. -/
theorem resolveType_twoAssemblies :
    (((overTwoAssemblies false 1).resolveType ⟨.built 3⟩ none).run ⟨twoAssemblies, []⟩).1 =
      some ⟨.built 7⟩ ∧
    (((overTwoAssemblies false 0).resolveType ⟨.built 3⟩ none).run ⟨twoAssemblies, []⟩).1 =
      none ∧
    (((overTwoAssemblies true 30).resolveType ⟨.built 3⟩ none).run ⟨twoAssemblies, []⟩).1 =
      none := by
  have hops : ∀ bound i, i < 1 → (overTwoAssemblies false bound).HopsAt ⟨.built 3⟩ none
      ⟨twoAssemblies, []⟩ firstThenSecond i := by
    intro bound i hi
    obtain rfl : i = 0 := by omega
    exact ⟨rfl, rfl⟩
  refine ⟨?_, ?_, ?_⟩
  · exact (resolveType_follows_sequence _ rfl ⟨.built 3⟩ none ⟨twoAssemblies, []⟩ firstThenSecond
      (by decide +kernel)).1 1 ⟨.built 7⟩ (hops 1) (by decide +kernel)
  · exact (resolveType_follows_sequence _ rfl ⟨.built 3⟩ none ⟨twoAssemblies, []⟩ firstThenSecond
      (by decide +kernel)).1 1 ⟨.built 7⟩ (hops 0) (by decide +kernel)
  · exact (resolveType_follows_sequence _ rfl ⟨.built 3⟩ none ⟨twoAssemblies, []⟩
      (fun _ => ⟨.built 1⟩) (by decide +kernel)).2 hopsAt_turning

end Resolver
end CliMetadata
