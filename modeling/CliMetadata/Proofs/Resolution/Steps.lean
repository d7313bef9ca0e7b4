import CliMetadata.Proofs.Graph.Later
import CliMetadata.Resolution

/-!
# Resolving, one step after the other

A resolver first puts another reference in the place of the one that is asked for.  A reference
to a type is then looked up (`Resolver.lookUp`): the scope of the outermost reference around it
says where (`Resolver.lookIn`).  A reference to a member is looked up in the type that its class
resolves to, unless its class is a method, which is what it resolves to itself
(`Resolver.memberOf`).

Each step goes on with what the one before it gives, if that gives anything, so a run that ends
with something is a run of each of them (`Stateful.run_elim_eq_some`).  What a resolver does is
unfolded here and nowhere else: a proof that follows it takes the step that it is about.
-/

namespace CliMetadata

open Stateful

/-! ## Computations that may give nothing -/

/-- **What goes on with what comes before gives something where both do.** -/
theorem Stateful.run_elim_eq_some {σ α β : Type} {x : StateM σ (Option α)}
    {f : α → StateM σ (Option β)} {s s' : σ} {b : β} :
    (x >>= fun a? => a?.elim (pure none) f).run s = (some b, s') ↔
      ∃ a s₁, x.run s = (some a, s₁) ∧ (f a).run s₁ = (some b, s') := by
  rw [run_bind]
  rcases x.run s with ⟨_ | a, s₁⟩
  · exact ⟨nofun, nofun⟩
  · constructor
    · exact fun h => ⟨a, s₁, rfl, h⟩
    · rintro ⟨_, _, ⟨⟩, h⟩
      exact h

/-- What comes before is gone on with. -/
theorem Stateful.run_elim {σ α β : Type} {x : StateM σ (Option α)} {f : α → StateM σ (Option β)}
    {s s₁ : σ} {a : α} (h : x.run s = (some a, s₁)) :
    (x >>= fun a? => a?.elim (pure none) f).run s = (f a).run s₁ := by
  rw [run_bind, h]
  rfl

theorem inGraph_run {α : Type} {y : GraphM α} {s : Resolving} {g : Graph} {a : α}
    (h : y.run s.graph = (a, g)) : (inGraph y).run s = (a, ⟨g, s.requests⟩) := by
  show ((y.run s.graph).1, { s with graph := (y.run s.graph).2 }) = _
  rw [h]

theorem inGraph_eq_some {α : Type} {y : GraphM α} {s s' : Resolving} {a : α}
    (h : (inGraph y).run s = (a, s')) : ∃ g, y.run s.graph = (a, g) ∧ s' = ⟨g, s.requests⟩ := by
  cases h
  exact ⟨_, rfl, rfl⟩

namespace Resolver

/-! ## The steps -/

section Steps

variable (r : Resolver)

/-- Looks a reference up where the scope of its outermost level says. -/
def lookIn (ref : TypeRefId) (asking : Option ModuleId) (outermost : TypeRefId) :
    Option ResolutionScope → ResolveM (Option TypeDefId)
  | some (.assemblyRef a) => get >>= fun s =>
    r.resolveAssembly (s.graph.get a).identity asking >>= fun a =>
      a.elim (pure none) (r.findInAssembly ref asking)
  | some (.module m) => get >>= fun s =>
    (s.graph.upgrade m).elim (pure none) (r.findInModule ref asking)
  | some (.moduleRef mr) => inGraph outermost.module >>= fun current =>
    current.elim (pure none) fun current => inGraph (referencedModule mr current) >>= fun m =>
      m.elim (pure none) (r.findInModule ref asking)
  | _ => return none

/-- Looks a reference up as it is, without another one in its place. -/
def lookUp (ref : TypeRefId) (asking : Option ModuleId) : ResolveM (Option TypeDefId) :=
  inGraph ref.module >>= fun own => inGraph ref.nonNested >>= fun outermost =>
    outermost.elim (pure none) fun outermost => inGraph outermost.scope >>= fun scope =>
      r.lookIn ref (asking.or own) outermost scope

/-- A reference is looked up in place of the one that is asked for. -/
theorem resolveType_eq (ref : TypeRefId) (asking : Option ModuleId) :
    r.resolveType ref asking = r.projectType ref >>= fun ref => r.lookUp ref asking := by
  refine bind_congr fun ref => bind_congr fun own => bind_congr fun outermost => ?_
  cases outermost with
  | none => rfl
  | some outermost =>
    refine bind_congr fun scope => ?_
    rcases scope with _ | (m | mr | a | enclosing)
    · rfl
    · refine bind_congr fun s => ?_
      cases s.graph.upgrade m <;> rfl
    · refine bind_congr fun current => ?_
      cases current with
      | none => rfl
      | some current =>
        refine bind_congr fun m => ?_
        cases m <;> rfl
    · refine bind_congr fun s => bind_congr fun a => ?_
      cases a <;> rfl
    · rfl

/-- Looks a member up in what its parent resolves to. -/
def memberIn (m : MemberRefId) (p : MemberParent) : ResolveM (Option MemberDef) :=
  inGraph m.module >>= fun asking => r.resolveParent asking p >>= fun t => t.elim (pure none) fun t =>
    inGraph m.sig >>= fun sig => sig.elim (pure none) fun sig =>
      get >>= fun s => r.findMember (s.graph.get m).name.lossy sig recursionBound t

/-- What a reference with a parent resolves to: a method that is its parent, or a member looked up. -/
def memberOf (m : MemberRefId) : MemberParent → ResolveM (Option MemberDef)
  | .methodDef d => return some (.method d)
  | p => r.memberIn m p

theorem resolveMember_split (m : MemberRefId) :
    r.resolveMember m = r.projectMember m >>= fun m => inGraph m.parent >>= fun p =>
      p.elim (pure none) (r.memberOf m) := by
  refine bind_congr fun m => bind_congr fun p => ?_
  cases p with
  | none => rfl
  | some p =>
    cases p with
    | methodDef d => rfl
    | typeDef _ | typeRef _ | typeSpec _ | moduleRef _ =>
      refine bind_congr fun asking => bind_congr fun t => ?_
      cases t with
      | none => rfl
      | some t =>
        refine bind_congr fun sig => ?_
        cases sig <;> rfl

end Steps

/-! ## References to types -/

section Types

variable {r : Resolver} {ref outermost : TypeRefId} {asking : Option ModuleId} {s s' : Resolving}
  {t : TypeDefId} {scope : Option ResolutionScope} {g₁ g₂ : Graph}

theorem projectType_none (hr : r.projection = none) (ref : TypeRefId) :
    r.projectType ref = pure ref := by
  rw [projectType, hr]

/-- Where nothing is put in its place, a reference is looked up where the scope of the outermost
one around it says. -/
theorem resolveType_lookIn (hr : r.projection = none)
    (houtermost : ref.nonNested.run s.graph = (some outermost, g₁))
    (hscope : outermost.scope.run g₁ = (scope, g₂)) :
    (r.resolveType ref asking).run s =
      (r.lookIn ref (asking.or (ref.module.run s.graph).1) outermost scope).run ⟨g₂, s.requests⟩ := by
  have hown : (inGraph ref.module).run s = ((ref.module.run s.graph).1, s) := rfl
  rw [resolveType_eq, projectType_none hr, pure_bind, lookUp, run_bind, hown,
    run_elim (inGraph_run houtermost), run_bind, inGraph_run hscope]

/-- What a reference resolves to is looked up where the scope of the outermost one says. -/
theorem resolveType_eq_some (hr : r.projection = none)
    (h : (r.resolveType ref asking).run s = (some t, s')) :
    ∃ outermost g₁ scope g₂, ref.nonNested.run s.graph = (some outermost, g₁) ∧
      outermost.scope.run g₁ = (scope, g₂) ∧
      (r.lookIn ref (asking.or (ref.module.run s.graph).1) outermost scope).run ⟨g₂, s.requests⟩ =
        (some t, s') := by
  have hown : (inGraph ref.module).run s = ((ref.module.run s.graph).1, s) := rfl
  have hrun := h
  rw [resolveType_eq, projectType_none hr, pure_bind, lookUp, run_bind, hown] at hrun
  obtain ⟨outermost, _, hnested, -⟩ := run_elim_eq_some.mp hrun
  obtain ⟨g₁, houtermost, -⟩ := inGraph_eq_some hnested
  exact ⟨outermost, g₁, _, _, houtermost, rfl, (resolveType_lookIn hr houtermost rfl).symm.trans h⟩

/-- An assembly is looked in if the source answers with it. -/
theorem lookIn_assemblyRef_eq_some {a : AssemblyRefId} :
    (r.lookIn ref asking outermost (some (.assemblyRef a))).run s = (some t, s') ↔
      ∃ assembly s₁, (r.resolveAssembly (s.graph.get a).identity asking).run s =
          (some assembly, s₁) ∧
        (r.findInAssembly ref asking assembly).run s₁ = (some t, s') := by
  rw [lookIn, run_get_bind, run_elim_eq_some]

/-- A module is looked in if it is still there. -/
theorem lookIn_module_eq_some {m : ModuleId} :
    (r.lookIn ref asking outermost (some (.module m))).run s = (some t, s') ↔
      s.graph.upgrade m = some m ∧ (r.findInModule ref asking m).run s = (some t, s') := by
  rw [lookIn, run_get_bind, Graph.upgrade]
  split
  · exact ⟨fun h => ⟨rfl, h⟩, And.right⟩
  · exact ⟨nofun, nofun⟩

/-- The module that a reference to one stands for is looked in, if there is one. -/
theorem lookIn_moduleRef_eq_some {mr : ModuleRefId} :
    (r.lookIn ref asking outermost (some (.moduleRef mr))).run s = (some t, s') ↔
      ∃ current m g, (outermost.module.run s.graph).1 = some current ∧
        (referencedModule mr current).run s.graph = (some m, g) ∧
        (r.findInModule ref asking m).run ⟨g, s.requests⟩ = (some t, s') := by
  rw [lookIn, run_elim_eq_some]
  constructor
  · rintro ⟨current, s₁, hasked, h⟩
    -- what a reference belongs to is a column of it, so nothing is read
    obtain ⟨hcurrent, rfl⟩ : (outermost.module.run s.graph).1 = some current ∧ s = s₁ :=
      Prod.mk.inj hasked
    obtain ⟨m, s₂, hread, hfind⟩ := run_elim_eq_some.mp h
    obtain ⟨g, hmodule, rfl⟩ := inGraph_eq_some hread
    exact ⟨current, m, g, hcurrent, hmodule, hfind⟩
  · rintro ⟨current, m, g, hcurrent, hmodule, hfind⟩
    exact ⟨current, s, Prod.ext hcurrent rfl, run_elim_eq_some.mpr ⟨m, _, inGraph_run hmodule, hfind⟩⟩

end Types

/-! ## References to members -/

section Members

variable {r : Resolver} {m taken : MemberRefId} {parent : MemberParent} {s s' s₁ s₂ : Resolving}
  {source : Option ModuleId} {t : TypeDefId} {sig : Signature TypeDefOrRef} {x : MemberDef}
  {g₁ g₂ g₃ : Graph}

theorem projectMember_none (hr : r.projection = none) (m : MemberRefId) :
    r.projectMember m = pure m := by
  rw [projectMember, hr]

/-- A reference to a member resolves to what its class makes of the one in its place. -/
theorem resolveMember_memberOf (hproject : (r.projectMember m).run s = (taken, s₁))
    (hparent : taken.parent.run s₁.graph = (some parent, g₁)) :
    (r.resolveMember m).run s = (r.memberOf taken parent).run ⟨g₁, s₁.requests⟩ := by
  rw [resolveMember_split, run_bind, hproject, run_elim (inGraph_run hparent)]

theorem memberOf_eq (h : ∀ method, parent ≠ .methodDef method) :
    r.memberOf m parent = r.memberIn m parent := by
  cases parent with
  | methodDef method => exact absurd rfl (h method)
  | typeDef _ | typeRef _ | typeSpec _ | moduleRef _ => rfl

/-- A member is looked up in the type that its class resolves to. -/
theorem memberIn_run (hmodule : m.module.run s.graph = (source, g₁))
    (hparent : (r.resolveParent source parent).run ⟨g₁, s.requests⟩ = (some t, s₂))
    (hsig : m.sig.run s₂.graph = (some sig, g₂)) :
    (r.memberIn m parent).run s =
      (r.findMember (g₂.get m).name.lossy sig recursionBound t).run ⟨g₂, s₂.requests⟩ := by
  rw [memberIn, run_bind, inGraph_run hmodule, run_elim hparent, run_elim (inGraph_run hsig),
    run_get_bind]

/-- A member of a type is looked up in that type. -/
theorem resolveMember_typeDef (hproject : (r.projectMember m).run s = (taken, s₁))
    (hparent : taken.parent.run s₁.graph = (some (.typeDef t), g₁))
    (hsig : taken.sig.run g₁ = (some sig, g₂)) :
    (r.resolveMember m).run s =
      (r.findMember (g₂.get taken).name.lossy sig recursionBound t).run ⟨g₂, s₁.requests⟩ := by
  have hdeclared : (r.resolveParent (taken.module.run g₁).1 (.typeDef t)).run ⟨g₁, s₁.requests⟩ =
      (some t, ⟨g₁, s₁.requests⟩) := rfl
  have hlooked := memberIn_run (s := ⟨g₁, s₁.requests⟩) rfl hdeclared hsig
  rw [resolveMember_memberOf hproject hparent]
  exact hlooked

/-- Whatever is found has been looked up in such a type. -/
theorem memberIn_eq_some (h : (r.memberIn m parent).run s = (some x, s')) :
    ∃ source g₁ t s₂ sig g₂, m.module.run s.graph = (source, g₁) ∧
      (r.resolveParent source parent).run ⟨g₁, s.requests⟩ = (some t, s₂) ∧
      m.sig.run s₂.graph = (some sig, g₂) := by
  rw [memberIn, run_bind] at h
  obtain ⟨t, s₂, hparent, h⟩ := run_elim_eq_some.mp h
  obtain ⟨sig, _, hread, -⟩ := run_elim_eq_some.mp h
  obtain ⟨g₂, hsig, -⟩ := inGraph_eq_some hread
  exact ⟨_, _, t, s₂, sig, g₂, rfl, hparent, hsig⟩

end Members

end Resolver
end CliMetadata
