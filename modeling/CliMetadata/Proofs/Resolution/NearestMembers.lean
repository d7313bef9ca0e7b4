import CliMetadata.Proofs.Resolution.BaseWalks
import CliMetadata.Proofs.Resolution.Descents

/-!
# The nearest member

A member reference is resolved to a member of the type that its class stands for, or of the nearest
type above it that lists one: the base of a type is resolved, then the base of what it resolves to,
and so on.  In each type the members are tested in the order in which they are listed, each in the
graph that the tests before it have left (`TypeDefId.Offers`, `TypeDefId.Lacks`).

**What is found is exactly the first member that fits in the nearest type that has one**, if that
type is among the first hundred (`Resolver.resolveMember_nearest`): every resolver, whatever it asks
and whatever it replaces, finds it, and finds nothing else.  A member in a nearer type shadows those
above it, and hierarchies that go on for ever are given up, since no more types are looked at.
-/

namespace CliMetadata

open CliMetadata.Graph Loading Stateful

variable {name : String} {sig : Signature TypeDefOrRef} {g g' g₁ g₂ : Graph} {t : TypeDefId}
  {x : MemberDef}

/-! ## Tests -/

/-- **Members of which none fits**, each tested in the graph that the tests before have left. -/
def MemberDef.NoneFits (name : String) (sig : Signature TypeDefOrRef) (xs : List MemberDef)
    (g g' : Graph) : Prop :=
  ∃ answers, (xs.mapM (fits name sig)).run g = (answers, g') ∧ ∀ passed ∈ answers, passed = false

namespace MemberDef.NoneFits

theorem nil : NoneFits name sig [] g g' ↔ g' = g := by
  constructor
  · rintro ⟨answers, hrun, -⟩
    cases hrun
    rfl
  · rintro rfl
    exact ⟨[], rfl, by simp⟩

theorem cons {xs : List MemberDef} : NoneFits name sig (x :: xs) g g' ↔
    ∃ g₁, (x.fits name sig).run g = (false, g₁) ∧ NoneFits name sig xs g₁ g' := by
  unfold NoneFits
  rw [List.mapM_cons]
  constructor
  · rintro ⟨answers, hrun, hfailed⟩
    rw [run_bind, run_bind] at hrun
    cases hrun
    obtain ⟨hfirst, hrest⟩ := List.forall_mem_cons.mp hfailed
    exact ⟨_, Prod.ext hfirst rfl, _, rfl, hrest⟩
  · rintro ⟨g₁, hfirst, answers, hrest, hfailed⟩
    refine ⟨false :: answers, ?_, List.forall_mem_cons.mpr ⟨rfl, hfailed⟩⟩
    rw [run_bind, hfirst, run_bind, hrest]
    rfl

end MemberDef.NoneFits

/-- Nothing is found exactly if nothing fits. -/
theorem firstThat_none_iff : ∀ {xs : List MemberDef} {g : Graph},
    (firstThat (MemberDef.fits name sig) xs).run g = (none, g') ↔ MemberDef.NoneFits name sig xs g g'
  | [], g => by
    rw [MemberDef.NoneFits.nil]
    exact ⟨fun h => (congrArg Prod.snd h).symm, fun h => h ▸ rfl⟩
  | y :: ys, g => by
    rw [MemberDef.NoneFits.cons, firstThat, run_bind]
    rcases hy : (y.fits name sig).run g with ⟨_ | _, g₁⟩
    · refine firstThat_none_iff.trans ⟨fun h => ⟨g₁, rfl, h⟩, ?_⟩
      rintro ⟨_, hsame, h⟩
      cases hsame
      exact h
    · refine iff_of_false (fun h => by cases congrArg Prod.fst h) ?_
      rintro ⟨_, hsame, -⟩
      cases hsame

/-- What is found is the first entry that fits. -/
theorem firstThat_some_iff : ∀ {xs : List MemberDef} {g : Graph},
    (firstThat (MemberDef.fits name sig) xs).run g = (some x, g') ↔
      ∃ before after g₁, xs = before ++ x :: after ∧ MemberDef.NoneFits name sig before g g₁ ∧
        (x.fits name sig).run g₁ = (true, g')
  | [], g => by
    refine iff_of_false (fun h => by cases congrArg Prod.fst h) ?_
    rintro ⟨before, after, -, hlist, -⟩
    cases before <;> cases hlist
  | y :: ys, g => by
    rw [firstThat, run_bind]
    rcases hy : (y.fits name sig).run g with ⟨_ | _, g₁⟩
    · refine firstThat_some_iff.trans ⟨?_, ?_⟩
      · rintro ⟨before, after, g₂, rfl, hbefore, hx⟩
        exact ⟨y :: before, after, g₂, rfl, MemberDef.NoneFits.cons.mpr ⟨g₁, hy, hbefore⟩, hx⟩
      · rintro ⟨before, after, g₂, hlist, hbefore, hx⟩
        cases before with
        | nil =>
          cases hlist
          obtain rfl := MemberDef.NoneFits.nil.mp hbefore
          cases hy.symm.trans hx
        | cons z before =>
          cases hlist
          obtain ⟨_, hz, hbefore⟩ := MemberDef.NoneFits.cons.mp hbefore
          cases hy.symm.trans hz
          exact ⟨before, after, g₂, rfl, hbefore, hx⟩
    · constructor
      · intro h
        cases h
        exact ⟨[], ys, g, rfl, MemberDef.NoneFits.nil.mpr rfl, hy⟩
      · rintro ⟨before, after, g₂, hlist, hbefore, hx⟩
        cases before with
        | nil =>
          cases hlist
          obtain rfl := MemberDef.NoneFits.nil.mp hbefore
          cases hy.symm.trans hx
          rfl
        | cons z before =>
          cases hlist
          obtain ⟨_, hz, -⟩ := MemberDef.NoneFits.cons.mp hbefore
          cases hy.symm.trans hz

/-! ## Types -/

namespace TypeDefId

/-- **A type that lists no member that fits.**  Reading its list and testing its entries leads from the
one graph to the other. -/
def Lacks (t : TypeDefId) (name : String) (sig : Signature TypeDefOrRef) (g g' : Graph) : Prop :=
  ∃ xs g₁, (t.membersLike sig).run g = (xs, g₁) ∧ MemberDef.NoneFits name sig xs g₁ g'

/-- **The first member of a type's list that fits**: those listed before it do not. -/
def Offers (t : TypeDefId) (name : String) (sig : Signature TypeDefOrRef) (g : Graph) (x : MemberDef)
    (g' : Graph) : Prop :=
  ∃ before after g₁ g₂, (t.membersLike sig).run g = (before ++ x :: after, g₁) ∧
    MemberDef.NoneFits name sig before g₁ g₂ ∧ (x.fits name sig).run g₂ = (true, g')

theorem ownMember_none_iff :
    (t.ownMember name sig).run g = (none, g') ↔ t.Lacks name sig g g' := by
  rw [ownMember_eq, run_bind, firstThat_none_iff]
  constructor
  · intro h
    exact ⟨_, _, rfl, h⟩
  · rintro ⟨xs, g₁, hlist, h⟩
    rw [hlist]
    exact h

theorem ownMember_some_iff :
    (t.ownMember name sig).run g = (some x, g') ↔ t.Offers name sig g x g' := by
  rw [ownMember_eq, run_bind, firstThat_some_iff]
  constructor
  · rintro ⟨before, after, g₂, hlist, hbefore, hx⟩
    exact ⟨before, after, _, g₂, Prod.ext hlist rfl, hbefore, hx⟩
  · rintro ⟨before, after, g₁, g₂, hlist, hbefore, hx⟩
    rw [hlist]
    exact ⟨before, after, g₂, rfl, hbefore, hx⟩

/-- What a type lists of the sort that a signature is of, as far as the list has been read. -/
def listedLike (g : Graph) (t : TypeDefId) : Signature TypeDefOrRef → List MemberDef
  | .method _ => (g.held .methods t.node).map fun c => .method ⟨c⟩
  | .field _ => (g.held .fields t.node).map fun c => .field ⟨c⟩
  | _ => []

theorem membersLike_held {xs : List MemberDef} (h : (t.membersLike sig).run g = (xs, g₁)) :
    t.listedLike g₁ sig = xs := by
  cases sig with
  | method e =>
    have hrun : (t.membersLike (.method e)).run g =
        ((((Ownership.items .methods t.node).run g).1.map Id.mk).map .method,
          ((Ownership.items .methods t.node).run g).2) := rfl
    obtain ⟨rfl, rfl⟩ := Prod.mk.inj (hrun.symm.trans h)
    rw [listedLike, held_eq (items_read g .methods t.node), List.map_map]
    rfl
  | field e =>
    have hrun : (t.membersLike (.field e)).run g =
        ((((Ownership.items .fields t.node).run g).1.map Id.mk).map .field,
          ((Ownership.items .fields t.node).run g).2) := rfl
    obtain ⟨rfl, rfl⟩ := Prod.mk.inj (hrun.symm.trans h)
    rw [listedLike, held_eq (items_read g .fields t.node), List.map_map]
    rfl
  | _ =>
    cases h
    rfl

/-- Testing members reads no lists. -/
theorem fits_lists (x : MemberDef) (name : String) (sig : Signature TypeDefOrRef) :
    Keeps SameLists (x.fits name sig) := by
  refine Keeps.get.bind fun g => Keeps.ite ?_ (Keeps.pure _)
  unfold MemberDef.answers
  split
  · refine (sameLists_read (z := MethodDefId.lazySig) _).bind fun actual => ?_
    cases actual with
    | none => exact Keeps.pure _
    | some actual => exact readsKeep_lists.within.equalMethodSigs _ _ _
  · refine (sameLists_read (z := FieldId.lazySig) _).bind fun actual => ?_
    cases actual with
    | none => exact Keeps.pure _
    | some actual => exact readsKeep_lists.within.equalSigs _ _ _
  · exact Keeps.pure _

/-- What fits is of the sort that the signature is of. -/
theorem isMethod_of_mem (h : x ∈ t.listedLike g sig) :
    (∃ m, x = .method m) ↔ ∃ e, sig = .method e := by
  cases sig with
  | method e =>
    obtain ⟨c, -, rfl⟩ := List.mem_map.mp h
    exact iff_of_true ⟨_, rfl⟩ ⟨e, rfl⟩
  | field e =>
    obtain ⟨c, -, rfl⟩ := List.mem_map.mp h
    exact iff_of_false (by rintro ⟨m, ⟨⟩⟩) (by rintro ⟨e, ⟨⟩⟩)
  | _ => cases h

namespace Offers

/-- What fits is in the list still. -/
theorem listed (h : t.Offers name sig g x g') : x ∈ t.listedLike g' sig := by
  obtain ⟨before, after, g₁, g₂, hlist, ⟨answers, hbefore, -⟩, hx⟩ := h
  have htested : SameLists g₁ g₂ := (Keeps.mapM (fun y => fits_lists y name sig) before).result hbefore
  have hsame : g'.lists = g₁.lists := ((fits_lists x name sig).result hx).trans htested
  have hheld : ∀ e o, g'.held e o = g₁.held e o := fun e o => by rw [held, hsame]; rfl
  have hentry : x ∈ t.listedLike g₁ sig := by
    rw [membersLike_held hlist]
    exact List.mem_append_right _ List.mem_cons_self
  cases sig with
  | method _ | field _ =>
    rw [listedLike] at hentry ⊢
    rwa [hheld]
  | _ => exact hentry

theorem named (h : t.Offers name sig g x g') : x.name g' = .ofString name := by
  obtain ⟨-, -, -, g₂, -, -, hx⟩ := h
  exact MemberDef.fits_name hx

end Offers
end TypeDefId

/-! ## Hierarchies -/

namespace Resolver

variable {r : Resolver} {s s' s₁ s₂ : Resolving} {k bound : Nat} {u : TypeDefId}

/-- The type that the base of a type resolves to. -/
def resolveBase (r : Resolver) (t : TypeDefId) : ResolveM (Option TypeDefId) := do
  match ← inGraph t.base with
  | none => return none
  | some base => r.resolveTypeDefOrRef base (← inGraph t.module)

/-- **Types that lack a member.**  A number of steps lead from a type to another, each from a type that
lists no member that fits to the type that its base resolves to. -/
inductive Climbs (r : Resolver) (name : String) (sig : Signature TypeDefOrRef) :
    Nat → TypeDefId → Resolving → TypeDefId → Resolving → Prop
  | start (t : TypeDefId) (s : Resolving) : Climbs r name sig 0 t s t s
  | up {k : Nat} {t above u : TypeDefId} {s s₁ s' : Resolving} {g : Graph}
      (lacks : t.Lacks name sig s.graph g)
      (base : (r.resolveBase t).run ⟨g, s.requests⟩ = (some above, s₁))
      (rest : Climbs r name sig k above s₁ u s') : Climbs r name sig (k + 1) t s u s'

/-- The course of a walk that has not come to a member. -/
theorem findMember_lacks (hsort : ¬(sig.method?.isNone && sig.field?.isNone) = true)
    (h : t.Lacks name sig s.graph g) (n : Nat) :
    (r.findMember name sig (n + 1) t).run s =
      match (r.resolveBase t).run ⟨g, s.requests⟩ with
      | (none, s₁) => (none, s₁)
      | (some above, s₁) => (r.findMember name sig n above).run s₁ := by
  have hown := TypeDefId.ownMember_none_iff.mpr h
  rw [findMember, if_neg hsort, run_bind, inGraph_run hown]
  dsimp only
  rw [resolveBase, run_bind, run_bind]
  cases ((inGraph t.base).run ⟨g, s.requests⟩).1 with
  | none => rfl
  | some base =>
    dsimp only
    rw [run_bind, run_bind, run_bind]
    rcases (r.resolveTypeDefOrRef base _).run _ with ⟨_ | above, s₁⟩
    · rfl
    · rfl

/-- Where the signature is not that of a method or of a field, nothing fits. -/
theorem not_offers (hsort : (sig.method?.isNone && sig.field?.isNone) = true) :
    ¬t.Offers name sig g x g' := by
  rintro ⟨before, after, g₁, g₂, hlist, -⟩
  cases sig with
  | method _ | field _ => cases hsort
  | _ =>
    obtain ⟨hempty, -⟩ := Prod.mk.inj hlist
    exact absurd hempty.symm (by simp)

/-- **A walk finds the first member that fits in the nearest type that has one**, among as many types as
its bound. -/
theorem findMember_eq_some_iff : ∀ {bound : Nat} {t : TypeDefId} {s : Resolving},
    (r.findMember name sig bound t).run s = (some x, s') ↔
      ∃ k < bound, ∃ u s₁, r.Climbs name sig k t s u s₁ ∧
        u.Offers name sig s₁.graph x s'.graph ∧ s'.requests = s₁.requests
  | 0, t, s => iff_of_false (fun h => by cases congrArg Prod.fst h) (by rintro ⟨k, hk, -⟩; omega)
  | n + 1, t, s => by
    by_cases hsort : (sig.method?.isNone && sig.field?.isNone) = true
    · rw [findMember, if_pos hsort]
      refine iff_of_false (fun h => by cases congrArg Prod.fst h) ?_
      rintro ⟨k, -, u, s₁, -, hoffers, -⟩
      exact not_offers hsort hoffers
    rcases hown : (t.ownMember name sig).run s.graph with ⟨_ | y, g⟩
    · have hlacks := TypeDefId.ownMember_none_iff.mp hown
      rw [findMember_lacks hsort hlacks]
      have hstart : ¬t.Offers name sig s.graph x s'.graph := by
        intro h
        cases congrArg Prod.fst (hown.symm.trans (TypeDefId.ownMember_some_iff.mpr h))
      constructor
      · intro h
        rcases hbase : (r.resolveBase t).run ⟨g, s.requests⟩ with ⟨_ | above, s₁⟩
        · rw [hbase] at h
          cases h
        · rw [hbase] at h
          obtain ⟨k, hk, u, s₂, hclimbs, hoffers, hrequests⟩ := findMember_eq_some_iff.mp h
          exact ⟨k + 1, Nat.succ_lt_succ hk, u, s₂, .up hlacks hbase hclimbs, hoffers, hrequests⟩
      · rintro ⟨k, hk, u, s₂, hclimbs, hoffers, hrequests⟩
        cases hclimbs with
        | start => exact absurd hoffers hstart
        | up lacks base rest =>
          have hsame := hown.symm.trans (TypeDefId.ownMember_none_iff.mpr lacks)
          cases hsame
          rw [base]
          exact findMember_eq_some_iff.mpr
            ⟨_, Nat.lt_of_succ_lt_succ hk, u, s₂, rest, hoffers, hrequests⟩
    · rw [findMember_own hown]
      constructor
      · intro h
        cases h
        exact ⟨0, Nat.succ_pos n, t, s, .start t s, TypeDefId.ownMember_some_iff.mp hown, rfl⟩
      · rintro ⟨k, hk, u, s₂, hclimbs, hoffers, hrequests⟩
        cases hclimbs with
        | start =>
          cases hown.symm.trans (TypeDefId.ownMember_some_iff.mpr hoffers)
          exact congrArg (Prod.mk _) (congrArg (Resolving.mk _) hrequests.symm)
        | up lacks base rest =>
          cases hown.symm.trans (TypeDefId.ownMember_none_iff.mpr lacks)

/-- **Hierarchies that go on for ever are given up**: where each of the types that are looked at lacks
the member, nothing is found. -/
theorem findMember_exhausted (h : r.Climbs name sig bound t s u s₁) :
    ((r.findMember name sig bound t).run s).1 = none := by
  induction h with
  | start t s => rfl
  | up lacks base rest ih =>
    by_cases hsort : (sig.method?.isNone && sig.field?.isNone) = true
    · rw [findMember, if_pos hsort]
      rfl
    · rw [findMember_lacks hsort lacks, base]
      exact ih

/-! ## References -/

/-- **What is looked for on behalf of a member reference**: a name and a signature, from a type upwards.
The name, read as text, and the signature are those of the reference that takes its place, and the type
is the one that the class of that reference stands for. -/
inductive Seeks (r : Resolver) (m : MemberRefId) (s : Resolving) :
    TypeDefId → String → Signature TypeDefOrRef → Resolving → Prop
  | intro {taken : MemberRefId} {parent : MemberParent} {source : Option ModuleId} {t : TypeDefId}
      {sig : Signature TypeDefOrRef} {s₁ s₂ : Resolving} {g₁ g₂ g₃ : Graph}
      (projected : (r.projectMember m).run s = (taken, s₁))
      (classed : taken.parent.run s₁.graph = (some parent, g₁))
      (other : ∀ method, parent ≠ .methodDef method)
      (within : taken.module.run g₁ = (source, g₂))
      (declaring : (r.resolveParent source parent).run ⟨g₂, s₁.requests⟩ = (some t, s₂))
      (signed : taken.sig.run s₂.graph = (some sig, g₃)) :
      Seeks r m s t (g₃.get taken).name.lossy sig ⟨g₃, s₂.requests⟩

/-- The class of the reference that takes the place of a reference is a method. -/
def NamesMethod (r : Resolver) (m : MemberRefId) (s : Resolving) : Prop :=
  let taken := (r.projectMember m).run s
  ∃ method, (taken.1.parent.run taken.2.graph).1 = some (.methodDef method)

variable {m : MemberRefId}

/-- A member that is looked for on behalf of a reference is what the reference resolves to. -/
theorem resolveMember_of_seeks (h : r.Seeks m s t name sig s₁) :
    (r.resolveMember m).run s = (r.findMember name sig recursionBound t).run s₁ := by
  cases h with
  | @intro taken parent source t sig s₀ s₂ g₁ g₂ g₃ projected classed other within declaring signed =>
    rw [resolveMember_memberOf projected classed, memberOf_eq other]
    exact memberIn_run (s := ⟨g₁, s₀.requests⟩) within declaring signed

/-- Whatever a reference resolves to is looked for on its behalf, unless its class is a method. -/
theorem seeks_of_resolveMember (hclass : ¬r.NamesMethod m s)
    (h : (r.resolveMember m).run s = (some x, s')) : ∃ t name sig s₁, r.Seeks m s t name sig s₁ := by
  rcases projected : (r.projectMember m).run s with ⟨taken, s₀⟩
  have hread := h
  rw [resolveMember_split, run_bind, projected] at hread
  obtain ⟨parent, _, hparent, -⟩ := run_elim_eq_some.mp hread
  obtain ⟨g₁, classed, -⟩ := inGraph_eq_some hparent
  have other : ∀ method, parent ≠ .methodDef method := by
    rintro method rfl
    refine hclass ⟨method, ?_⟩
    rw [projected, classed]
  rw [resolveMember_memberOf projected classed, memberOf_eq other] at h
  obtain ⟨source, g₂, t, s₂, sig, g₃, within, declaring, signed⟩ := memberIn_eq_some h
  exact ⟨t, _, sig, _, .intro projected classed other within declaring signed⟩

/-- **A member reference resolves to the first member that fits in the nearest type that has one.**  Let
its class, or that of the reference that takes its place, be no method itself.  It resolves to a member
exactly if a number of steps less than the bound, each from a type that lists no member that fits to the
type that its base resolves to, lead from the type of the class to one that lists it as the first that
fits.  That type lists it still, under the name that was looked for, and it is a method exactly if the
signature is that of a method.  Where all types before the bound lack such a member, as they may for
ever if the bases go round in a circle, the reference resolves to nothing. -/
theorem resolveMember_nearest (hclass : ¬r.NamesMethod m s) :
    (∀ x s', (r.resolveMember m).run s = (some x, s') ↔
      ∃ t name sig s₁, r.Seeks m s t name sig s₁ ∧
        ∃ k < recursionBound, ∃ u s₂, r.Climbs name sig k t s₁ u s₂ ∧
          (u.Offers name sig s₂.graph x s'.graph ∧ s'.requests = s₂.requests) ∧
          x ∈ u.listedLike s'.graph sig ∧ x.name s'.graph = .ofString name ∧
          ((∃ method, x = .method method) ↔ ∃ e, sig = .method e)) ∧
      ∀ t name sig s₁ u s₂, r.Seeks m s t name sig s₁ →
        r.Climbs name sig recursionBound t s₁ u s₂ → ((r.resolveMember m).run s).1 = none := by
  refine ⟨fun x s' => ⟨fun h => ?_, ?_⟩, fun t name sig s₁ u s₂ hseeks hclimbs => ?_⟩
  · obtain ⟨t, name, sig, s₁, hseeks⟩ := seeks_of_resolveMember hclass h
    rw [resolveMember_of_seeks hseeks] at h
    obtain ⟨k, hk, u, s₂, hclimbs, hoffers, hrequests⟩ := findMember_eq_some_iff.mp h
    exact ⟨t, name, sig, s₁, hseeks, k, hk, u, s₂, hclimbs, ⟨hoffers, hrequests⟩, hoffers.listed,
      hoffers.named, TypeDefId.isMethod_of_mem hoffers.listed⟩
  · rintro ⟨t, name, sig, s₁, hseeks, k, hk, u, s₂, hclimbs, ⟨hoffers, hrequests⟩, -⟩
    rw [resolveMember_of_seeks hseeks]
    exact findMember_eq_some_iff.mpr ⟨k, hk, u, s₂, hclimbs, hoffers, hrequests⟩
  · rw [resolveMember_of_seeks hseeks]
    exact findMember_exhausted hclimbs

/-- A graph of a type that is its own base, and of a reference to a method of it that it does not list. -/
def circling : Graph :=
  ((do
    let m : ModuleId ← make .module ⟨0, .inMemory, .empty, Guid.zero, none, some [], some []⟩
    let t : TypeDefId ← make .typeDef
      ⟨0, .inMemory, 0, .empty, .empty, some (some (.typeDef ⟨.built 1⟩))⟩
    let _ ← makeMemberRef m (.ofString "f") (some (.typeDef t)) (some (.method plainCall))
    return ()
    : GraphM Unit).run Graph.empty).2

/-- No number of steps leads out of the circle. -/
theorem climbs_circling (r : Resolver) : ∀ k : Nat,
    r.Climbs "f" (.method plainCall) k ⟨.built 1⟩ ⟨circling, []⟩ ⟨.built 1⟩ ⟨circling, []⟩
  | 0 => .start _ _
  | k + 1 => by
    let t : TypeDefId := ⟨.built 1⟩
    have hown : (t.ownMember "f" (.method plainCall)).run circling = (none, circling) := rfl
    have hbase : t.base.run circling = (some (.typeDef t), circling) := rfl
    have hmodule : t.module.run circling = (none, circling) := by
      have htop : t.declaringType.run circling = (none, circling) := rfl
      have howner : t.ownerModule.run circling = (none, circling) := rfl
      rw [TypeDefId.module, TypeDefId.moduleWithin, run_bind, htop]
      exact howner
    have habove : (r.resolveBase t).run ⟨circling, []⟩ = (some t, ⟨circling, []⟩) := by
      have hread : (inGraph t.module).run ⟨circling, []⟩ = (none, ⟨circling, []⟩) := inGraph_run hmodule
      rw [resolveBase, run_bind, inGraph_run hbase]
      dsimp only
      rw [run_bind, hread]
      rfl
    exact .up (TypeDefId.ownMember_none_iff.mp hown) habove (climbs_circling r k)

/-- The method of a base is found one step above the class, and one that no type of a circle lists is
not found. -/
theorem nearest_climbing :
    (∃ s', ((asking ⟨false, 30⟩).resolveMember ⟨.built 4⟩).run ⟨climbing 1, []⟩ =
      (some (.method ⟨.built 2⟩), s') ∧ ∃ t name sig s₁,
        (asking ⟨false, 30⟩).Seeks ⟨.built 4⟩ ⟨climbing 1, []⟩ t name sig s₁ ∧
        ∃ k < recursionBound, ∃ u s₂, (asking ⟨false, 30⟩).Climbs name sig k t s₁ u s₂ ∧
          .method ⟨.built 2⟩ ∈ u.listedLike s'.graph sig) ∧
      (((asking ⟨false, 30⟩).resolveMember ⟨.built 2⟩).run ⟨circling, []⟩).1 = none := by
  let r := asking ⟨false, 30⟩
  have hclass : ¬r.NamesMethod ⟨.built 4⟩ ⟨climbing 1, []⟩ := by
    rintro ⟨method, hmethod⟩
    cases hmethod
  have hclass' : ¬r.NamesMethod ⟨.built 2⟩ ⟨circling, []⟩ := by
    rintro ⟨method, hmethod⟩
    cases hmethod
  constructor
  · have hfound : ((r.resolveMember ⟨.built 4⟩).run ⟨climbing 1, []⟩).1 =
        some (.method ⟨.built 2⟩) := by decide +kernel
    have hrun : (r.resolveMember ⟨.built 4⟩).run ⟨climbing 1, []⟩ = (some (.method ⟨.built 2⟩), _) :=
      Prod.ext hfound rfl
    obtain ⟨t, name, sig, s₁, hseeks, k, hk, u, s₂, hclimbs, -, hlisted, -⟩ :=
      ((resolveMember_nearest hclass).1 _ _).mp hrun
    exact ⟨_, hrun, t, name, sig, s₁, hseeks, k, hk, u, s₂, hclimbs, hlisted⟩
  · exact (resolveMember_nearest hclass').2 _ _ _ _ _ _
      (.intro rfl rfl (by rintro method ⟨⟩) rfl rfl rfl) (climbs_circling r recursionBound)

end Resolver
end CliMetadata
