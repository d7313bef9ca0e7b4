import CliMetadata.Proofs.Rereading.Members

/-!
# Resolving again

A reference to a type that is resolved again resolves to the same (`Resolver.resolveType_rereads`), and
so does a reference to a member **where comparing is as it was** (`Resolver.resolveMember_rereads`),
as the assemblies come from a cache that is as it was.  A projection is asked to replace alike what
stands for the same (`ReferenceProjection.Steady`), as the usual one does.
-/

namespace CliMetadata

open CliMetadata.Graph Loading Stateful

variable {P : Fact}

/-- **A projection that only reads, and that replaces alike what stands for the same.** -/
structure ReferenceProjection.Steady (p : ReferenceProjection) : Prop where
  reads_type : ∀ ref, Keeps Peruses (p.typeRef ref)
  reads_member : ∀ ref, Keeps Peruses (p.memberRef ref)
  typeRef : ∀ ref ref', Again (.same ref ref') (p.typeRef ref) (p.typeRef ref') fun o o' =>
    .both .same o o'
  memberRef : ∀ ref : MemberRefId, ref.key.IsRow →
    Again (.of True) (p.memberRef ref) (p.memberRef ref) fun o o' => .both .sameMember o o'

theorem ReferenceProjection.windowsRuntime_steady : windowsRuntime.Steady where
  reads_type := Projection.typeRef_peruses
  reads_member := Projection.memberRef_peruses
  typeRef _ _ := (Projection.typeRef_again (Fact.le_refl _)).gives <|
    Fact.both_mono fun _ _ _ _ h => .inr h
  memberRef _ hrow := (Projection.memberRef_again hrow).gives <|
    Fact.both_mono fun _ _ _ _ h => .inr h

namespace Resolver

/-- A resolver over a cache, with a steady projection if it has one. -/
structure Steady (r : Resolver) (c : AssemblyCache) : Prop where
  source : r.source = c.source
  projection : ∀ p, r.projection = some p → p.Steady

variable {r : Resolver} {c : AssemblyCache}

theorem Steady.peruse (h : r.Steady c) : r.Peruse where
  typeRef p hp := (h.projection p hp).reads_type
  memberRef p hp := (h.projection p hp).reads_member

theorem usual_steady (c : AssemblyCache) (config : ResolverConfig) :
    (usual c.source config).Steady c where
  source := rfl
  projection p hp := by
    obtain rfl : ReferenceProjection.windowsRuntime = p :=
      Option.some.inj (Option.ite_none_right_eq_some.mp hp).2
    exact ReferenceProjection.windowsRuntime_steady

/-! ## Types -/

section Types

variable (h : r.Steady c) {ref ref' : TypeRefId} {asking asking' : Option ModuleId}

include h

theorem projectType_again (hr : P ≤ .same ref ref') :
    Again P (r.projectType ref) (r.projectType ref') .same := by
  unfold projectType
  cases hp : r.projection with
  | none => exact .pure hr
  | some p =>
    refine ((((h.projection p hp).typeRef ref ref').under hr).inGraph).bind fun o o' => .pure ?_
    exact fun g u hP => Projection.getD_stands (R := fun r r' => (Fact.same r r').holds g u)
      hP.2 (hr g u hP.1)

/-- **A reference to a type resolves to the same again.** -/
theorem resolveType_rereads (hr : P ≤ .same ref ref') :
    Rereads P (r.resolveType ref asking) (r.resolveType ref' asking') .found := by
  rw [resolveType_eq, resolveType_eq]
  exact (projectType_again h hr).bind fun _ _ => lookUp_rereads h.source Fact.and_right

/-- So does any type that stands for the same. -/
theorem resolveTypeDefOrRef_rereads {a b : TypeDefOrRef} (hab : P ≤ .types a b) :
    Rereads P (r.resolveTypeDefOrRef a asking) (r.resolveTypeDefOrRef b asking') .found := by
  have hdef : ∀ {P : Fact} {t : TypeDefId}, t.key.IsRow →
      Rereads P (pure (some t) : ResolveM _) (pure (some t)) .found := fun ht =>
    Rereads.pure (Fact.maybe_some.mpr fun _ _ _ => ht.known)
  suffices hall : ∀ a b, Rereads (P.and (.types a b)) (r.resolveTypeDefOrRef a asking)
      (r.resolveTypeDefOrRef b asking') .found from
    (hall a b).under fun g u hP => ⟨hP, hab g u hP⟩
  refine Again.types_elim (h.peruse.resolveTypeDefOrRef asking) (fun t ht => hdef ht)
    (fun ref ref' => resolveType_rereads h Fact.and_right) fun s s' => ?_
  refine (TypeSpecId.scopeType_again Fact.and_right).inGraph.bind_both
    (Rereads.pure Fact.maybe_none) ?_
  refine Again.types_elim (fun a => ?_) (fun t ht => hdef ht)
    (fun ref ref' => resolveType_rereads h Fact.and_right) fun _ _ => Rereads.pure Fact.maybe_none
  cases a with
  | typeDef _ | typeSpec _ => exact Keeps.pure _
  | typeRef ref => exact h.peruse.resolveType asking ref

end Types

/-! ## Members -/

section Members

variable (h : r.Steady c) {m m' : MemberRefId} {s s' : Signature TypeDefOrRef}

include h

theorem projectMember_again (hrow : m.key.IsRow) :
    Again P (r.projectMember m) (r.projectMember m) .sameMember := by
  have hsame : P ≤ .sameMember m m := fun _ _ _ => .inl ⟨rfl, hrow⟩
  unfold projectMember
  cases hp : r.projection with
  | none => exact .pure hsame
  | some p =>
    have hagain : Again P _ _ _ := ((h.projection p hp).memberRef m hrow).under fun _ _ _ => trivial
    refine hagain.inGraph.bind fun o o' => .pure ?_
    exact fun g u hP => Projection.getD_stands (R := fun m m' => (Fact.sameMember m m').holds g u)
      hP.2 (hsame g u hP.1)

/-- **A member is found again in a type or its nearest base type.** -/
theorem findMember_rereads (name : String) : ∀ (bound : Nat) {P : Fact} {t : TypeDefId},
    P ≤ .known t.key → P ≤ .calm → P ≤ .signatures s s' →
    Rereads P (r.findMember name s bound t) (r.findMember name s' bound t) fun _ => .of True
  | 0, _, _, _, _, _ => Rereads.pure fun _ _ _ => trivial
  | n + 1, P, t, ht, hcalm, hs => by
    refine Again.of_fact (h.peruse.findMember name s (n + 1) t) (Fact.signatures_form hs)
      fun hform => ?_
    unfold findMember
    rw [hform]
    refine .ite (Rereads.pure fun _ _ _ => trivial) ?_
    refine (t.ownMember_rereads name hcalm hs).inGraph.bind fun found => ?_
    cases found with
    | some _ => exact Rereads.pure fun _ _ _ => trivial
    | none =>
      refine (TypeDefId.base_rereads (Fact.before ht)).inGraph.bind_some
        (Rereads.pure fun _ _ _ => trivial) fun base => ?_
      -- which module asks is of no account to a cache
      refine (Again.of_rests t.module_peruses t.module_rests).inGraph.bind fun asking asking' => ?_
      refine (resolveTypeDefOrRef_rereads h ?_).bind_some (Rereads.pure fun _ _ _ => trivial)
        fun t' => ?_
      · exact Fact.before fun _ _ hP => .row hP.2
      · refine findMember_rereads name n Fact.and_right ?_ ?_
        · exact Fact.before (Fact.before (Fact.before (Fact.before hcalm)))
        · exact Fact.before (Fact.before (Fact.before (Fact.before hs)))

end Members

/-! ### Parents -/

/-- The type with the global members of the module of an assembly that has a name. -/
def globalNamed (a : AssemblyId) (name : String) : GraphM (Option TypeDefId) :=
  a.findModule name >>= fun m => m.elim (pure none) ModuleId.globalType

/-- The one of the module of an assembly that a reference names. -/
def globalIn (mr : ModuleRefId) (a : AssemblyId) : GraphM (Option TypeDefId) :=
  get >>= fun g => globalNamed a (g.get mr).name.lossy

/-- The type with the global members of a module, if a reference names that one. -/
def globalHere (mr : ModuleRefId) (current : ModuleId) : GraphM (Option TypeDefId) :=
  get >>= fun g => if namesModule g mr current then current.globalType else pure none

/-- The type with the global members of the module of its assembly that a reference names. -/
def globalBeside (mr : ModuleRefId) (current : ModuleId) : GraphM (Option TypeDefId) :=
  current.assembly >>= fun a => a.elim (pure none) (globalIn mr)

theorem resolveParent_moduleRef (r : Resolver) (mr : ModuleRefId) (current : ModuleId) :
    r.resolveParent (some current) (.moduleRef mr) = inGraph (globalHere mr current) >>= fun own =>
      own.elim (inGraph (globalBeside mr current)) fun t => pure (some t) := by
  refine bind_congr fun own => ?_
  cases own with
  | some _ => rfl
  | none =>
    change inGraph _ = inGraph (globalBeside mr current)
    refine congrArg inGraph (bind_congr fun a => ?_)
    cases a with
    | none => rfl
    | some a =>
      refine bind_congr fun g => bind_congr fun m => ?_
      cases m <;> rfl

section Globals

variable {mr : ModuleRefId} (hrow : mr.key.IsRow) (current : ModuleId)

include hrow

theorem globalHere_rereads :
    Rereads P (globalHere mr current) (globalHere mr current) .found := by
  refine Rereads.look (R := fun _ => .of True) (namesModule · mr current)
    (namesModule · mr current) (fun b => if b then current.globalType else pure none)
    (fun b => if b then current.globalType else pure none)
    (fun {g u} _ _ (hper : g.Perused u) => ⟨?_, trivial⟩)
    fun b => .ite current.globalType_rereads (Rereads.pure Fact.maybe_none)
  rw [namesModule, namesModule, hper.moduleRef hrow.known, hper.module_name]

theorem globalIn_rereads (a : AssemblyId) :
    Rereads P (globalIn mr a) (globalIn mr a) .found := by
  have hname : Rereads P (do return ((← get).get mr).name.lossy : GraphM String)
      (do return ((← get).get mr).name.lossy) fun _ => .of True := by
    refine Rereads.reads fun {g u} _ _ (hper : g.Perused u) => ⟨?_, trivial⟩
    show (u.get mr).name.lossy = (g.get mr).name.lossy
    rw [hper.moduleRef hrow.known]
  refine hname.bind fun name => (a.findModule_rereads name).bind fun m => ?_
  cases m with
  | none => exact Rereads.pure Fact.maybe_none
  | some m => exact m.globalType_rereads

theorem globalBeside_rereads :
    Rereads P (globalBeside mr current) (globalBeside mr current) .found := by
  refine current.assembly_rereads.bind fun a => ?_
  cases a with
  | none => exact Rereads.pure Fact.maybe_none
  | some a => exact globalIn_rereads hrow a

/-- The module that a module reference means is the same again. -/
theorem resolveModule_rereads (r : Resolver) (asking : Option ModuleId) :
    Rereads P (r.resolveParent asking (.moduleRef mr)) (r.resolveParent asking (.moduleRef mr))
      .found := by
  cases asking with
  | none => exact Rereads.pure Fact.maybe_none
  | some current =>
    rw [resolveParent_moduleRef]
    exact (globalHere_rereads hrow current).inGraph.bind_some
      (globalBeside_rereads hrow current).inGraph
      fun t => Rereads.pure (Fact.maybe_some.mpr Fact.and_right)

end Globals

section Members

variable (h : r.Steady c) {m m' : MemberRefId} {s s' : Signature TypeDefOrRef}

include h

/-- **What a parent of members resolves to is the same again.** -/
theorem resolveParent_rereads {p p' : MemberParent} {asking : Option ModuleId}
    (hp : P ≤ .parents p p') :
    Rereads P (r.resolveParent asking p) (r.resolveParent asking p') .found := by
  suffices hall : ∀ p p', Rereads (P.and (.parents p p')) (r.resolveParent asking p)
      (r.resolveParent asking p') .found from
    (hall p p').under fun g u hP => ⟨hP, hp g u hP⟩
  refine Again.parents_elim (h.peruse.resolveParent asking) (fun ref ref' => ?_) (fun s s' => ?_)
    fun p hrow => ?_
  · exact resolveType_rereads h Fact.and_right
  · exact resolveTypeDefOrRef_rereads h Fact.and_right
  · cases p with
    | typeDef t => exact Rereads.pure (Fact.maybe_some.mpr fun _ _ _ => Key.IsRow.known hrow)
    | typeRef ref => exact resolveType_rereads h fun _ _ _ => .inl ⟨rfl, hrow⟩
    | typeSpec s =>
      exact resolveTypeDefOrRef_rereads h fun _ _ _ => .row (r := .typeSpec s) hrow
    | moduleRef mr => exact resolveModule_rereads hrow r asking
    | methodDef _ => exact Rereads.pure Fact.maybe_none

end Members

/-! ### References to members -/

section Members

variable (h : r.Steady c) {m m' : MemberRefId}

include h

theorem memberIn_rereads (hm : P ≤ .sameMember m m') {p p' : MemberParent} (hp : P ≤ .parents p p')
    (hcalm : P ≤ .calm) :
    Rereads P (r.memberIn m p) (r.memberIn m' p') fun _ => .of True := by
  have hnone : ∀ {P : Fact}, Rereads P (pure none : ResolveM (Option MemberDef)) (pure none)
      fun _ => .of True := Rereads.pure fun _ _ _ => trivial
  refine (MemberRefId.module_rereads hm).inGraph.bind fun asking => ?_
  refine (resolveParent_rereads h (Fact.before hp)).bind_some hnone fun t => ?_
  refine (MemberRefId.sig_again (Fact.before (Fact.before hm))).inGraph.bind_both hnone fun s s' => ?_
  refine Rereads.look (R := fun _ => .of True) (fun s : Resolving => (s.graph.get m).name.lossy)
    (fun s => (s.graph.get m').name.lossy) (fun name => r.findMember name s recursionBound t)
    (fun name => r.findMember name s' recursionBound t)
    (fun hP _ (hper : Graph.Perused _ _) => ⟨?_, trivial⟩) fun name => ?_
  · exact congrArg Name.lossy (hper.sameMember_name (hm _ _ hP.1.1.1))
  · refine findMember_rereads h name _ ?_ ?_ ?_
    · exact Fact.before (Fact.before Fact.and_right)
    · exact Fact.before (Fact.before (Fact.before (Fact.before hcalm)))
    · exact Fact.before Fact.and_right

/-- What there is for a reference with a parent is the same again. -/
theorem memberOf_rereads (hm : P ≤ .sameMember m m') (hcalm : P ≤ .calm) (p p' : MemberParent) :
    Rereads (P.and (.parents p p')) (r.memberOf m p) (r.memberOf m' p') fun _ => .of True := by
  refine Again.parents_elim (h.peruse.memberOf m) (fun ref ref' => ?_) (fun s s' => ?_)
    (fun p hrow => ?_) p p'
  · exact memberIn_rereads h (Fact.before hm) Fact.and_right (Fact.before hcalm)
  · exact memberIn_rereads h (Fact.before hm) Fact.and_right (Fact.before hcalm)
  · cases p with
    | methodDef _ => exact Rereads.pure fun _ _ _ => trivial
    | typeDef _ | typeRef _ | typeSpec _ | moduleRef _ =>
      exact memberIn_rereads h hm (Fact.parents_row hrow) hcalm

/-- **A reference to a member resolves to the same again**, where no type that was nested in none has
been taken over by one. -/
theorem resolveMember_rereads (hrow : m.key.IsRow) (hcalm : P ≤ .calm) :
    Rereads P (r.resolveMember m) (r.resolveMember m) fun _ => .of True := by
  rw [resolveMember_split]
  refine (projectMember_again h hrow).bind fun m m' => ?_
  refine (MemberRefId.parent_again Fact.and_right).inGraph.bind_both
    (Rereads.pure fun _ _ _ => trivial) fun p p' => ?_
  exact memberOf_rereads h Fact.and_right (Fact.before hcalm) p p'

end Members
end Resolver
end CliMetadata
