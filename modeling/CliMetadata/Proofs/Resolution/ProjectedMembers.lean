import CliMetadata.Proofs.Projection.Agreement
import CliMetadata.Proofs.Projection.Listing
import CliMetadata.Proofs.Resolution.Members

/-!
# Looking members up by references that have been replaced

A reference to a member is replaced before it is resolved, and then its signature is compared with
those of the members that its class lists, which are never replaced.  Where the class is a type
itself, nothing of it is replaced, so all that may be lost is the signature.  **A listed member of
the very signature of the reference is found if what is replaced in the signature keeps its names,
and lost otherwise** (`Resolver.resolveMember_projected`).
-/

namespace CliMetadata

open CliMetadata.Graph CliMetadata.Projection Loading Stateful

/-! ## Signatures of listed members -/

/-- The signature of a member. -/
def MemberDef.signature (g : Graph) : MemberDef → Option (Signature TypeDefOrRef)
  | method m => (m.sig.run g).1.map .method
  | field f => (f.sig.run g).1.map .field

/-- Comparing the signature of a member decides whether it is equal to the expected one. -/
theorem MemberDef.answers_iff {g : Graph} (hg : g.Intact) {x : MemberDef} (hx : g.present x.node)
    {actual expected : Signature TypeDefOrRef} (hactual : x.signature g = some actual)
    (hexpected : ∀ r ∈ expected.refs, g.present r.node) :
    ((x.answers expected).run g).1 = true ↔ SignaturesAgree g actual expected := by
  cases x with
  | method m =>
    obtain ⟨a, hvalue, rfl⟩ := Option.map_eq_some_iff.mp hactual
    cases expected with
    | method e =>
      have hread := LazySlot.yields (z := MethodDefId.lazySig) (fun _ _ => rfl) hx
      have hrefs := MethodDefId.lazySig.refs_value hg.method m
      rw [show MethodDefId.lazySig.value g m = some a from hvalue] at hread hrefs
      have hdecides : Decides g.Consulted ((method m).answers (.method e))
          (SignaturesAgree g (.method a) (.method e)) :=
        Settles.after hread (CompareOptions.decides_equalMethodSigs hg hrefs hexpected)
      exact (hdecides.value (.refl g)).2
    | _ => exact ⟨nofun, nofun⟩
  | field f =>
    obtain ⟨a, hvalue, rfl⟩ := Option.map_eq_some_iff.mp hactual
    cases expected with
    | field e =>
      have hread := LazySlot.yields (z := FieldId.lazySig) (fun _ _ => rfl) hx
      have hrefs := FieldId.lazySig.refs_value hg.field f
      rw [show FieldId.lazySig.value g f = some a from hvalue] at hread hrefs
      have hdecides : Decides g.Consulted ((field f).answers (.field e))
          (SignaturesAgree g (.field a) (.field e)) :=
        Settles.after hread ((CompareOptions.decides_comparison hg recursionBound).2 a e hrefs hexpected)
      exact (hdecides.value (.refl g)).2
    | _ => exact ⟨nofun, nofun⟩

/-- The slot of the base of a type. -/
def TypeDefId.lazyBase : LazySlot .typeDef (Option TypeDefOrRef) where
  get := (·.base)
  set v e := { e with base := v }
  absent := none
  compute loader rid := do
    match ← rowAt (·.typeDefs) loader rid with
    | none => return none
    | some row => typeDefOrRef loader row.base
  refs := Option.toList
  get_set _ _ := rfl
  set_set _ _ _ := rfl
  origin_set _ _ := rfl
  get_ofRow _ _ _ _ h := by
    obtain ⟨_, _, rfl⟩ := Option.map_eq_some_iff.mp h
    rfl
  get_blank := rfl
  ne_module := by decide
  ne_customAttribute := by decide
  refs_absent := rfl
  told g loader rid := by
    have hrow := fromStores_rowAt (g := g) (·.typeDefs) loader rid
    cases hstored : (g.store? loader).bind fun s => Store.nth s.typeDefs rid with
    | none =>
      rw [hstored] at hrow
      exact ⟨none, hrow.bind (.pure _), by simp⟩
    | some row =>
      rw [hstored] at hrow
      obtain ⟨v, hv, hpresent⟩ := fromStores_typeDefOrRef g loader row.base
      exact ⟨v, hrow.bind hv, fun t ht => hpresent t (Option.mem_toList.mp ht)⟩

/-- What the base of a type is has no bearing on what has been consulted. -/
theorem Graph.Consulted.base {g g' : Graph} (h : g.Consulted g') (t : TypeDefId) :
    (t.base.run g').1 = (t.base.run g).1 :=
  TypeDefId.lazyBase.value_congr h.toAlike (h.filled (n := t.node) (by rintro ⟨⟩))

/-! ## Looking a member up -/

/-- The members of a type are tested as they are when they have been listed. -/
theorem TypeDefId.ownMember_run {g g' : Graph} {t : TypeDefId} {sig : Signature TypeDefOrRef}
    {xs : List MemberDef} (hg' : g'.Intact) (hlist : (t.membersLike sig).run g = (xs, g'))
    (hpresent : ∀ x ∈ xs, g'.present x.node) (hrefs : ∀ r ∈ sig.refs, g'.present r.node)
    (text : String) : ∃ g₁, g'.Consulted g₁ ∧
      (t.ownMember text sig).run g = (xs.find? (MemberDef.fitsIn g' text sig), g₁) := by
  have htests : Yields g'.Consulted (firstThat (MemberDef.fits text sig) xs)
      (xs.find? (MemberDef.fitsIn g' text sig)) :=
    .firstThat fun x hx => x.yields_fits hg' (hpresent x hx) hrefs
  obtain ⟨hvalue, hconsulted⟩ := htests g' (.refl g')
  refine ⟨_, hconsulted, ?_⟩
  rw [ownMember_eq, run_bind, hlist]
  exact Prod.ext hvalue rfl

/-- A prepared graph grows as the members of a type are listed. -/
theorem Graph.prepares_membersLike (t : TypeDefId) (sig : Signature TypeDefOrRef) :
    Keeps Prepares (t.membersLike sig) := by
  have listed : ∀ {e : Edge}, e ≠ .assemblyModules → .typeDef ∈ e.ownerKinds →
      Keeps Prepares (Ownership.items e t.node) := fun he ho => prepares_items he ho
  cases sig with
  | method _ =>
    exact ((listed (e := .methods) (by decide) (by decide)).bind fun _ => Keeps.pure _).bind fun _ =>
      Keeps.pure _
  | field _ =>
    exact ((listed (e := .fields) (by decide) (by decide)).bind fun _ => Keeps.pure _).bind fun _ =>
      Keeps.pure _
  | _ => exact Keeps.pure _

namespace Resolver

section Lookup

variable {r : Resolver} {m m' : MemberRefId} {t : TypeDefId} {sig : Signature TypeDefOrRef}
  {s s₁ : Resolving} {g₁ g₂ : Graph}

/-- Where a type has no such member and no base, nothing is found. -/
theorem findMember_baseless {text : String} (hown : (t.ownMember text sig).run s.graph = (none, g₁))
    (hbase : (t.base.run g₁).1 = none) (bound : Nat) :
    ((r.findMember text sig (bound + 1) t).run s).1 = none := by
  rw [findMember]
  split
  · rfl
  · have hread : t.base.run g₁ = (none, (t.base.run g₁).2) := Prod.ext hbase rfl
    rw [run_bind, inGraph_run hown]
    dsimp only
    rw [run_bind, inGraph_run hread]
    rfl

end Lookup

/-- What a type lists when a reference to one of its members is looked up. -/
def membersFor (r : Resolver) (m : MemberRefId) (t : TypeDefId) (sig : Signature TypeDefOrRef) :
    ResolveM (List MemberDef) := do
  let m' ← r.projectMember m
  let _ ← inGraph m'.parent
  let _ ← inGraph m'.sig
  inGraph (t.membersLike sig)

theorem membersFor_run {r : Resolver} {m m' : MemberRefId} {t : TypeDefId} {s s₁ : Resolving}
    {g₁ g₂ : Graph} {p : Option MemberParent} {v : Option (Signature TypeDefOrRef)}
    (sig : Signature TypeDefOrRef) (hproject : (r.projectMember m).run s = (m', s₁))
    (hparent : m'.parent.run s₁.graph = (p, g₁)) (hsig : m'.sig.run g₁ = (v, g₂)) :
    (r.membersFor m t sig).run s =
      (((t.membersLike sig).run g₂).1, ⟨((t.membersLike sig).run g₂).2, s₁.requests⟩) := by
  have hread : (inGraph m'.sig).run ⟨g₁, s₁.requests⟩ = (v, ⟨g₂, s₁.requests⟩) := inGraph_run hsig
  rw [membersFor, run_bind, hproject]
  dsimp only
  rw [run_bind, inGraph_run hparent]
  dsimp only
  rw [run_bind, hread]
  rfl

/-! ## What a reference to a member of a type is looked up as -/

/-- Whether the signature of a reference is compared as it is: nothing is replaced by the resolver,
or for want of a module, or since nothing that would be visited stands for anything. -/
def Spared (config : ResolverConfig) (g : Graph) (m : MemberRefId) (sig : Signature TypeDefOrRef) :
    Prop :=
  config.project = false ∨ (m.module.run g).1 = none ∨
    ¬Mention.Touched g (Mention.ofSignature g (some sig))

instance (config : ResolverConfig) (g : Graph) (m : MemberRefId) (sig : Signature TypeDefOrRef) :
    Decidable (Spared config g m sig) :=
  inferInstanceAs (Decidable (_ ∨ _ ∨ ¬_))

/-- A reference to a member of a type is looked up as one to a member of that type of the same
name, and with the signature that takes the place of its own. -/
structure LookedUpAs (config : ResolverConfig) (g : Graph) (m : MemberRefId) (t : TypeDefId)
    (sig : Signature TypeDefOrRef) (g' : Graph) (m' : MemberRefId) (sig' : Signature TypeDefOrRef) :
    Prop where
  grown : g.Grown g'
  present : g'.present m'.node
  parent : MemberRefId.lazyParent.value g' m' = some (.typeDef t)
  signature : MemberRefId.lazySig.value g' m' = some sig'
  name : (g'.get m').name = (g.get m).name
  spared : Spared config g m sig → sig' = sig
  replaced : ¬Spared config g m sig → SignatureRewrite g' (some sig) (some sig')

section Projected

variable {source : Option AssemblySource} {config : ResolverConfig} {r : Resolver} {s : Resolving}
  {m : MemberRefId} {t : TypeDefId} {sig : Signature TypeDefOrRef}

/-- What is replaced is replaced by the usual projection, where there is one. -/
theorem projectMember_run (hr : Resolver.build source none config = .ok r) :
    (r.projectMember m).run s = if config.project
      then (((memberRef m).run s.graph).1.getD m, ⟨((memberRef m).run s.graph).2, s.requests⟩)
      else (m, s) := by
  cases source with
  | none => cases hr
  | some source =>
    obtain rfl := Except.ok.inj hr
    rw [projectMember]
    cases config.project <;> rfl

theorem projectMember_lookedUpAs (hr : Resolver.build source none config = .ok r)
    (hg : s.graph.Prepared) (hm : s.graph.present m.node) (ht : s.graph.present t.node)
    (hparent : (m.parent.run s.graph).1 = some (.typeDef t))
    (hsig : (m.sig.run s.graph).1 = some sig) :
    ∃ m' s' sig', (r.projectMember m).run s = (m', s') ∧
      LookedUpAs config s.graph m t sig s'.graph m' sig' := by
  have unchanged : Spared config s.graph m sig → LookedUpAs config s.graph m t sig s.graph m sig :=
    fun h => ⟨.refl _, hm, hparent, hsig, rfl, fun _ => rfl, fun h' => absurd h h'⟩
  rw [projectMember_run hr]
  cases hproject : config.project with
  | false => exact ⟨m, s, sig, rfl, unchanged (Or.inl hproject)⟩
  | true =>
    rw [if_pos rfl]
    cases hmodule : (m.module.run s.graph).1 with
    | none =>
      have hrun : (memberRef m).run s.graph = (none, s.graph) := by
        rw [memberRef, run_bind, hmodule]
        rfl
      rw [hrun]
      exact ⟨m, s, sig, rfl, unchanged (Or.inr (Or.inl hmodule))⟩
    | some module =>
      have hrefs : ∀ u ∈ MemberParent.refs (m.parent.run s.graph).1, s.graph.present u.node := by
        intro u hu
        rw [hparent] at hu
        rw [List.mem_singleton.mp hu]
        exact ht
      obtain ⟨hgrown, hrewrite, hsome⟩ :=
        memberRef_grows hg hm (Option.isSome_of_eq_some hmodule) hrefs
      rw [Mention.ofMember, hparent, hsig] at hsome
      generalize (memberRef m).run s.graph = run at hgrown hrewrite hsome
      have hp := hrewrite.parent
      have hs := hrewrite.sig
      rw [hparent] at hp
      rw [hsig] at hs
      obtain ⟨sig', hsig'⟩ := hs.isSome
      rw [hsig'] at hs
      refine ⟨_, _, sig', rfl, hgrown, hrewrite.present, hp.typeDef, hsig', ?_, ?_, fun _ => hs⟩
      · exact hrewrite.name fun u hu => by rw [hparent] at hu; cases hu
      · rintro (hoff | hdead | huntouched)
        · cases hoff.symm.trans hproject
        · cases hdead.symm.trans hmodule
        · have hnone : run.1 = none :=
            Option.not_isSome_iff_eq_none.mp fun h => huntouched (hsome.mp h)
          have hread : MemberRefId.lazySig.value run.2 (run.1.getD m) = some sig := by
            rw [hnone]
            exact (hgrown.member hm).2.1.trans hsig
          exact Option.some.inj (hsig'.symm.trans hread)

/-- What is known when the members of a type have been listed: the graph has grown, the members
are compared with a signature, and nothing that this takes is missing. -/
structure ListedFor (config : ResolverConfig) (r : Resolver) (s : Resolving) (m : MemberRefId)
    (t : TypeDefId) (sig : Signature TypeDefOrRef) (xs : List MemberDef) (s' : Resolving)
    (sig' : Signature TypeDefOrRef) (g : Graph) : Prop where
  grown : s.graph.Grown s'.graph
  listed : (t.membersLike sig').run g = (xs, s'.graph)
  resolved : (r.resolveMember m).run s =
    (r.findMember (s.graph.get m).name.lossy sig' recursionBound t).run ⟨g, s'.requests⟩
  present : ∀ x ∈ xs, s'.graph.present x.node
  refs : ∀ u ∈ sig.refs, s.graph.present u.node
  refs' : ∀ u ∈ sig'.refs, s'.graph.present u.node
  spared : Spared config s.graph m sig → sig' = sig
  replaced : ¬Spared config s.graph m sig → SignatureRewrite s'.graph (some sig) (some sig')

theorem listedFor (hr : Resolver.build source none config = .ok r) (hg : s.graph.Prepared)
    (hm : s.graph.present m.node) (ht : s.graph.present t.node)
    (hparent : (m.parent.run s.graph).1 = some (.typeDef t))
    (hsig : (m.sig.run s.graph).1 = some sig) {xs : List MemberDef} {s' : Resolving}
    (hlist : (r.membersFor m t sig).run s = (xs, s')) :
    ∃ sig' g, ListedFor config r s m t sig xs s' sig' g := by
  obtain ⟨m', s₁, sig', hproject, hlooked⟩ := projectMember_lookedUpAs hr hg hm ht hparent hsig
  -- the class and the signature are read again, from the reference that is looked up
  obtain ⟨hgrown₂, -⟩ := grows_parent hlooked.present
  have hm₂ := hgrown₂.present (by rintro ⟨⟩) hlooked.present
  have hparent' : m'.parent.run s₁.graph = (some (.typeDef t), (m'.parent.run s₁.graph).2) :=
    Prod.ext hlooked.parent rfl
  generalize (m'.parent.run s₁.graph).2 = g₂ at *
  obtain ⟨hgrown₃, -⟩ := grows_memberSig hm₂
  have hsig' : m'.sig.run g₂ = (some sig', (m'.sig.run g₂).2) :=
    Prod.ext ((hgrown₂.member hlooked.present).2.1.trans hlooked.signature) rfl
  generalize (m'.sig.run g₂).2 = g₃ at *
  have hgrown : s.graph.Grown g₃ := (hlooked.grown.trans hgrown₂).trans hgrown₃
  have hname : (g₃.get m').name = (s.graph.get m).name :=
    ((hgrown₂.trans hgrown₃).member hlooked.present).2.2.trans hlooked.name
  have hg₃ := hg.grown hgrown
  have hsort : t.membersLike sig' = t.membersLike sig := by
    by_cases hspared : Spared config s.graph m sig
    · rw [hlooked.spared hspared]
    · cases hlooked.replaced hspared with
      | method _ | field _ | other _ => rfl
  -- so the members are listed in the graph that this leads to
  have hrun := membersFor_run (t := t) sig hproject hparent' hsig'
  rw [← hsort] at hrun
  obtain ⟨hxs, hs'⟩ := Prod.ext_iff.mp (hrun.symm.trans hlist)
  dsimp only at hxs hs'
  subst hxs hs'
  have hlisted := prepares_membersLike t sig' g₃ hg₃
  have hsigRefs : ∀ u ∈ sig.refs, s.graph.present u.node := by
    have hrefs := MemberRefId.lazySig.refs_value (hg.safe fun _ => rfl) m
    rwa [show MemberRefId.lazySig.value s.graph m = some sig from hsig] at hrefs
  have hsigRefs' : ∀ u ∈ sig'.refs, s₁.graph.present u.node := by
    have hrefs := MemberRefId.lazySig.refs_value ((hg.grown hlooked.grown).safe fun _ => rfl) m'
    rwa [hlooked.signature] at hrefs
  have hlater : s₁.graph.Grown ((t.membersLike sig').run g₃).2 :=
    (hgrown₂.trans hgrown₃).trans hlisted
  refine ⟨sig', g₃, hgrown.trans hlisted, rfl, ?_, ?_, hsigRefs, ?_, hlooked.spared, ?_⟩
  · have hresolved := resolveMember_typeDef hproject hparent' hsig'
    rwa [hname] at hresolved
  · exact (TypeDefId.membersLike_whole hg₃.toWhole rfl).2
  · exact hlater.present_all hsigRefs'
  · intro hspared
    exact (hlooked.replaced hspared).grown (hg.grown hlooked.grown).toWhole hlater
      (hlooked.grown.present_all hsigRefs) hsigRefs'

section Listed

variable {xs : List MemberDef} {s' : Resolving} {sig' : Signature TypeDefOrRef} {g : Graph}
  (h : ListedFor config r s m t sig xs s' sig' g) (hg : s.graph.Prepared) {x : MemberDef}
  (hx : x ∈ xs) (hsame : x.signature s'.graph = some sig) (hspared : ¬Spared config s.graph m sig)

include h hg hx hsame hspared

/-- A member of the very signature of a reference is equal to what the reference is looked up as
only if everything that is replaced keeps its names. -/
theorem ListedFor.kept_of_answers (hanswers : ((x.answers sig').run s'.graph).1 = true) :
    Mention.Kept s.graph (Mention.ofSignature s.graph (some sig)) := by
  have hg' := hg.grown h.grown
  rw [MemberDef.answers_iff hg'.intact (h.present x hx) hsame h.refs'] at hanswers
  have hkept := signaturesAgree_kept hg'.intact (h.replaced hspared)
    (h.grown.present_all h.refs) h.refs' hanswers
  rwa [Mention.ofSignature_grown (s := some sig) hg.toWhole h.grown h.refs, Mention.kept_grown h.grown
    (Mention.ofSignature_present (s := some sig) hg.toWhole h.refs)] at hkept

/-- And so it is then, where the comparison is not cut off. -/
theorem ListedFor.answers_of_kept (hspelled : Spelled s'.graph sig)
    (hkept : Mention.Kept s.graph (Mention.ofSignature s.graph (some sig))) :
    ((x.answers sig').run s'.graph).1 = true := by
  have hg' := hg.grown h.grown
  rw [MemberDef.answers_iff hg'.intact (h.present x hx) hsame h.refs']
  refine kept_signaturesAgree hg'.intact (h.replaced hspared) (h.grown.present_all h.refs) h.refs'
    hspelled ?_
  rwa [Mention.ofSignature_grown (s := some sig) hg.toWhole h.grown h.refs, Mention.kept_grown h.grown
    (Mention.ofSignature_present (s := some sig) hg.toWhole h.refs)]

end Listed

/-- **A reference to a member of a type finds a listed member of its name and its very signature
if what is replaced in the signature keeps its names, and loses it otherwise.**  Let the name be
text, and the signature within the bound of comparisons, so that it is equal to itself.  Where
nothing is replaced, and where all that is replaced keeps its namespace and its name within the
bound, the reference is resolved to a member that the type lists.  Where anything gets another
name it is resolved to nothing, if the members of the name are all of that signature and the type
has no base. -/
theorem resolveMember_projected (hr : Resolver.build source none config = .ok r)
    (hg : s.graph.Prepared) (hm : s.graph.present m.node) (ht : s.graph.present t.node)
    (hparent : (m.parent.run s.graph).1 = some (.typeDef t))
    (hsig : (m.sig.run s.graph).1 = some sig) (htext : (s.graph.get m).name.text?.isSome)
    {xs : List MemberDef} {s' : Resolving} (hlist : (r.membersFor m t sig).run s = (xs, s'))
    {x : MemberDef} (hx : x ∈ xs) (hname : x.name s'.graph = (s.graph.get m).name)
    (hsame : x.signature s'.graph = some sig)
    (hequal : ((x.answers sig).run s'.graph).1 = true) :
    ((Spared config s.graph m sig ∨ Spelled s'.graph sig ∧
        Mention.Kept s.graph (Mention.ofSignature s.graph (some sig))) →
      ∃ y ∈ xs, ∃ s'', (r.resolveMember m).run s = (some y, s'') ∧
        y.name s''.graph = (s.graph.get m).name) ∧
    ((¬Spared config s.graph m sig ∧
        ¬Mention.Kept s.graph (Mention.ofSignature s.graph (some sig))) →
      (∀ y ∈ xs, y.name s'.graph = (s.graph.get m).name → y.signature s'.graph = some sig) →
      (t.base.run s'.graph).1 = none → ((r.resolveMember m).run s).1 = none) := by
  obtain ⟨sig', g, h⟩ := listedFor hr hg hm ht hparent hsig hlist
  have hg' := hg.grown h.grown
  rw [← Name.ofString_lossy_iff] at htext
  obtain ⟨g₁, hconsulted, hown⟩ := TypeDefId.ownMember_run hg'.intact h.listed h.present h.refs'
    (s.graph.get m).name.lossy
  rw [h.resolved]
  generalize (s.graph.get m).name = name at hname htext hown ⊢
  -- a member fits by its name and by its signature
  have hfits : ∀ y : MemberDef, y.fitsIn s'.graph name.lossy sig' = true ↔
      y.name s'.graph = name ∧ ((y.answers sig').run s'.graph).1 = true := by
    intro y
    rw [MemberDef.fitsIn, Bool.and_eq_true, Name.isText_iff, htext]
  constructor
  · intro hkept
    have hanswers : ((x.answers sig').run s'.graph).1 = true := by
      by_cases hspared : Spared config s.graph m sig
      · rwa [h.spared hspared]
      · obtain ⟨hspelled, hkept⟩ := hkept.resolve_left hspared
        exact h.answers_of_kept hg hx hsame hspared hspelled hkept
    have hx' := (hfits x).mpr ⟨hname, hanswers⟩
    obtain ⟨y, hfirst⟩ := Option.isSome_iff_exists.mp (List.find?_isSome.mpr ⟨x, hx, hx'⟩)
    rw [hfirst] at hown
    refine ⟨y, List.mem_of_find?_eq_some hfirst, _, findMember_own hown _, ?_⟩
    rw [hconsulted.sameColumns.name]
    exact ((hfits y).mp (List.find?_some hfirst)).1
  · rintro ⟨hspared, hlost⟩ honly hbase
    have hnone : xs.find? (MemberDef.fitsIn s'.graph name.lossy sig') = none := by
      refine List.find?_eq_none.mpr fun y hy hy' => hlost ?_
      obtain ⟨hnamed, hanswers⟩ := (hfits y).mp hy'
      exact h.kept_of_answers hg hy (honly y hy hnamed) hspared hanswers
    rw [hnone] at hown
    exact findMember_baseless hown ((hconsulted.base t).trans hbase) _

end Projected

/-! ## A method that takes what is replaced -/

/-- The signature of a method that takes what a reference refers to. -/
def taker (r : TypeRefId) : MethodSig TypeDefOrRef :=
  ⟨default, .leaf .void, [.named .classType (.typeRef r)], []⟩

/-- A graph of a type with a method that takes what a reference into a Windows Runtime assembly
refers to, and of a reference to a member of the type, of the same name and signature. -/
def taking (space name : String) : Graph :=
  ((do
    let m : ModuleId ← make .module ⟨0, .inMemory, .empty, Guid.zero, none, some [], some []⟩
    let a ← makeAssemblyRef default AssemblyFlags.windowsRuntime
    let r ← makeTypeRef m (.ofString space) (.ofString name) (some (.assemblyRef a))
    let t ← makeTypeDef .empty .empty 0
    let method ← makeMethodDef .empty 0 (some (taker r))
    let _ ← Ownership.add .methods t.node method.key
    let _ ← makeMemberRef m .empty (some (.typeDef t)) (some (.method (taker r)))
    return ()
    : GraphM Unit).run Graph.empty).2

/-- The resolver that asks for nothing outside the graph. -/
def asking (config : ResolverConfig) : Resolver :=
  ⟨fun _ _ _ => none, if config.project then some .windowsRuntime else none, config⟩

/-- The budget is enough for a method that takes what a reference into an assembly refers to. -/
theorem spelled_taker {g : Graph} {r : TypeRefId} (h : (r.declaringType.run g).1 = none) :
    Spelled g (.method (taker r)) := by
  have hshallow : CompareOptions.Shallow g (.typeRef r) := by
    refine ⟨[r], .step ?_, by simp [recursionBound]⟩
    rw [h]
    exact .ended
  refine ⟨trivial, fun t ht => ?_⟩
  rw [List.mem_singleton.mp ht]
  exact hshallow

/-- A type that keeps its names is found, and one that does not is lost. -/
theorem resolveMember_taking :
    let m : MemberRefId := ⟨.built 5⟩
    (((asking {}).resolveMember m).run ⟨taking "Windows.UI" "Color", []⟩).1 =
        some (.method ⟨.built 4⟩) ∧
      (((asking {}).resolveMember m).run ⟨taking "Windows.Foundation" "Uri", []⟩).1 = none := by
  have built : Resolver.build (some fun _ _ _ => none) none {} = .ok (asking {}) := rfl
  constructor
  · obtain ⟨hfound, -⟩ := resolveMember_projected (m := ⟨.built 5⟩) (t := ⟨.built 3⟩)
      (s := ⟨taking "Windows.UI" "Color", []⟩) (x := .method ⟨.built 4⟩) built (by decide +kernel)
      (by decide +kernel) (by decide +kernel) (by decide +kernel) rfl (by decide +kernel)
      (Prod.ext (by decide +kernel : _ = [.method ⟨.built 4⟩]) rfl) (List.mem_singleton_self _)
      (by decide +kernel) rfl (by decide +kernel)
    obtain ⟨y, hy, s', hrun, -⟩ := hfound (Or.inr ⟨spelled_taker (by decide +kernel), by decide +kernel⟩)
    rw [hrun, List.mem_singleton.mp hy]
  · obtain ⟨-, hlost⟩ := resolveMember_projected (m := ⟨.built 5⟩) (t := ⟨.built 3⟩)
      (s := ⟨taking "Windows.Foundation" "Uri", []⟩) (x := .method ⟨.built 4⟩) built
      (by decide +kernel) (by decide +kernel) (by decide +kernel) (by decide +kernel) rfl
      (by decide +kernel) (Prod.ext (by decide +kernel : _ = [.method ⟨.built 4⟩]) rfl)
      (List.mem_singleton_self _) (by decide +kernel) rfl (by decide +kernel)
    refine hlost (by decide +kernel) (fun y hy _ => ?_) (by decide +kernel)
    rw [List.mem_singleton.mp hy]
    rfl

/-- **So a method that is listed in the type of a reference, with its name and its very signature,
need not be found**, though it is if nothing is replaced. -/
theorem unresolved_taking :
    let g := taking "Windows.Foundation" "Uri"
    let m : MemberRefId := ⟨.built 5⟩
    let t : TypeDefId := ⟨.built 3⟩
    let method : MethodDefId := ⟨.built 4⟩
    (m.sig.run g).1 = (method.sig.run g).1.map .method ∧
      (m.parent.run g).1 = some (.typeDef t) ∧ (t.methods.run g).1 = [method] ∧
      (g.get method).name = (g.get m).name ∧ (g.get m).name.text?.isSome ∧
      (((MemberDef.method method).answers (.method (taker ⟨.built 2⟩))).run g).1 = true ∧
      (((asking {}).resolveMember m).run ⟨g, []⟩).1 = none ∧
      (((asking ⟨false, 30⟩).resolveMember m).run ⟨g, []⟩).1 = some (.method method) :=
  ⟨rfl, by decide +kernel⟩

end Resolver

end CliMetadata
