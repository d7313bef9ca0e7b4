import CliMetadata.Proofs.Ownership.Asides
import CliMetadata.Proofs.Resolution.ProjectedMembers

/-!
# Members of base types

A member is looked for in a type and, where the type has none, along its base types.  There are two
such walks: one that follows bases without resolving anything (`TypeDefId.resolveMember`), and that
of the resolver (`Resolver.findMember`), which asks for the module of each type on its way.  Both are
bounded by the same number, but the first one counts base types with it and the second one types.
So **they agree on every hierarchy that needs no resolving, cyclic ones included, unless the member
is first found in the type right at the bound**: that type is reached by the first walk alone
(`Resolver.resolveMember_eq_iff`).

`TypeDefId.search` describes the common course of the walks through a number of types.  What the
resolver asks on the way makes no difference, as it is no more than where types are
(`Graph.Beside`).
-/

namespace CliMetadata

open CliMetadata.Graph Loading Stateful

/-! ## The course of a walk -/

/-- What comes of looking for a member in the types of a hierarchy, the nearest first. -/
inductive MemberSearch where
  /-- A type has such a member, and those before it, so many, have none. -/
  | found (place : Nat) (member : MemberDef)
  /-- None of the types that have been looked at has one. -/
  | missing
  /-- A type is not there, or its base is not a type or a specification of one. -/
  | astray
deriving DecidableEq

namespace MemberSearch

/-- What comes of a search that began one type further down. -/
def below : MemberSearch → MemberSearch
  | found place member => found (place + 1) member
  | other => other

/-- The member that has been found. -/
def member? : MemberSearch → Option MemberDef
  | found _ member => some member
  | _ => none

@[simp] theorem member?_below (s : MemberSearch) : s.below.member? = s.member? := by
  cases s <;> rfl

@[simp] theorem below_eq_astray {s : MemberSearch} : s.below = .astray ↔ s = .astray := by
  cases s <;> simp [below]

@[simp] theorem below_eq_found {s : MemberSearch} {place : Nat} {m : MemberDef} :
    s.below = .found place m ↔ ∃ k, place = k + 1 ∧ s = .found k m := by
  cases s with
  | found k m' =>
    simp only [below, found.injEq]
    constructor
    · rintro ⟨rfl, rfl⟩
      exact ⟨k, rfl, rfl, rfl⟩
    · rintro ⟨_, rfl, rfl, rfl⟩
      exact ⟨rfl, rfl⟩
  | missing | astray => simp [below]

end MemberSearch

namespace TypeDefId

/-- Looks for a member in a number of types: a type, its base, the base of that, and so on. -/
def search (name : String) (sig : Signature TypeDefOrRef) :
    (types : Nat) → TypeDefId → GraphM MemberSearch
  | 0, _ => return .missing
  | n + 1, t => do
    match ← t.ownMember name sig with
    | some found => return .found 0 found
    | none =>
      if !(← get).present t.node then return .astray
      match ← t.base with
      | none => return .missing
      | some base =>
        match ← plainBase base with
        | none => return .astray
        | some above => return (← search name sig n above).below

variable {name : String} {sig : Signature TypeDefOrRef} {t : TypeDefId} {g g' g₁ g₂ g₃ : Graph}

/-- **How a search goes on from a type.** -/
inductive Standing (name : String) (sig : Signature TypeDefOrRef) (t : TypeDefId) (g : Graph) : Prop
  | own {m : MemberDef} {g₁ : Graph} (hown : (t.ownMember name sig).run g = (some m, g₁))
  | gone {g₁ : Graph} (hown : (t.ownMember name sig).run g = (none, g₁))
      (hthere : g₁.present t.node = false)
  | top {g₁ g₂ : Graph} (hown : (t.ownMember name sig).run g = (none, g₁))
      (hthere : g₁.present t.node = true) (hbase : t.base.run g₁ = (none, g₂))
  | strays {base : TypeDefOrRef} {g₁ g₂ g₃ : Graph}
      (hown : (t.ownMember name sig).run g = (none, g₁)) (hthere : g₁.present t.node = true)
      (hbase : t.base.run g₁ = (some base, g₂)) (hplain : (plainBase base).run g₂ = (none, g₃))
  | climbs {base : TypeDefOrRef} {above : TypeDefId} {g₁ g₂ g₃ : Graph}
      (hown : (t.ownMember name sig).run g = (none, g₁)) (hthere : g₁.present t.node = true)
      (hbase : t.base.run g₁ = (some base, g₂))
      (hplain : (plainBase base).run g₂ = (some above, g₃))

theorem standing (name : String) (sig : Signature TypeDefOrRef) (t : TypeDefId) (g : Graph) :
    Standing name sig t g := by
  rcases hown : (t.ownMember name sig).run g with ⟨_ | m, g₁⟩
  · cases hthere : g₁.present t.node with
    | false => exact .gone hown hthere
    | true =>
      rcases hbase : t.base.run g₁ with ⟨_ | base, g₂⟩
      · exact .top hown hthere hbase
      · rcases hplain : (plainBase base).run g₂ with ⟨_ | above, g₃⟩
        · exact .strays hown hthere hbase hplain
        · exact .climbs hown hthere hbase hplain
  · exact .own hown

section Steps

variable (n : Nat)

theorem search_own {m : MemberDef} (hown : (t.ownMember name sig).run g = (some m, g₁)) :
    ((t.search name sig (n + 1)).run g).1 = .found 0 m := by
  rw [search, run_bind, hown]
  rfl

variable (hown : (t.ownMember name sig).run g = (none, g₁))

include hown

theorem search_gone (hthere : g₁.present t.node = false) :
    ((t.search name sig (n + 1)).run g).1 = .astray := by
  rw [search, run_bind, hown]
  dsimp only
  rw [run_get_bind, hthere]
  rfl

variable (hthere : g₁.present t.node = true)

include hthere

theorem search_top (hbase : t.base.run g₁ = (none, g₂)) :
    ((t.search name sig (n + 1)).run g).1 = .missing := by
  rw [search, run_bind, hown]
  dsimp only
  rw [run_get_bind, hthere, if_neg (by decide), run_bind, hbase]
  rfl

variable {base : TypeDefOrRef} (hbase : t.base.run g₁ = (some base, g₂))

include hbase

theorem search_strays (hplain : (plainBase base).run g₂ = (none, g₃)) :
    ((t.search name sig (n + 1)).run g).1 = .astray := by
  rw [search, run_bind, hown]
  dsimp only
  rw [run_get_bind, hthere, if_neg (by decide), run_bind, hbase]
  dsimp only
  rw [run_bind, hplain]
  rfl

theorem search_climbs {above : TypeDefId} (hplain : (plainBase base).run g₂ = (some above, g₃)) :
    ((t.search name sig (n + 1)).run g).1 = ((above.search name sig n).run g₃).1.below := by
  rw [search, run_bind, hown]
  dsimp only
  rw [run_get_bind, hthere, if_neg (by decide), run_bind, hbase]
  dsimp only
  rw [run_bind, hplain]
  rfl

end Steps

/-- A search through one type more finds what has been found before, and one more. -/
theorem search_found_iff {m : MemberDef} : ∀ (n : Nat) {place : Nat} {t : TypeDefId} {g : Graph},
    ((t.search name sig n).run g).1 = .found place m ↔
      ((t.search name sig (n + 1)).run g).1 = .found place m ∧ place < n
  | 0, _, _, _ => iff_of_false nofun fun h => Nat.not_lt_zero _ h.2
  | n + 1, place, t, g => by
    cases standing name sig t g with
    | own hown =>
      rw [search_own _ hown, search_own _ hown]
      refine ⟨fun h => ⟨h, ?_⟩, And.left⟩
      cases h
      exact Nat.succ_pos n
    | gone hown hthere =>
      rw [search_gone _ hown hthere, search_gone _ hown hthere]
      simp
    | top hown hthere hbase =>
      rw [search_top _ hown hthere hbase, search_top _ hown hthere hbase]
      simp
    | strays hown hthere hbase hplain =>
      rw [search_strays _ hown hthere hbase hplain, search_strays _ hown hthere hbase hplain]
      simp
    | climbs hown hthere hbase hplain =>
      rw [search_climbs _ hown hthere hbase hplain, search_climbs _ hown hthere hbase hplain,
        MemberSearch.below_eq_found, MemberSearch.below_eq_found]
      constructor
      · rintro ⟨k, rfl, hk⟩
        obtain ⟨hk, hlt⟩ := (search_found_iff n).mp hk
        exact ⟨⟨k, rfl, hk⟩, Nat.succ_lt_succ hlt⟩
      · rintro ⟨⟨k, rfl, hk⟩, hlt⟩
        exact ⟨k, rfl, (search_found_iff n).mpr ⟨hk, Nat.lt_of_succ_lt_succ hlt⟩⟩

/-- A member is found within the number of types. -/
theorem search_place {m : MemberDef} {n place : Nat}
    (h : ((t.search name sig n).run g).1 = .found place m) : place < n :=
  ((search_found_iff n).mp h).2

/-- Nothing but methods and fields is ever found. -/
theorem search_other (hsort : (sig.method?.isNone && sig.field?.isNone) = true) :
    ∀ (n : Nat) (t : TypeDefId) (g : Graph), ((t.search name sig n).run g).1.member? = none
  | 0, _, _ => rfl
  | n + 1, t, g => by
    cases standing name sig t g with
    | own hown =>
      cases sig with
      | method _ | field _ => cases hsort
      | _ => cases hown
    | gone hown hthere =>
      rw [search_gone _ hown hthere]
      rfl
    | top hown hthere hbase =>
      rw [search_top _ hown hthere hbase]
      rfl
    | strays hown hthere hbase hplain =>
      rw [search_strays _ hown hthere hbase hplain]
      rfl
    | climbs hown hthere hbase hplain =>
      rw [search_climbs _ hown hthere hbase hplain, MemberSearch.member?_below]
      exact search_other hsort n _ _

/-! ## The walk that resolves nothing -/

/-- The walk along bases that need no resolving, through at most `bound` of them. -/
def memberWithin (name : String) (sig : Signature TypeDefOrRef) (bound : Nat) (t : TypeDefId) :
    GraphM (Option MemberDef) := do
  match ← t.ownMember name sig with
  | some found => return some found
  | none => inheritedMember name sig bound (← t.base)

theorem memberWithin_own {m : MemberDef} (bound : Nat)
    (hown : (t.ownMember name sig).run g = (some m, g₁)) :
    (t.memberWithin name sig bound).run g = (some m, g₁) := by
  rw [memberWithin, run_bind, hown]
  rfl

theorem memberWithin_base {base : Option TypeDefOrRef} (bound : Nat)
    (hown : (t.ownMember name sig).run g = (none, g₁)) (hbase : t.base.run g₁ = (base, g₂)) :
    (t.memberWithin name sig bound).run g = (inheritedMember name sig bound base).run g₂ := by
  rw [memberWithin, run_bind, hown]
  dsimp only
  rw [run_bind, hbase]

theorem memberWithin_climbs {base : TypeDefOrRef} {above : TypeDefId} (bound : Nat)
    (hown : (t.ownMember name sig).run g = (none, g₁)) (hbase : t.base.run g₁ = (some base, g₂))
    (hplain : (plainBase base).run g₂ = (some above, g₃)) :
    (t.memberWithin name sig (bound + 1)).run g = (above.memberWithin name sig bound).run g₃ := by
  rw [memberWithin_base _ hown hbase, inheritedMember, run_bind, hplain]
  rfl

/-- **The walk that resolves nothing looks at one type more than its bound.** -/
theorem memberWithin_eq : ∀ {bound : Nat} {t : TypeDefId} {g : Graph},
    ((t.search name sig bound).run g).1 ≠ .astray →
    ((t.memberWithin name sig bound).run g).1 = ((t.search name sig (bound + 1)).run g).1.member?
  | 0, t, g, _ => by
    have hends : ∀ base g, (inheritedMember name sig 0 base).run g = (none, g) := fun _ _ => rfl
    cases standing name sig t g with
    | own hown =>
      rw [search_own _ hown, memberWithin_own _ hown]
      rfl
    | gone hown hthere =>
      rw [search_gone _ hown hthere, memberWithin_base _ hown rfl]
      rfl
    | top hown hthere hbase =>
      rw [search_top _ hown hthere hbase, memberWithin_base _ hown hbase]
      rfl
    | strays hown hthere hbase hplain =>
      rw [search_strays _ hown hthere hbase hplain, memberWithin_base _ hown hbase]
      rfl
    | climbs hown hthere hbase hplain =>
      rw [search_climbs _ hown hthere hbase hplain, memberWithin_base _ hown hbase]
      rfl
  | n + 1, t, g, hplainly => by
    cases standing name sig t g with
    | own hown =>
      rw [search_own _ hown, memberWithin_own _ hown]
      rfl
    | gone hown hthere => exact absurd (search_gone _ hown hthere) hplainly
    | top hown hthere hbase =>
      rw [search_top _ hown hthere hbase, memberWithin_base _ hown hbase]
      rfl
    | strays hown hthere hbase hplain =>
      exact absurd (search_strays _ hown hthere hbase hplain) hplainly
    | climbs hown hthere hbase hplain =>
      rw [search_climbs _ hown hthere hbase hplain, Ne, MemberSearch.below_eq_astray] at hplainly
      rw [search_climbs _ hown hthere hbase hplain, memberWithin_climbs _ hown hbase hplain,
        MemberSearch.member?_below]
      exact memberWithin_eq hplainly

/-! ## What agrees beside a walk -/

theorem agrees_ownMember (t : TypeDefId) (name : String) (sig : Signature TypeDefOrRef) :
    Agrees Beside (t.ownMember name sig) := by
  have hlist : Agrees Beside (t.membersLike sig) := by
    have hitems : ∀ e : Edge, e.childKind ≠ .typeDef → Agrees Beside (Ownership.items e t.node) :=
      fun e he => agrees_items he _
    unfold membersLike
    split
    · exact ((hitems .methods (by decide)).bind fun _ => .pure _).bind fun _ => .pure _
    · exact ((hitems .fields (by decide)).bind fun _ => .pure _).bind fun _ => .pure _
    · exact .pure _
  have hanswers : ∀ x : MemberDef, Agrees Beside (x.answers sig) := by
    intro x
    unfold MemberDef.answers
    split
    · refine (agrees_methodSig _).bind fun actual => ?_
      cases actual with
      | none => exact .pure _
      | some actual => exact readsWithin_beside.equalMethodSigs _ _ _
    · refine (agrees_fieldSig _).bind fun actual => ?_
      cases actual with
      | none => exact .pure _
      | some actual => exact readsWithin_beside.equalSigs _ _ _
    · exact .pure _
  have hfits : ∀ x : MemberDef, Agrees Beside (x.fits name sig) := by
    intro x
    refine .look (fun g g' h => ?_) fun g => ?_
    · have hname : x.name g' = x.name g := by
        cases x with
        | method m => exact congrArg MethodDef.name (h.looksAlike.get m)
        | field f => exact congrArg Field.name (h.looksAlike.get f)
      rw [hname]
    · split
      · exact hanswers x
      · exact .pure _
  have hfirst : ∀ xs, Agrees Beside (firstThat (MemberDef.fits name sig) xs) := by
    intro xs
    induction xs with
    | nil => exact .pure _
    | cons x xs ih =>
      refine (hfits x).bind fun passed => ?_
      split
      · exact .pure _
      · exact ih
  rw [ownMember_eq]
  exact hlist.bind hfirst

theorem agrees_scopeType (s : TypeSpecId) : Agrees Beside s.scopeType := by
  have hwithin : ∀ (bound : Nat) (t : Sig), Agrees Beside (TypeSpecId.scopeTypeWithin bound t) := by
    intro bound
    induction bound with
    | zero => exact fun _ => .pure _
    | succ n ih =>
      intro t
      rw [TypeSpecId.scopeTypeWithin]
      split
      · refine (agrees_specSig _).bind fun sig => ?_
        cases sig with
        | none => exact .pure _
        | some t => exact ih t
      · exact .pure _
  refine (agrees_specSig s).bind fun sig => ?_
  cases sig with
  | none => exact .pure _
  | some t => exact hwithin _ t

theorem agrees_plainBase (base : TypeDefOrRef) : Agrees Beside (plainBase base) := by
  cases base with
  | typeDef _ | typeRef _ => exact .pure _
  | typeSpec s =>
    refine (agrees_scopeType s).bind fun type => ?_
    split <;> exact .pure _

/-- So does reading the base of a type that is there. -/
theorem base_beside (h : g.Beside g') (ht : g.present t.node) {base : Option TypeDefOrRef}
    (hrun : t.base.run g = (base, g₁)) :
    ∃ g₁', t.base.run g' = (base, g₁') ∧ g₁.Beside g₁' := by
  have hget := h.looksAlike.get t
  have hread : ∀ g, t.base.run g = (lazyBase.read t).run g := fun _ => rfl
  rw [hread] at hrun ⊢
  cases hv : lazyBase.get (g.get t) with
  | some v =>
    rw [lazyBase.run_held hv] at hrun
    cases hrun
    exact ⟨g', lazyBase.run_held (hget ▸ hv), h⟩
  | none =>
    have hstored : Agrees Beside (lazyBase.stored g t) := agrees_fromStore fun loader rid => by
      refine (agrees_rowAt _ _ _).bind fun row => ?_
      cases row with
      | none => exact .pure _
      | some row => exact agrees_typeDefOrRef _ _
    have hsame : lazyBase.stored g' t = lazyBase.stored g t := by
      unfold LazySlot.stored
      rw [h.origin]
    obtain ⟨v, htold, -⟩ := lazyBase.told_stored g t
    obtain ⟨hvalue, hafter⟩ := hstored g g' h
    rw [lazyBase.run_empty hv] at hrun
    cases hrun
    rw [lazyBase.run_empty (hget ▸ hv), hsame, hvalue]
    refine ⟨_, rfl, ?_⟩
    unfold Graph.update
    rw [hafter.looksAlike.get]
    exact hafter.putType ((htold.quiet.present (by rintro ⟨⟩)).trans ht) rfl

/-- Asking for the module of a type leads aside. -/
theorem aside_module (t : TypeDefId) : Keeps Beside t.module :=
  Keeps.sequential.moduleWithin (fun _ c he => aside_owner he c) _ t

end TypeDefId

/-! ## The walk of the resolver -/

namespace Resolver

open TypeDefId

variable {r : Resolver} {name text : String} {sig : Signature TypeDefOrRef}

/-- A base that needs no resolving resolves to what it is. -/
theorem resolveTypeDefOrRef_plain {base : TypeDefOrRef} {above : TypeDefId} {g g' : Graph}
    (h : (plainBase base).run g = (some above, g')) (source : Option ModuleId)
    (requests : List AssemblyRequest) :
    (r.resolveTypeDefOrRef base source).run ⟨g, requests⟩ = (some above, ⟨g', requests⟩) := by
  cases base with
  | typeDef t =>
    cases h
    rfl
  | typeRef _ => cases h
  | typeSpec s =>
    rw [plainBase, run_bind] at h
    have hread : (inGraph s.scopeType).run ⟨g, requests⟩ =
        ((s.scopeType.run g).1, ⟨(s.scopeType.run g).2, requests⟩) := rfl
    rw [resolveTypeDefOrRef, run_bind, hread]
    cases hv : (s.scopeType.run g).1 with
    | none =>
      rw [hv] at h
      cases h
    | some type =>
      rw [hv] at h
      cases type with
      | typeDef t =>
        cases h
        rfl
      | typeRef _ | typeSpec _ => cases h

/-- The walk goes on in the type that a base resolves to, after asking for the module of the type
whose base it is. -/
theorem findMember_climbs {t above : TypeDefId} {base : TypeDefOrRef} {s : Resolving}
    {g₁ g₂ g₃ : Graph} (bound : Nat) (hsort : ¬(sig.method?.isNone && sig.field?.isNone) = true)
    (hown : (t.ownMember name sig).run s.graph = (none, g₁))
    (hbase : t.base.run g₁ = (some base, g₂))
    (hplain : (plainBase base).run (t.module.run g₂).2 = (some above, g₃)) :
    (r.findMember name sig (bound + 1) t).run s =
      (r.findMember name sig bound above).run ⟨g₃, s.requests⟩ := by
  have hread : (inGraph t.base).run ⟨g₁, s.requests⟩ = (some base, ⟨g₂, s.requests⟩) :=
    inGraph_run hbase
  have hmodule : (inGraph t.module).run ⟨g₂, s.requests⟩ =
      ((t.module.run g₂).1, ⟨(t.module.run g₂).2, s.requests⟩) := rfl
  rw [findMember, if_neg hsort, run_bind, inGraph_run hown]
  dsimp only
  rw [run_bind, hread]
  dsimp only
  rw [run_bind, hmodule]
  dsimp only
  rw [run_bind, resolveTypeDefOrRef_plain hplain]

/-- **The walk of the resolver looks at as many types as its bound.** -/
theorem findMember_eq : ∀ {bound : Nat} {t : TypeDefId} {g : Graph} {s : Resolving},
    g.Beside s.graph → ((t.search name sig bound).run g).1 ≠ .astray →
    ((r.findMember name sig bound t).run s).1 = ((t.search name sig bound).run g).1.member?
  | 0, _, _, _, _, _ => rfl
  | n + 1, t, g, s, hbeside, hplainly => by
    by_cases hsort : (sig.method?.isNone && sig.field?.isNone) = true
    · rw [search_other hsort, findMember, if_pos hsort]
      rfl
    cases standing name sig t g with
    | own hown =>
      obtain ⟨_, hown', -⟩ := (agrees_ownMember t name sig).result hbeside hown
      rw [search_own _ hown, findMember_own hown']
      rfl
    | gone hown hthere => exact absurd (search_gone _ hown hthere) hplainly
    | top hown hthere hbase =>
      obtain ⟨_, hown', hbeside₁⟩ := (agrees_ownMember t name sig).result hbeside hown
      obtain ⟨_, hbase', -⟩ := base_beside hbeside₁ hthere hbase
      rw [search_top _ hown hthere hbase, findMember_baseless hown' (congrArg Prod.fst hbase')]
      rfl
    | strays hown hthere hbase hplain =>
      exact absurd (search_strays _ hown hthere hbase hplain) hplainly
    | climbs hown hthere hbase hplain =>
      obtain ⟨_, hown', hbeside₁⟩ := (agrees_ownMember t name sig).result hbeside hown
      obtain ⟨_, hbase', hbeside₂⟩ := base_beside hbeside₁ hthere hbase
      -- asking for the module leads aside, and so the walks stay beside each other
      have hasked := hbeside₂.trans (aside_module t _)
      obtain ⟨_, hplain', hbeside₃⟩ := (agrees_plainBase _).result hasked hplain
      rw [search_climbs _ hown hthere hbase hplain, Ne, MemberSearch.below_eq_astray] at hplainly
      rw [search_climbs _ hown hthere hbase hplain, MemberSearch.member?_below,
        findMember_climbs n hsort hown' hbase' hplain']
      exact findMember_eq hbeside₃ hplainly

section Agreement

variable {member : MemberRefId} {s : Resolving} {t : TypeDefId} {g₁ g₂ : Graph}

/-- **The two walks agree unless the member is first found in the type at the bound.**  Let the
class of a reference be a type, its name be text, and let nothing be resolved: each of the types that
are looked at exists, and its base, if it has one, is a type or a specification of one.  Then the
reference resolves to what the type gives for its name and its signature, except where the types
before the bound have no such member and the next one has: that type gives the member, and the
reference resolves to nothing. -/
theorem resolveMember_eq_iff (hr : r.projection = none)
    (hparent : member.parent.run s.graph = (some (.typeDef t), g₁))
    (hsig : member.sig.run g₁ = (some sig, g₂)) (hname : (g₂.get member).name = .ofString text)
    (hplainly : ((t.search text sig recursionBound).run g₂).1 ≠ .astray) :
    let resolved := ((r.resolveMember member).run s).1
    let walked := ((t.resolveMember text sig).run g₂).1
    let found := ((t.search text sig (recursionBound + 1)).run g₂).1
    (resolved = walked ↔ ∀ m, found ≠ .found recursionBound m) ∧
      ∀ m, found = .found recursionBound m → resolved = none ∧ walked = some m := by
  intro resolved walked found
  have hresolved : resolved = ((t.search text sig recursionBound).run g₂).1.member? := by
    show ((r.resolveMember member).run s).1 = _
    rw [resolveMember_eq hr hparent hsig, hname, Name.lossy_ofString]
    exact findMember_eq (.refl g₂) hplainly
  have hwalked : walked = found.member? := memberWithin_eq hplainly
  have hfirst : ∀ {place m}, ((t.search text sig recursionBound).run g₂).1 = .found place m ↔
      found = .found place m ∧ place < recursionBound := search_found_iff _
  have hlast : ∀ m, found = .found recursionBound m → resolved = none ∧ walked = some m := by
    intro m hm
    refine ⟨?_, by rw [hwalked, hm]; rfl⟩
    rw [hresolved]
    cases hv : ((t.search text sig recursionBound).run g₂).1 with
    | found place m' =>
      obtain ⟨hfound, hlt⟩ := hfirst.mp hv
      cases hm.symm.trans hfound
      exact absurd hlt (Nat.lt_irrefl _)
    | missing | astray => rfl
  refine ⟨⟨fun hsame m hm => ?_, fun hnot => ?_⟩, hlast⟩
  · obtain ⟨hnone, hsome⟩ := hlast m hm
    rw [hsame, hsome] at hnone
    cases hnone
  · rw [hresolved, hwalked]
    cases hv : found with
    | found place m =>
      have hplace : place < recursionBound + 1 := search_place hv
      have hne : place ≠ recursionBound := by
        rintro rfl
        exact hnot m hv
      rw [hfirst.mpr ⟨hv, by omega⟩]
    | missing | astray =>
      cases hv' : ((t.search text sig recursionBound).run g₂).1 with
      | found place m => cases hv.symm.trans (hfirst.mp hv').1
      | missing | astray => rfl

end Agreement

/-! ## A chain of types -/

/-- The signature of a method that takes nothing and gives nothing. -/
def plainCall : MethodSig TypeDefOrRef := ⟨default, .leaf .void, [], []⟩

/-- Makes a type with a method, below it a type whose base it is, and so on for a number of types. -/
def ladder : Nat → GraphM TypeDefId
  | 0 => do
    let t ← makeTypeDef .empty .empty 0
    let m ← makeMethodDef (.ofString "f") 0 (some plainCall)
    let _ ← Ownership.add .methods t.node m.key
    return t
  | n + 1 => do
    let base ← ladder n
    make .typeDef ⟨0, .inMemory, 0, .empty, .empty, some (some (.typeDef base))⟩

/-- A graph of a chain of types and of a reference to the method of the last one, whose class is the
first. -/
def climbing (bases : Nat) : Graph :=
  ((do
    let m : ModuleId ← make .module ⟨0, .inMemory, .empty, Guid.zero, none, some [], some []⟩
    let t ← ladder bases
    let _ ← makeMemberRef m (.ofString "f") (some (.typeDef t)) (some (.method plainCall))
    return ()
    : GraphM Unit).run Graph.empty).2

/-- A method of the base is found by both walks. -/
theorem resolveMember_climbing :
    let g := climbing 1
    let member : MemberRefId := ⟨.built 4⟩
    let t : TypeDefId := ⟨.built 3⟩
    (((asking ⟨false, 30⟩).resolveMember member).run ⟨g, []⟩).1 =
      ((t.resolveMember "f" (.method plainCall)).run g).1 := by
  let s : Resolving := ⟨climbing 1, []⟩
  let member : MemberRefId := ⟨.built 4⟩
  have hr : (asking ⟨false, 30⟩).projection = none := rfl
  have hparent : member.parent.run s.graph = (some (.typeDef ⟨.built 3⟩), climbing 1) := rfl
  have hsig : member.sig.run (climbing 1) = (some (.method plainCall), climbing 1) := rfl
  have hname : ((climbing 1).get member).name = .ofString "f" := rfl
  obtain ⟨hiff, -⟩ := resolveMember_eq_iff hr hparent hsig hname (by decide +kernel)
  have hfound : ((search "f" (.method plainCall) (recursionBound + 1) ⟨.built 3⟩).run
      (climbing 1)).1 = .found 1 (.method ⟨.built 2⟩) := by decide +kernel
  refine hiff.mpr fun m hm => ?_
  cases hfound.symm.trans hm

/-- **But one at the end of a hundred bases is found by the walk that resolves nothing, and not by
the resolver.** -/
theorem unresolved_climbing :
    let g := climbing 100
    let member : MemberRefId := ⟨.built 103⟩
    let t : TypeDefId := ⟨.built 102⟩
    (member.parent.run g).1 = some (.typeDef t) ∧ (g.get member).name = .ofString "f" ∧
      (member.sig.run g).1.map (fun sig => ((t.resolveMember "f" sig).run g).1) =
        some (some (.method ⟨.built 2⟩)) ∧
      (((asking ⟨false, 30⟩).resolveMember member).run ⟨g, []⟩).1 = none := by
  decide +kernel

end Resolver

end CliMetadata
