import CliMetadata.Projection
import CliMetadata.Proofs.Comparison.Equality
import CliMetadata.Proofs.Projection.Growth

/-!
# What a projection replaces in a signature

A signature **mentions** references: by name, as modifiers, and in the signatures of the
specifications that it refers to, each within a budget of depth.  The replacement visits most of
these places but not all: it passes by the types of modifiers, the arguments after a sentinel and
what is inside a value array or a module type.  `Mention` is a reference together with whether the
replacement comes by, and `Mention.ofSig` lists the mentions of a signature in order.

`Rewrites g d t t'` says that `t'` is `t` with every reference that stands for something replaced at
the places that are visited, and nothing else.  It is defined one step at a time, like the
comparison of signatures, over the relation of the smaller budget.  **Replacing leads to such a
signature, and gives none exactly where nothing is replaced** (`sig_rewrites`).  From the relation
alone it follows that **what is left to be replaced afterwards is what was passed by**
(`Rewrites.remaining`).
-/

namespace CliMetadata

open CliMetadata.Graph Loading Stateful
open List (Forall₂)

/-- Whether the replacement goes into what a form is put around. -/
def Wrapper.entered : Wrapper → Bool
  | valueArray _ | module _ => false
  | ptr | byRef | szArray | pinned | array _ _ => true

namespace Projection

variable {g g' : Graph}

/-! ## What a reference stands for -/

/-- What the table lists for a reference into a Windows Runtime assembly. -/
def listed (g : Graph) (r : TypeRefId) : Option Mapping :=
  match TypeRefId.lazyScope.value g r with
  | some (.assemblyRef a) =>
    if (g.get a).isWindowsRuntime then Mapping.find? (g.get r).space (g.get r).name else none
  | _ => none

/-- **What a reference stands for**, where its module is there for a reference to that to be made
in. -/
def mapping (g : Graph) (r : TypeRefId) : Option Mapping :=
  if g.alive (g.get r).module.node then listed g r else none

/-- A reference to the type that another one stands for. -/
def StandsFor (g : Graph) (μ : Mapping) (r : TypeRefId) : Prop :=
  ∃ a, TypeRefId.lazyScope.value g r = some (.assemblyRef a) ∧
    (g.get a).isWindowsRuntime = false ∧
    TypeRefId.level g r = (.ofString μ.space, .ofString μ.name)

theorem level_grown (h : g.Grown g') {r : TypeRefId} (hr : g.present r.node) :
    TypeRefId.level g' r = TypeRefId.level g r :=
  (congrArg (fun e : TypeRef => (e.space, e.name)) (h.columns hr) :)

theorem module_grown (h : g.Grown g') {r : TypeRefId} (hr : g.present r.node) :
    (g'.get r).module = (g.get r).module := (congrArg (·.module) (h.columns hr) :)

theorem listed_grown (h : g.Grown g') {r : TypeRefId} (hr : g.present r.node) :
    listed g' r = listed g r := by
  obtain ⟨hspace, hname⟩ := Prod.ext_iff.mp (level_grown h hr)
  unfold listed
  simp only [h.scope hr, h.windows]
  rw [show (g'.get r).space = (g.get r).space from hspace,
    show (g'.get r).name = (g.get r).name from hname]

theorem mapping_grown (h : g.Grown g') {r : TypeRefId} (hr : g.present r.node) :
    mapping g' r = mapping g r := by
  rw [mapping, mapping, module_grown h hr, h.modules, listed_grown h hr]

theorem StandsFor.grown {μ : Mapping} {r : TypeRefId} (hr : g.present r.node) (h : g.Grown g')
    (hstands : StandsFor g μ r) : StandsFor g' μ r := by
  obtain ⟨a, hscope, hwindows, hlevel⟩ := hstands
  exact ⟨a, (h.scope hr).trans hscope, (h.windows a).trans hwindows,
    (level_grown h hr).trans hlevel⟩

/-- It stands for nothing itself. -/
theorem StandsFor.unmapped {μ : Mapping} {r : TypeRefId} (h : StandsFor g μ r) :
    mapping g r = none := by
  obtain ⟨a, hscope, hwindows, -⟩ := h
  have hlisted : listed g r = none := by simp [listed, hscope, hwindows]
  rw [mapping, hlisted, ite_self]

theorem mappingOf_grows {r : TypeRefId} (hr : g.present r.node) :
    g.Grows (mappingOf r) fun _ v => v = listed g r := by
  refine (grows_scope hr).bind fun g₁ scope h₁ hscope => ?_
  rw [← listed_grown h₁ hr, listed, h₁.scope hr, ← hscope]
  cases scope with
  | none => exact Grows.pure rfl
  | some scope =>
    cases scope with
    | assemblyRef a =>
      refine Grows.read ?_
      cases hwindows : (g₁.get a).isWindowsRuntime with
      | true => exact Grows.pure (by simp [hwindows])
      | false => exact Grows.pure (by simp [hwindows])
    | typeRef _ | module _ | moduleRef _ => exact Grows.pure rfl

/-- A reference to a contract assembly is to one of no Windows Runtime types. -/
theorem contract_plain (a : ContractAssembly) : AssemblyRef.isWindowsRuntime
    ⟨0, Token.ofParts .assemblyRef 0, .ofString a.identity.name, a.identity.version,
      a.identity.culture, a.identity.strongName,
      AssemblyFlags.withKey (a.identity.strongName.any StrongName.isKey) 0, []⟩ = false := by
  cases a <;> rfl

/-- **A reference is replaced by one to what it stands for**, where it stands for anything. -/
theorem typeRef_grows (hg : g.Prepared) {r : TypeRefId} (hr : g.present r.node) :
    g.Grows (typeRef r) fun g' out => (mapping g r = none ∧ out = none) ∨
      ∃ μ r', mapping g r = some μ ∧ out = some r' ∧ g'.present r'.node ∧ StandsFor g' μ r' := by
  refine (mappingOf_grows hr).bind fun g₁ v h₁ hv => ?_
  subst hv
  cases hlisted : listed g r with
  | none => exact Grows.pure (Or.inl ⟨by rw [mapping, hlisted, ite_self], rfl⟩)
  | some μ =>
    have hmodule : g₁.Grows r.module fun _ m =>
        m = if g.alive (g.get r).module.node then some (g.get r).module else none := by
      refine ⟨.refl g₁, ?_⟩
      show g₁.upgrade (g₁.get r).module = _
      rw [upgrade, module_grown h₁ hr, h₁.modules]
    refine hmodule.bind fun g₂ m h₂ hm => ?_
    have hg₂ := (hg.grown h₁).grown h₂
    cases halive : g.alive (g.get r).module.node with
    | false =>
      rw [halive, if_neg Bool.false_ne_true] at hm
      subst hm
      exact Grows.pure (Or.inl ⟨by rw [mapping, halive, if_neg Bool.false_ne_true], rfl⟩)
    | true =>
      rw [halive, if_pos rfl] at hm
      subst hm
      refine (grows_makeAssemblyRef hg₂ _ 0 (contract_plain _)).bind fun g₃ a h₃ ha => ?_
      refine (grows_makeTypeRef (hg₂.grown h₃) _ _ _ a).map fun g₄ r' h₄ hr' => Or.inr ?_
      obtain ⟨hpresent, hget⟩ := hr'
      refine ⟨μ, r', by rw [mapping, halive, if_pos rfl, hlisted], rfl, hpresent, a, ?_,
        (h₄.windows a).trans ha, ?_⟩
      · exact TypeRefId.lazyScope.value_held (congrArg (·.scope) hget)
      · rw [TypeRefId.level, hget]

/-! ## Mentions -/

/-- A reference that is mentioned, and whether the replacement comes by there. -/
structure Mention where
  ref : TypeRefId
  visited : Bool
deriving Repr, DecidableEq

namespace Mention

/-- The same references where the replacement does not come by. -/
def passedBy (xs : List Mention) : List Mention := xs.map fun x => { x with visited := false }

/-- The mentions of a type, given those of signatures. -/
def ofType (g : Graph) (ofSig : Sig → List Mention) : TypeDefOrRef → List Mention
  | .typeRef r => [⟨r, true⟩]
  | .typeSpec s => (TypeSpecId.lazySig.value g s).toList.flatMap ofSig
  | .typeDef _ => []

/-- **The mentions of a signature**, within a depth budget. -/
def ofSig (g : Graph) : (depth : Nat) → Sig → List Mention
  | 0, _ => []
  | d + 1, t =>
    match t with
    | .leaf _ | .param _ _ => []
    | .named _ r => ofType g (ofSig g d) r
    | .wrap w next => if w.entered then ofSig g d next else passedBy (ofSig g d next)
    | .modified _ m base => passedBy (ofType g (ofSig g d) m) ++ ofSig g d base
    | .inst generic args => ofSig g d generic ++ args.flatMap (ofSig g d)
    | .fnPtr _ returnType params varargs => ofSig g d returnType ++
        (params.flatMap (ofSig g d) ++ passedBy (varargs.flatMap (ofSig g d)))

/-- Whether any reference is replaced. -/
def Touched (g : Graph) (xs : List Mention) : Prop :=
  ∃ x ∈ xs, x.visited = true ∧ (mapping g x.ref).isSome = true

instance (g : Graph) (xs : List Mention) : Decidable (Touched g xs) := by
  unfold Touched
  infer_instance

/-- The mentions of references that stand for something. -/
def mapped (g : Graph) (xs : List Mention) : List Mention :=
  xs.filter fun x => (mapping g x.ref).isSome

/-- Those of them where the replacement does not come by. -/
def left (g : Graph) (xs : List Mention) : List Mention :=
  xs.filter fun x => !x.visited && (mapping g x.ref).isSome

section Lists

variable {xs ys : List Mention} {α : Type}

@[simp] theorem not_touched_nil : ¬Touched g [] := by simp [Touched]

@[simp] theorem touched_append : Touched g (xs ++ ys) ↔ Touched g xs ∨ Touched g ys := by
  simp only [Touched, List.mem_append, or_and_right, exists_or]

@[simp] theorem touched_flatMap {f : α → List Mention} {as : List α} :
    Touched g (as.flatMap f) ↔ ∃ a ∈ as, Touched g (f a) := by
  simp only [Touched, List.mem_flatMap]
  constructor
  · rintro ⟨x, ⟨a, ha, hx⟩, h⟩
    exact ⟨a, ha, x, hx, h⟩
  · rintro ⟨a, ha, x, hx, h⟩
    exact ⟨x, ⟨a, ha, hx⟩, h⟩

@[simp] theorem not_touched_passedBy : ¬Touched g (passedBy xs) := by
  simp [Touched, passedBy]

@[simp] theorem mapped_append : mapped g (xs ++ ys) = mapped g xs ++ mapped g ys :=
  List.filter_append ..

@[simp] theorem left_append : left g (xs ++ ys) = left g xs ++ left g ys :=
  List.filter_append ..

theorem mapped_flatMap (f : α → List Mention) (as : List α) :
    mapped g (as.flatMap f) = as.flatMap fun a => mapped g (f a) := by
  induction as with
  | nil => rfl
  | cons a as ih => rw [List.flatMap_cons, List.flatMap_cons, mapped_append, ih]

theorem left_flatMap (f : α → List Mention) (as : List α) :
    left g (as.flatMap f) = as.flatMap fun a => left g (f a) := by
  induction as with
  | nil => rfl
  | cons a as ih => rw [List.flatMap_cons, List.flatMap_cons, left_append, ih]

/-- All that is left is left where the replacement does not come by. -/
theorem mapped_passedBy (xs : List Mention) : mapped g (passedBy xs) = left g (passedBy xs) := by
  refine List.filter_congr fun x hx => ?_
  obtain ⟨y, -, rfl⟩ := List.mem_map.mp hx
  simp

/-- Nothing is replaced where all that stands for something is what was passed by. -/
theorem not_touched (h : mapped g xs = left g ys) : ¬Touched g xs := by
  rintro ⟨x, hx, hvisited, hmapped⟩
  have hmem : x ∈ left g ys := h ▸ List.mem_filter.mpr ⟨hx, hmapped⟩
  simp [left, hvisited] at hmem

/-- Nothing is left of what stands for something exactly where nothing is replaced. -/
theorem mapped_eq_left : mapped g xs = left g xs ↔ ¬Touched g xs := by
  refine ⟨not_touched, fun h => List.filter_congr fun x hx => ?_⟩
  cases hvisited : x.visited with
  | false => simp
  | true =>
    have hunmapped : ¬(mapping g x.ref).isSome := fun hm => h ⟨x, hx, hvisited, hm⟩
    simpa using hunmapped

end Lists

/-! ### Mentions in a graph that has grown -/

section Grown

variable (hg : g.Whole)

include hg

theorem ofType_present {d : Nat} (sigs : ∀ t : Sig, (∀ r ∈ t.refs, g.present r.node) →
      ∀ x ∈ ofSig g d t, g.present x.ref.node) {r : TypeDefOrRef} (hr : g.present r.node) :
    ∀ x ∈ ofType g (ofSig g d) r, g.present x.ref.node := by
  cases r with
  | typeDef _ => simp [ofType]
  | typeRef r =>
    intro x hx
    rw [List.mem_singleton.mp hx]
    exact hr
  | typeSpec s =>
    intro x hx
    have hrefs := TypeSpecId.lazySig.refs_value hg.intact.spec s
    rw [ofType, List.mem_flatMap] at hx
    obtain ⟨t, ht, hx⟩ := hx
    rw [Option.mem_toList.mp ht] at hrefs
    exact sigs t hrefs x hx

/-- **What is mentioned is there.** -/
theorem ofSig_present : ∀ (d : Nat) (t : Sig), (∀ r ∈ t.refs, g.present r.node) →
    ∀ x ∈ ofSig g d t, g.present x.ref.node
  | 0, _, _ => by simp [ofSig]
  | d + 1, t, ht => by
    have sigs := ofSig_present d
    have passed : ∀ {xs : List Mention}, (∀ x ∈ xs, g.present x.ref.node) →
        ∀ x ∈ passedBy xs, g.present x.ref.node := by
      intro xs h x hx
      obtain ⟨y, hy, rfl⟩ := List.mem_map.mp hx
      exact h y hy
    have lists : ∀ {ts : List Sig}, (∀ r ∈ TypeSig.refsAll ts, g.present r.node) →
        ∀ x ∈ ts.flatMap (ofSig g d), g.present x.ref.node := by
      intro ts hts x hx
      obtain ⟨t, ht, hx⟩ := List.mem_flatMap.mp hx
      exact sigs t (fun r hr => hts r (TypeSig.refs_subset_all ht r hr)) x hx
    cases t with
    | leaf _ | param _ _ => simp [ofSig]
    | named _ r => exact ofType_present hg sigs (ht r (by simp [TypeSig.refs]))
    | wrap w next =>
      rw [ofSig]
      split
      · exact sigs next ht
      · exact passed (sigs next ht)
    | modified _ m base =>
      obtain ⟨hm, hbase⟩ := List.forall_mem_cons.mp ht
      exact List.forall_mem_append.mpr ⟨passed (ofType_present hg sigs hm), sigs base hbase⟩
    | inst generic args =>
      obtain ⟨hgeneric, hargs⟩ := List.forall_mem_append.mp ht
      exact List.forall_mem_append.mpr ⟨sigs generic hgeneric, lists hargs⟩
    | fnPtr _ returnType params varargs =>
      obtain ⟨hreturn, hrest⟩ := List.forall_mem_append.mp ht
      obtain ⟨hparams, hvarargs⟩ := List.forall_mem_append.mp hrest
      exact List.forall_mem_append.mpr ⟨sigs returnType hreturn,
        List.forall_mem_append.mpr ⟨lists hparams, passed (lists hvarargs)⟩⟩

theorem ofType_grown (h : g.Grown g') {d : Nat}
    (sigs : ∀ t : Sig, (∀ r ∈ t.refs, g.present r.node) → ofSig g' d t = ofSig g d t)
    {r : TypeDefOrRef} (hr : g.present r.node) :
    ofType g' (ofSig g' d) r = ofType g (ofSig g d) r := by
  cases r with
  | typeDef _ | typeRef _ => rfl
  | typeSpec s =>
    have hrefs := TypeSpecId.lazySig.refs_value hg.intact.spec s
    rw [ofType, ofType, h.specSig hr]
    cases ht : TypeSpecId.lazySig.value g s with
    | none => rfl
    | some t =>
      rw [ht] at hrefs
      simp only [Option.toList_some, List.flatMap_singleton, sigs t hrefs]

/-- **A signature mentions the same after the graph has grown.** -/
theorem ofSig_grown (h : g.Grown g') : ∀ (d : Nat) (t : Sig), (∀ r ∈ t.refs, g.present r.node) →
    ofSig g' d t = ofSig g d t
  | 0, _, _ => rfl
  | d + 1, t, ht => by
    have sigs := ofSig_grown h d
    have lists : ∀ {ts : List Sig}, (∀ r ∈ TypeSig.refsAll ts, g.present r.node) →
        ts.flatMap (ofSig g' d) = ts.flatMap (ofSig g d) := by
      intro ts hts
      exact List.flatMap_congr fun t ht => sigs t fun r hr => hts r (TypeSig.refs_subset_all ht r hr)
    cases t with
    | leaf _ | param _ _ => rfl
    | named _ r => exact ofType_grown hg h sigs (ht r (by simp [TypeSig.refs]))
    | wrap w next =>
      have hnext := sigs next ht
      rw [ofSig, ofSig, hnext]
    | modified _ m base =>
      obtain ⟨hm, hbase⟩ := List.forall_mem_cons.mp ht
      rw [ofSig, ofSig, ofType_grown hg h sigs hm, sigs base hbase]
    | inst generic args =>
      obtain ⟨hgeneric, hargs⟩ := List.forall_mem_append.mp ht
      rw [ofSig, ofSig, sigs generic hgeneric, lists hargs]
    | fnPtr _ returnType params varargs =>
      obtain ⟨hreturn, hrest⟩ := List.forall_mem_append.mp ht
      obtain ⟨hparams, hvarargs⟩ := List.forall_mem_append.mp hrest
      rw [ofSig, ofSig, sigs returnType hreturn, lists hparams, lists hvarargs]

omit hg in
/-- So the same of it stands for something. -/
theorem touched_grown (h : g.Grown g') {xs : List Mention} (hxs : ∀ x ∈ xs, g.present x.ref.node) :
    Touched g' xs ↔ Touched g xs := by
  refine exists_congr fun x => and_congr_right fun hx => ?_
  rw [mapping_grown h (hxs x hx)]

end Grown

end Mention

/-! ## Signatures that are the same but for what is replaced -/

section Steps

variable (g : Graph) (R : Sig → Sig → Prop)

/-- A reference to what a reference stands for, or a specification of a signature that takes the
place of another. -/
inductive TypeRewrite : TypeDefOrRef → TypeDefOrRef → Prop
  | typeDef (t : TypeDefId) : TypeRewrite (.typeDef t) (.typeDef t)
  | unmapped {r : TypeRefId} (h : mapping g r = none) : TypeRewrite (.typeRef r) (.typeRef r)
  | mapped {r r' : TypeRefId} {μ : Mapping} (h : mapping g r = some μ) (h' : StandsFor g μ r') :
      TypeRewrite (.typeRef r) (.typeRef r')
  | missing {s : TypeSpecId} (h : TypeSpecId.lazySig.value g s = none) :
      TypeRewrite (.typeSpec s) (.typeSpec s)
  | spec {s s' : TypeSpecId} {t t' : Sig} (h : TypeSpecId.lazySig.value g s = some t)
      (h' : TypeSpecId.lazySig.value g s' = some t') (hR : R t t') :
      TypeRewrite (.typeSpec s) (.typeSpec s')

/-- Signatures that are built alike from parts that are the same but for what is replaced. -/
inductive SigRewrite : Sig → Sig → Prop
  | leaf (l : Leaf) : SigRewrite (.leaf l) (.leaf l)
  | param (s : ParamScope) (i : Nat) : SigRewrite (.param s i) (.param s i)
  | named (k : NamedKind) {a b : TypeDefOrRef} (h : TypeRewrite g R a b) :
      SigRewrite (.named k a) (.named k b)
  | wrap {w : Wrapper} (hw : w.entered = true) {a b : Sig} (h : R a b) :
      SigRewrite (.wrap w a) (.wrap w b)
  | passed {w : Wrapper} (hw : w.entered = false) (a : Sig) : SigRewrite (.wrap w a) (.wrap w a)
  | modified (k : ModifierKind) (m : TypeDefOrRef) {a b : Sig} (h : R a b) :
      SigRewrite (.modified k m a) (.modified k m b)
  | inst {a b : Sig} {as bs : List Sig} (h : R a b) (hs : Forall₂ R as bs) :
      SigRewrite (.inst a as) (.inst b bs)
  | fnPtr (hd : MethodHead) {a b : Sig} {ps qs : List Sig} (h : R a b) (hp : Forall₂ R ps qs)
      (vs : List Sig) : SigRewrite (.fnPtr hd a ps vs) (.fnPtr hd b qs vs)

end Steps

/-- **The same signature but for what is replaced in it**, within a depth budget. -/
def Rewrites (g : Graph) : (depth : Nat) → Sig → Sig → Prop
  | 0 => fun t t' => t' = t
  | d + 1 => SigRewrite g (Rewrites g d)

namespace Rewrites

open Mention

/-- What is replaced in a type, given what is in signatures. -/
theorem remaining_type {d : Nat}
    (sigs : ∀ {t t' : Sig}, Rewrites g d t t' → Mention.mapped g (ofSig g d t') = left g (ofSig g d t))
    {a b : TypeDefOrRef} (h : TypeRewrite g (Rewrites g d) a b) :
    Mention.mapped g (ofType g (ofSig g d) b) = left g (ofType g (ofSig g d) a) := by
  cases h with
  | typeDef _ => rfl
  | unmapped h => simp [ofType, Mention.mapped, left, h]
  | mapped h h' => simp [ofType, Mention.mapped, left, h'.unmapped]
  | missing h => simp [ofType, Mention.mapped, left, h]
  | spec h h' hR =>
    simp only [ofType, h, h', Option.toList_some, List.flatMap_singleton]
    exact sigs hR

/-- **What stands for something afterwards is what was passed by**, one mention after the other. -/
theorem remaining : ∀ {d : Nat} {t t' : Sig}, Rewrites g d t t' →
    Mention.mapped g (ofSig g d t') = left g (ofSig g d t)
  | 0, _, _, _ => rfl
  | d + 1, t, t', h => by
    have lists : ∀ {ts ts' : List Sig}, Forall₂ (Rewrites g d) ts ts' →
        Mention.mapped g (ts'.flatMap (ofSig g d)) = left g (ts.flatMap (ofSig g d)) := by
      intro ts ts' hts
      rw [mapped_flatMap, left_flatMap]
      induction hts with
      | nil => rfl
      | cons h _ ih => rw [List.flatMap_cons, List.flatMap_cons, remaining h, ih]
    cases h with
    | leaf _ | param _ _ => rfl
    | named _ h => exact remaining_type remaining h
    | wrap hw h =>
      rw [ofSig, ofSig, if_pos hw, if_pos hw]
      exact remaining h
    | passed hw a =>
      have hne : ¬_ = true := ne_of_eq_of_ne hw Bool.false_ne_true
      rw [ofSig, if_neg hne]
      exact mapped_passedBy _
    | modified _ m h => rw [ofSig, ofSig, mapped_append, left_append, mapped_passedBy, remaining h]
    | inst h hs => rw [ofSig, ofSig, mapped_append, left_append, remaining h, lists hs]
    | fnPtr _ h hp vs =>
      rw [ofSig, ofSig, mapped_append, mapped_append, left_append, left_append, remaining h,
        lists hp, mapped_passedBy]

section Grown

variable (hg : g.Whole)

include hg

theorem type_grown (h : g.Grown g') {d : Nat}
    (sigs : ∀ {t t' : Sig}, Rewrites g d t t' → (∀ r ∈ t.refs, g.present r.node) →
      (∀ r ∈ t'.refs, g.present r.node) → Rewrites g' d t t')
    {a b : TypeDefOrRef} (hab : TypeRewrite g (Rewrites g d) a b) (ha : g.present a.node)
    (hb : g.present b.node) : TypeRewrite g' (Rewrites g' d) a b := by
  cases hab with
  | typeDef t => exact .typeDef t
  | unmapped hr => exact .unmapped ((mapping_grown h ha).trans hr)
  | mapped hr hr' => exact .mapped ((mapping_grown h ha).trans hr) (hr'.grown hb h)
  | missing hs => exact .missing ((h.specSig ha).trans hs)
  | spec hs hs' hR =>
    refine .spec ((h.specSig ha).trans hs) ((h.specSig hb).trans hs') (sigs hR ?_ ?_)
    · have hrefs := TypeSpecId.lazySig.refs_value hg.intact.spec
      exact fun r hr => hrefs _ r (by rw [hs]; exact hr)
    · have hrefs := TypeSpecId.lazySig.refs_value hg.intact.spec
      exact fun r hr => hrefs _ r (by rw [hs']; exact hr)

/-- **The relation between signatures over what is there stays as the graph grows.** -/
theorem grown (h : g.Grown g') : ∀ {d : Nat} {t t' : Sig}, Rewrites g d t t' →
    (∀ r ∈ t.refs, g.present r.node) → (∀ r ∈ t'.refs, g.present r.node) → Rewrites g' d t t'
  | 0, _, _, hR, _, _ => hR
  | d + 1, t, t', hR, ht, ht' => by
    have lists : ∀ {ts ts' : List Sig}, Forall₂ (Rewrites g d) ts ts' →
        (∀ r ∈ TypeSig.refsAll ts, g.present r.node) →
        (∀ r ∈ TypeSig.refsAll ts', g.present r.node) → Forall₂ (Rewrites g' d) ts ts' := by
      intro ts ts' hts
      induction hts with
      | nil => exact fun _ _ => .nil
      | cons hR _ ih =>
        intro hs hs'
        obtain ⟨hs, hss⟩ := List.forall_mem_append.mp hs
        obtain ⟨hs', hss'⟩ := List.forall_mem_append.mp hs'
        exact .cons (grown h hR hs hs') (ih hss hss')
    cases hR with
    | leaf l => exact .leaf l
    | param s i => exact .param s i
    | named k hR =>
      exact .named k (type_grown hg h (grown h) hR (ht _ (by simp [TypeSig.refs]))
        (ht' _ (by simp [TypeSig.refs])))
    | wrap hw hR => exact .wrap hw (grown h hR ht ht')
    | passed hw a => exact .passed hw a
    | modified k m hR =>
      exact .modified k m (grown h hR (List.forall_mem_cons.mp ht).2 (List.forall_mem_cons.mp ht').2)
    | inst hR hs =>
      obtain ⟨hgeneric, hargs⟩ := List.forall_mem_append.mp ht
      obtain ⟨hgeneric', hargs'⟩ := List.forall_mem_append.mp ht'
      exact .inst (grown h hR hgeneric hgeneric') (lists hs hargs hargs')
    | fnPtr hd hR hp vs =>
      obtain ⟨hreturn, hrest⟩ := List.forall_mem_append.mp ht
      obtain ⟨hreturn', hrest'⟩ := List.forall_mem_append.mp ht'
      exact .fnPtr hd (grown h hR hreturn hreturn')
        (lists hp (List.forall_mem_append.mp hrest).1 (List.forall_mem_append.mp hrest').1) vs

end Grown
end Rewrites

/-! ## Replacing -/

/-- What replacing gives: what takes the place of something is related to it and refers to what is
there, and there is such a thing exactly where anything is replaced. -/
structure Outcome {α : Type} (rel : α → α → Prop) (refs : α → List TypeDefOrRef) (touched : Prop)
    (g : Graph) (a : α) (out : Option α) : Prop where
  rel : rel a (out.getD a)
  present : ∀ r ∈ refs (out.getD a), g.present r.node
  isSome : out.isSome ↔ touched

/-- Replacing in signatures is as it should be within a budget, in whatever graph it is done. -/
def Replaces (replace : Sig → GraphM (Option Sig)) (d : Nat) : Prop :=
  ∀ {g : Graph} {t : Sig}, g.Prepared → (∀ r ∈ t.refs, g.present r.node) →
    g.Grows (replace t) fun g' out =>
      Outcome (Rewrites g' d) TypeSig.refs (Mention.Touched g (Mention.ofSig g d t)) g' t out

section Replacing

open Mention

variable {replace : Sig → GraphM (Option Sig)} {d : Nat}

/-- What a replacement in a signature gives still holds as the graph grows. -/
theorem Outcome.grown {touched : Prop} {t : Sig} {out : Option Sig} (hg : g.Whole) (h : g.Grown g')
    (ht : ∀ r ∈ t.refs, g.present r.node)
    (ho : Outcome (Rewrites g d) TypeSig.refs touched g t out) :
    Outcome (Rewrites g' d) TypeSig.refs touched g' t out where
  rel := ho.rel.grown hg h ht ho.present
  present := h.present_all ho.present
  isSome := ho.isSome

/-- Replacing in the type that something refers to. -/
theorem typeWith_grows (sigs : Replaces replace d) (hg : g.Prepared) {r : TypeDefOrRef}
    (hr : g.present r.node) : g.Grows (typeWith replace r) fun g' out =>
      Outcome (TypeRewrite g' (Rewrites g' d)) (fun r => [r]) (Touched g (ofType g (ofSig g d) r))
        g' r out := by
  cases r with
  | typeDef t =>
    exact Grows.pure ⟨.typeDef t, fun r hr' => List.mem_singleton.mp hr' ▸ hr, by simp [ofType]⟩
  | typeRef r =>
    refine (typeRef_grows hg hr).bind fun g₁ out h₁ hout => Grows.pure ?_
    rcases hout with ⟨hmapping, rfl⟩ | ⟨μ, r', hmapping, rfl, hpresent, hstands⟩
    · refine ⟨.unmapped ((mapping_grown h₁ hr).trans hmapping), fun r hr' => ?_, ?_⟩
      · rw [List.mem_singleton.mp hr']
        exact h₁.present (by rintro ⟨⟩) hr
      · simp [ofType, Touched, hmapping]
    · refine ⟨.mapped ((mapping_grown h₁ hr).trans hmapping) hstands, fun r hr' => ?_, ?_⟩
      · rw [List.mem_singleton.mp hr']
        exact hpresent
      · simp [ofType, Touched, hmapping]
  | typeSpec s =>
    have hrefs := TypeSpecId.lazySig.refs_value hg.intact.spec s
    refine (grows_specSig hr).bind fun g₁ sig? h₁ hsig => ?_
    have hs₁ : g₁.present s.node := h₁.present (by rintro ⟨⟩) hr
    have kept : ∀ {g₂ : Graph}, g₁.Grown g₂ →
        ∀ r ∈ [TypeDefOrRef.typeSpec s], g₂.present r.node := by
      intro g₂ h₂ r hr'
      rw [List.mem_singleton.mp hr']
      exact h₂.present (by rintro ⟨⟩) hs₁
    cases sig? with
    | none =>
      have hvalue := (h₁.specSig hr).trans hsig.symm
      refine Grows.pure ⟨.missing hvalue, kept (.refl g₁), ?_⟩
      simp [ofType, ← hsig]
    | some t =>
      rw [← hsig] at hrefs
      have hrefs₁ : ∀ r ∈ t.refs, g₁.present r.node :=
        h₁.present_all hrefs
      have htouched : Touched g₁ (ofSig g₁ d t) ↔ Touched g (ofType g (ofSig g d) (.typeSpec s)) := by
        rw [ofSig_grown hg.toWhole h₁ d t hrefs,
          touched_grown h₁ (ofSig_present hg.toWhole d t hrefs)]
        simp [ofType, ← hsig]
      have hg₁ := hg.grown h₁
      refine (sigs hg₁ hrefs₁).bind fun g₂ out h₂ ho => ?_
      have hvalue₂ : TypeSpecId.lazySig.value g₂ s = some t :=
        (h₂.specSig hs₁).trans ((h₁.specSig hr).trans hsig.symm)
      cases out with
      | none =>
        refine Grows.pure ⟨.spec hvalue₂ hvalue₂ ho.rel, kept h₂, ?_⟩
        exact ho.isSome.trans htouched
      | some t' =>
        refine (grows_makeTypeSpec (hg₁.grown h₂) ho.present).bind fun g₃ s' h₃ hs' => Grows.pure ?_
        obtain ⟨hpresent, hvalue⟩ := hs'
        have hrefs₂ : ∀ r ∈ t.refs, g₂.present r.node :=
          h₂.present_all hrefs₁
        have hs₂ : g₂.present s.node := h₂.present (by rintro ⟨⟩) hs₁
        have hrel := ho.rel.grown (hg₁.grown h₂).toWhole h₃ hrefs₂ ho.present
        refine ⟨.spec ((h₃.specSig hs₂).trans hvalue₂) hvalue hrel, fun r hr' => ?_, ?_⟩
        · rw [List.mem_singleton.mp hr']
          exact hpresent
        · exact ho.isSome.trans htouched

/-- Replacing in several signatures, one after the other. -/
theorem mapM_grows (sigs : Replaces replace d) {g₀ : Graph} (hg₀ : g₀.Prepared) :
    ∀ {ts : List Sig} {g : Graph}, g₀.Grown g → (∀ r ∈ TypeSig.refsAll ts, g₀.present r.node) →
      g.Grows (ts.mapM replace) fun g' outs => Forall₂ (fun t out =>
        Outcome (Rewrites g' d) TypeSig.refs (Touched g₀ (ofSig g₀ d t)) g' t out) ts outs
  | [], _, _, _ => Grows.pure .nil
  | t :: ts, g, h, hts => by
    obtain ⟨ht, hrest⟩ := List.forall_mem_append.mp hts
    have hg := hg₀.grown h
    have hrefs : ∀ r ∈ t.refs, g.present r.node := h.present_all ht
    have htouched : Touched g (ofSig g d t) ↔ Touched g₀ (ofSig g₀ d t) := by
      rw [ofSig_grown hg₀.toWhole h d t ht, touched_grown h (ofSig_present hg₀.toWhole d t ht)]
    rw [List.mapM_cons]
    refine (sigs hg hrefs).bind fun g₁ out h₁ ho => ?_
    refine (mapM_grows sigs hg₀ (h.trans h₁) hrest).bind fun g₂ outs h₂ hos => Grows.pure ?_
    have hrefs₁ : ∀ r ∈ t.refs, g₁.present r.node := h₁.present_all hrefs
    have ho₂ := ho.grown (hg.grown h₁).toWhole h₂ hrefs₁
    exact .cons ⟨ho₂.rel, ho₂.present, ho₂.isSome.trans htouched⟩ hos

/-- The entries that take the place of others, and those that stay. -/
def merged {α : Type} (outs : List (Option α)) (xs : List α) : List α :=
  (outs.zip xs).map fun p => p.1.getD p.2

theorem all_eq {α : Type} (replace : α → GraphM (Option α)) (xs : List α) : all replace xs = (do
    let outs ← xs.mapM replace
    if outs.all Option.isNone then return none else return some (merged outs xs)) := rfl

theorem merged_outcomes {g₀ : Graph} {ts : List Sig} {outs : List (Option Sig)}
    (h : Forall₂ (fun t out =>
      Outcome (Rewrites g d) TypeSig.refs (Touched g₀ (ofSig g₀ d t)) g t out) ts outs) :
    Forall₂ (Rewrites g d) ts (merged outs ts) ∧
      (∀ r ∈ TypeSig.refsAll (merged outs ts), g.present r.node) ∧
      (outs.all Option.isNone = false ↔ Touched g₀ (ts.flatMap (ofSig g₀ d))) ∧
      (outs.all Option.isNone = true → merged outs ts = ts) := by
  induction h with
  | nil => exact ⟨.nil, by simp [merged, TypeSig.refsAll], by simp, fun _ => rfl⟩
  | cons ho _ ih =>
    obtain ⟨hrel, hpresent, hsome, hsame⟩ := ih
    refine ⟨.cons ho.rel hrel, List.forall_mem_append.mpr ⟨ho.present, hpresent⟩, ?_, ?_⟩
    · rw [List.flatMap_cons, touched_append, ← ho.isSome, ← hsome, List.all_cons,
        Bool.and_eq_false_iff, Option.isNone_eq_false_iff]
    · intro hnone
      rw [List.all_cons, Bool.and_eq_true, Option.isNone_iff_eq_none] at hnone
      rw [hnone.1]
      exact congrArg (_ :: ·) (hsame hnone.2)

/-- Replacing in a list: it is replaced as a whole, where any of its entries is. -/
theorem all_grows (sigs : Replaces replace d) (hg : g.Prepared) {ts : List Sig}
    (hts : ∀ r ∈ TypeSig.refsAll ts, g.present r.node) : g.Grows (all replace ts) fun g' out =>
      Outcome (Forall₂ (Rewrites g' d)) TypeSig.refsAll (Touched g (ts.flatMap (ofSig g d)))
        g' ts out := by
  rw [all_eq]
  refine (mapM_grows sigs hg (.refl g) hts).bind fun g₁ outs h₁ hos => ?_
  obtain ⟨hrel, hpresent, hsome, hsame⟩ := merged_outcomes hos
  by_cases hnone : outs.all Option.isNone = true
  · rw [hsame hnone] at hrel hpresent
    rw [if_pos hnone]
    exact Grows.pure ⟨hrel, hpresent, by simp [← hsome, hnone]⟩
  · rw [if_neg hnone]
    exact Grows.pure ⟨hrel, hpresent, by simp [← hsome, hnone]⟩

/-- Replacing in a signature and then in several others. -/
theorem parts_grows {β : Type} {f : Option Sig → Option (List Sig) → GraphM β}
    {Q : Graph → β → Prop} (sigs : Replaces replace d) (hg : g.Prepared) {t : Sig} {ts : List Sig}
    (ht : ∀ r ∈ t.refs, g.present r.node) (hts : ∀ r ∈ TypeSig.refsAll ts, g.present r.node)
    (hf : ∀ g' t' ts', g.Grown g' →
      Outcome (Rewrites g' d) TypeSig.refs (Touched g (ofSig g d t)) g' t t' →
      Outcome (Forall₂ (Rewrites g' d)) TypeSig.refsAll (Touched g (ts.flatMap (ofSig g d))) g' ts ts' →
      g'.Grows (f t' ts') Q) :
    g.Grows (replace t >>= fun t' => all replace ts >>= f t') Q := by
  refine (sigs hg ht).bind fun g₁ t' h₁ ho => ?_
  have hg₁ := hg.grown h₁
  have htouched : Touched g₁ (ts.flatMap (ofSig g₁ d)) ↔ Touched g (ts.flatMap (ofSig g d)) := by
    rw [touched_flatMap, touched_flatMap]
    refine exists_congr fun s => and_congr_right fun hs => ?_
    have hrefs : ∀ r ∈ s.refs, g.present r.node := fun r hr => hts r (TypeSig.refs_subset_all hs r hr)
    rw [ofSig_grown hg.toWhole h₁ d s hrefs, touched_grown h₁ (ofSig_present hg.toWhole d s hrefs)]
  have hts₁ : ∀ r ∈ TypeSig.refsAll ts, g₁.present r.node := h₁.present_all hts
  refine (all_grows sigs hg₁ hts₁).bind fun g₂ ts' h₂ hos => hf g₂ t' ts' (h₁.trans h₂) ?_ ?_
  · exact ho.grown hg₁.toWhole h₂ (h₁.present_all ht)
  · exact ⟨hos.rel, hos.present, hos.isSome.trans htouched⟩

end Replacing

/-- What is replaced inside a form that is entered. -/
theorem sig_wrap (d : Nat) (w : Wrapper) (next : Sig) : sig (d + 1) (.wrap w next) =
    if w.entered then (do return (← sig d next).map (.wrap w ·)) else return none := by
  cases w <;> rfl

/-- **What replacing in a signature leads to**: a signature with every reference that stands for
something replaced at the places that are visited, and none exactly where there is no such
reference. -/
theorem sig_rewrites : ∀ d : Nat, Replaces (sig d) d
  | 0, _, _, _, ht => Grows.pure ⟨rfl, ht, by simp [Mention.ofSig]⟩
  | d + 1, g, t, hg, ht => by
    have sigs : Replaces (sig d) d := sig_rewrites d
    cases t with
    | leaf l => exact Grows.pure ⟨.leaf l, ht, by simp [Mention.ofSig]⟩
    | param s i => exact Grows.pure ⟨.param s i, ht, by simp [Mention.ofSig]⟩
    | named k r =>
      refine (typeWith_grows sigs hg (ht r (by simp [TypeSig.refs]))).bind fun g₁ out h₁ ho =>
        Grows.pure ?_
      have hrel : SigRewrite g₁ (Rewrites g₁ d) (.named k r) (.named k (out.getD r)) := .named k ho.rel
      cases out <;> exact ⟨hrel, ho.present, ho.isSome⟩
    | wrap w next =>
      rw [sig_wrap]
      cases hw : w.entered with
      | true =>
        rw [if_pos rfl]
        have hnext : ∀ r ∈ next.refs, g.present r.node := ht
        refine (sigs hg hnext).bind fun g₁ out h₁ ho => Grows.pure ?_
        have hrel : SigRewrite g₁ (Rewrites g₁ d) (.wrap w next) (.wrap w (out.getD next)) :=
          .wrap hw ho.rel
        have htouched := ho.isSome
        cases out <;> exact ⟨hrel, ho.present, by simpa [Mention.ofSig, hw] using htouched⟩
      | false =>
        rw [if_neg Bool.false_ne_true]
        exact Grows.pure ⟨.passed hw next, ht, by simp [Mention.ofSig, hw]⟩
    | modified k m base =>
      obtain ⟨hm, hbase⟩ := List.forall_mem_cons.mp ht
      refine (sigs hg hbase).bind fun g₁ out h₁ ho => Grows.pure ?_
      have hrel : SigRewrite g₁ (Rewrites g₁ d) (.modified k m base)
          (.modified k m (out.getD base)) := .modified k m ho.rel
      have hpresent : ∀ r ∈ m :: (out.getD base).refs, g₁.present r.node :=
        List.forall_mem_cons.mpr ⟨h₁.present m.ne_customAttribute hm, ho.present⟩
      have htouched := ho.isSome
      cases out <;> exact ⟨hrel, hpresent, by simpa [Mention.ofSig] using htouched⟩
    | inst generic args =>
      obtain ⟨hgeneric, hargs⟩ := List.forall_mem_append.mp ht
      refine parts_grows sigs hg hgeneric hargs fun g₁ generic' args' h₁ ho hos => ?_
      have hrel : SigRewrite g₁ (Rewrites g₁ d) (.inst generic args)
          (.inst (generic'.getD generic) (args'.getD args)) := .inst ho.rel hos.rel
      have hpresent := List.forall_mem_append.mpr ⟨ho.present, hos.present⟩
      have htouched := or_congr ho.isSome hos.isSome
      rw [← Mention.touched_append] at htouched
      cases generic' <;> cases args' <;>
        exact Grows.pure ⟨hrel, hpresent, by simpa [Mention.ofSig] using htouched⟩
    | fnPtr head returnType params varargs =>
      obtain ⟨hreturn, hrest⟩ := List.forall_mem_append.mp ht
      obtain ⟨hparams, hvarargs⟩ := List.forall_mem_append.mp hrest
      refine parts_grows sigs hg hreturn hparams fun g₁ returnType' params' h₁ ho hos => ?_
      have hrel : SigRewrite g₁ (Rewrites g₁ d) (.fnPtr head returnType params varargs)
          (.fnPtr head (returnType'.getD returnType) (params'.getD params) varargs) :=
        .fnPtr head ho.rel hos.rel varargs
      have hvarargs₁ : ∀ r ∈ TypeSig.refsAll varargs, g₁.present r.node :=
        h₁.present_all hvarargs
      have hpresent := List.forall_mem_append.mpr
        ⟨ho.present, List.forall_mem_append.mpr ⟨hos.present, hvarargs₁⟩⟩
      have htouched := or_congr ho.isSome hos.isSome
      rw [← Mention.touched_append] at htouched
      cases returnType' <;> cases params' <;>
        exact Grows.pure ⟨hrel, hpresent, by simpa [Mention.ofSig] using htouched⟩

end Projection
end CliMetadata
