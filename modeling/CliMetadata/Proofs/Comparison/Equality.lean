import CliMetadata.Proofs.Comparison.Paths
import CliMetadata.Proofs.Ownership.Stored
import Mathlib.Data.List.Forall2

/-!
# Comparing is an equivalence

Two signatures are compared node by node and two types by path, or by signature where
they are specifications, each within a budget of depth.  `SigsAgree o g d` and
`TypesAgree o g d` are the relations that the comparisons with budget `d` decide in an
intact graph (`decides_comparison`).  Each is one step (`SigStep`, `TypeStep`) over the
relations of the smaller budget, so **symmetry and transitivity go by induction on the
budget, for one budget at a time**: no budget is enough for specifications that refer
back to themselves, but those that are equal within a budget are equal within it the
other way round, and with what is equal to either.

A signature is equal to itself where the budget reaches all of it: a specification behind
a reference is not entered, since it is the same one, and the types that it refers to
must have a path (`TypeDefOrRef.Shallow`).
-/

namespace CliMetadata

open CliMetadata.Graph Loading Stateful

/-! ## The height of a signature -/

namespace TypeSig

variable {ρ : Type}

mutual

/-- The levels of a signature: one for each node and one more for a reference to a type.
What a reference refers to is not entered. -/
def height : TypeSig ρ → Nat
  | leaf _ | param _ _ => 1
  | named _ _ => 2
  | wrap _ next => height next + 1
  | modified _ _ base => max 1 (height base) + 1
  | inst generic args => max (height generic) (heightAll args) + 1
  | fnPtr _ returnType params varargs =>
    max (height returnType) (max (heightAll params) (heightAll varargs)) + 1

/-- The levels of several signatures. -/
def heightAll : List (TypeSig ρ) → Nat
  | [] => 0
  | t :: ts => max (height t) (heightAll ts)

end

theorem height_le_all {t : TypeSig ρ} : ∀ {ts : List (TypeSig ρ)}, t ∈ ts →
    t.height ≤ heightAll ts
  | s :: ss, h => by
    rw [heightAll]
    rcases List.mem_cons.mp h with rfl | h
    · omega
    · have := height_le_all h
      omega

theorem refs_subset_all {t : TypeSig ρ} : ∀ {ts : List (TypeSig ρ)}, t ∈ ts →
    ∀ r ∈ t.refs, r ∈ refsAll ts
  | s :: ss, h, r, hr => by
    rw [refsAll, List.mem_append]
    rcases List.mem_cons.mp h with rfl | h
    · exact .inl hr
    · exact .inr (refs_subset_all h r hr)

/-- Without the modifiers around it a signature is no higher and refers to no more. -/
theorem stripModifiers_le : ∀ (bound : Nat) (t : TypeSig ρ),
    (t.stripModifiers bound).height ≤ t.height ∧ ∀ r ∈ (t.stripModifiers bound).refs, r ∈ t.refs
  | 0, _ => ⟨Nat.le_refl _, fun _ => id⟩
  | n + 1, t => by
    cases t with
    | modified _ m base =>
      obtain ⟨hheight, hrefs⟩ := stripModifiers_le n base
      refine ⟨?_, fun r hr => ?_⟩
      · rw [stripModifiers, height]
        omega
      · rw [refs]
        exact List.mem_cons_of_mem _ (hrefs r hr)
    | _ => exact ⟨Nat.le_refl _, fun _ => id⟩

end TypeSig

/-! ## One step of a comparison -/

namespace CompareOptions

open List (Forall₂)

section Steps

variable (o : CompareOptions) (g : Graph) (T : TypeDefOrRef → TypeDefOrRef → Prop)
  (R : Sig → Sig → Prop)

/-- Two types agree by path, or as specifications: as the same or by signature. -/
inductive TypeStep : TypeDefOrRef → TypeDefOrRef → Prop
  | path {a b : TypeDefOrRef} (h : PathsAgree o g a b) : TypeStep a b
  | spec (s : TypeSpecId) : TypeStep (.typeSpec s) (.typeSpec s)
  | sig {a b : TypeSpecId} {s t : Sig} (ha : (a.sig.run g).1 = some s)
      (hb : (b.sig.run g).1 = some t) (h : R s t) : TypeStep (.typeSpec a) (.typeSpec b)

/-- Two signatures are built alike from parts that agree. -/
inductive SigStep : Sig → Sig → Prop
  | leaf (l : Leaf) : SigStep (.leaf l) (.leaf l)
  | named (k : NamedKind) {a b : TypeDefOrRef} (h : T a b) : SigStep (.named k a) (.named k b)
  | param (s : ParamScope) (i : Nat) : SigStep (.param s i) (.param s i)
  | wrap (w : Wrapper) {a b : Sig} (h : R a b) : SigStep (.wrap w a) (.wrap w b)
  | modified (k : ModifierKind) {m n : TypeDefOrRef} {a b : Sig} (hm : T m n) (h : R a b) :
      SigStep (.modified k m a) (.modified k n b)
  | inst {a b : Sig} {as bs : List Sig} (h : R a b) (hs : Forall₂ R as bs) :
      SigStep (.inst a as) (.inst b bs)
  | fnPtr {hd he : MethodHead} {a b : Sig} {ps qs vs ws : List Sig}
      (hh : headsEqual hd he = true) (h : R a b) (hp : Forall₂ R ps qs)
      (hv : o.varargs = true → Forall₂ R vs ws) : SigStep (.fnPtr hd a ps vs) (.fnPtr he b qs ws)

end Steps

section Equivalence

variable {o : CompareOptions} {g : Graph} {T : TypeDefOrRef → TypeDefOrRef → Prop}
  {R : Sig → Sig → Prop}

theorem headsEqual_symm {a b : MethodHead} (h : headsEqual a b = true) : headsEqual b a = true := by
  simp only [headsEqual, Bool.and_eq_true, beq_iff_eq] at h ⊢
  obtain ⟨⟨⟨hthis, hexplicit⟩, hvararg⟩, hcount⟩ := h
  exact ⟨⟨⟨hthis.symm, hexplicit.symm⟩, hvararg.symm⟩, hcount.symm⟩

theorem headsEqual_trans {a b c : MethodHead} (h : headsEqual a b = true)
    (k : headsEqual b c = true) : headsEqual a c = true := by
  simp only [headsEqual, Bool.and_eq_true, beq_iff_eq] at h k ⊢
  obtain ⟨⟨⟨hthis, hexplicit⟩, hvararg⟩, hcount⟩ := h
  obtain ⟨⟨⟨kthis, kexplicit⟩, kvararg⟩, kcount⟩ := k
  exact ⟨⟨⟨hthis.trans kthis, hexplicit.trans kexplicit⟩, hvararg.trans kvararg⟩,
    hcount.trans kcount⟩

theorem forall₂_symm {α : Type} {R : α → α → Prop} (hR : ∀ a b, R a b → R b a) {as bs : List α}
    (h : Forall₂ R as bs) : Forall₂ R bs as := (h.imp hR).flip

theorem forall₂_trans {α : Type} {R : α → α → Prop} (hR : ∀ a b c, R a b → R b c → R a c) :
    ∀ {as bs cs : List α}, Forall₂ R as bs → Forall₂ R bs cs → Forall₂ R as cs
  | _, _, _, .nil, .nil => .nil
  | _, _, _, .cons h hs, .cons k ks => .cons (hR _ _ _ h k) (forall₂_trans hR hs ks)

theorem not_pathsAgree_spec {s : TypeSpecId} {b : TypeDefOrRef} :
    ¬PathsAgree o g (.typeSpec s) b := by
  rintro ⟨p, hp, -⟩
  cases hp

theorem TypeStep.symm (hR : ∀ a b, R a b → R b a) {a b : TypeDefOrRef} (h : TypeStep o g R a b) :
    TypeStep o g R b a := by
  cases h with
  | path h => exact .path h.symm
  | spec s => exact .spec s
  | sig ha hb h => exact .sig hb ha (hR _ _ h)

theorem TypeStep.trans (hR : ∀ a b c, R a b → R b c → R a c) {a b c : TypeDefOrRef}
    (h : TypeStep o g R a b) (k : TypeStep o g R b c) : TypeStep o g R a c := by
  cases h with
  | path h =>
    cases k with
    | path k => exact .path (h.trans k)
    | spec _ => exact absurd h.symm not_pathsAgree_spec
    | sig _ _ _ => exact absurd h.symm not_pathsAgree_spec
  | spec _ => exact k
  | sig ha hb h =>
    cases k with
    | path k => exact absurd k not_pathsAgree_spec
    | spec _ => exact .sig ha hb h
    | sig hb' hc k =>
      obtain rfl := Option.some.inj (hb.symm.trans hb')
      exact .sig ha hc (hR _ _ _ h k)

theorem SigStep.symm (hT : ∀ a b, T a b → T b a) (hR : ∀ a b, R a b → R b a) {a b : Sig}
    (h : SigStep o T R a b) : SigStep o T R b a := by
  cases h with
  | leaf l => exact .leaf l
  | named k h => exact .named k (hT _ _ h)
  | param s i => exact .param s i
  | wrap w h => exact .wrap w (hR _ _ h)
  | modified k hm h => exact .modified k (hT _ _ hm) (hR _ _ h)
  | inst h hs => exact .inst (hR _ _ h) (forall₂_symm hR hs)
  | fnPtr hh h hp hv =>
    exact .fnPtr (headsEqual_symm hh) (hR _ _ h) (forall₂_symm hR hp) fun ho =>
      forall₂_symm hR (hv ho)

theorem SigStep.trans (hT : ∀ a b c, T a b → T b c → T a c) (hR : ∀ a b c, R a b → R b c → R a c)
    {a b c : Sig} (h : SigStep o T R a b) (k : SigStep o T R b c) : SigStep o T R a c := by
  cases h with
  | leaf _ | param _ _ => exact k
  | named _ h =>
    cases k with
    | named _ k => exact .named _ (hT _ _ _ h k)
  | wrap _ h =>
    cases k with
    | wrap _ k => exact .wrap _ (hR _ _ _ h k)
  | modified _ hm h =>
    cases k with
    | modified _ km k => exact .modified _ (hT _ _ _ hm km) (hR _ _ _ h k)
  | inst h hs =>
    cases k with
    | inst k ks => exact .inst (hR _ _ _ h k) (forall₂_trans hR hs ks)
  | fnPtr hh h hp hv =>
    cases k with
    | fnPtr kh k kp kv =>
      exact .fnPtr (headsEqual_trans hh kh) (hR _ _ _ h k) (forall₂_trans hR hp kp) fun ho =>
        forall₂_trans hR (hv ho) (kv ho)

end Equivalence

/-! ## The relations of a budget -/

/-- A signature as it is compared: without the modifiers around it, where they do not
count. -/
def compared (o : CompareOptions) (t : Sig) : Sig :=
  if o.ignoreModifiers then t.stripModifiers recursionBound else t

mutual

/-- Two types agree within a budget. -/
def TypesAgree (o : CompareOptions) (g : Graph) : (depth : Nat) → TypeDefOrRef → TypeDefOrRef → Prop
  | 0 => fun _ _ => False
  | d + 1 => TypeStep o g (SigsAgree o g d)

/-- Two signatures agree within a budget. -/
def SigsAgree (o : CompareOptions) (g : Graph) : (depth : Nat) → Sig → Sig → Prop
  | 0 => fun _ _ => False
  | d + 1 => fun a b =>
    SigStep o (TypesAgree o g d) (SigsAgree o g d) (o.compared a) (o.compared b)

end

section Budget

variable {o : CompareOptions} {g : Graph}

theorem agree_symm : ∀ d : Nat,
    (∀ a b, TypesAgree o g d a b → TypesAgree o g d b a) ∧
      ∀ a b, SigsAgree o g d a b → SigsAgree o g d b a
  | 0 => ⟨fun _ _ => id, fun _ _ => id⟩
  | d + 1 => by
    obtain ⟨htypes, hsigs⟩ := agree_symm d
    refine ⟨fun a b h => ?_, fun a b h => ?_⟩
    · rw [TypesAgree] at h ⊢
      exact h.symm hsigs
    · rw [SigsAgree] at h ⊢
      exact h.symm htypes hsigs

theorem agree_trans : ∀ d : Nat,
    (∀ a b c, TypesAgree o g d a b → TypesAgree o g d b c → TypesAgree o g d a c) ∧
      ∀ a b c, SigsAgree o g d a b → SigsAgree o g d b c → SigsAgree o g d a c
  | 0 => ⟨fun _ _ _ h => h.elim, fun _ _ _ h => h.elim⟩
  | d + 1 => by
    obtain ⟨htypes, hsigs⟩ := agree_trans d
    refine ⟨fun a b c h k => ?_, fun a b c h k => ?_⟩
    · rw [TypesAgree] at h k ⊢
      exact h.trans hsigs k
    · rw [SigsAgree] at h k ⊢
      exact h.trans htypes hsigs k

/-- A type that agrees with itself in one step does so within any budget that is not
used up. -/
theorem typesAgree_self {t : TypeDefOrRef} (ht : ∀ R, TypeStep o g R t t) {d : Nat} (hd : 1 ≤ d) :
    TypesAgree o g d t t := by
  obtain ⟨d, rfl⟩ := Nat.exists_eq_add_of_le' hd
  rw [TypesAgree]
  exact ht _

/-- A signature is built like itself if its parts agree with themselves. -/
theorem sigStep_self {d : Nat}
    (part : ∀ t : Sig, t.height ≤ d → (∀ r ∈ t.refs, ∀ R, TypeStep o g R r r) →
      SigsAgree o g d t t) (t : Sig) (height : t.height ≤ d + 1)
    (refs : ∀ r ∈ t.refs, ∀ R, TypeStep o g R r r) :
    SigStep o (TypesAgree o g d) (SigsAgree o g d) t t := by
  have parts : ∀ ts : List Sig, TypeSig.heightAll ts ≤ d →
      (∀ r ∈ TypeSig.refsAll ts, ∀ R, TypeStep o g R r r) → Forall₂ (SigsAgree o g d) ts ts :=
    fun ts hts hr => List.forall₂_same.mpr fun s hs =>
      part s (Nat.le_trans (TypeSig.height_le_all hs) hts) fun r hr' =>
        hr r (TypeSig.refs_subset_all hs r hr')
  cases t with
  | leaf l => exact .leaf l
  | param s i => exact .param s i
  | named k r =>
    rw [TypeSig.height] at height
    exact .named k (typesAgree_self (refs r (by simp [TypeSig.refs])) (by omega))
  | wrap w next =>
    rw [TypeSig.height] at height
    exact .wrap w (part next (by omega) refs)
  | modified k m base =>
    rw [TypeSig.height] at height
    rw [TypeSig.refs] at refs
    refine .modified k (typesAgree_self (refs m List.mem_cons_self) (by omega)) ?_
    exact part base (by omega) fun r hr => refs r (List.mem_cons_of_mem _ hr)
  | inst generic args =>
    rw [TypeSig.height] at height
    rw [TypeSig.refs] at refs
    refine .inst (part generic (by omega) fun r hr => ?_) (parts args (by omega) fun r hr => ?_)
    · exact refs r (List.mem_append_left _ hr)
    · exact refs r (List.mem_append_right _ hr)
  | fnPtr head returnType params varargs =>
    rw [TypeSig.height] at height
    rw [TypeSig.refs] at refs
    have hhead : headsEqual head head = true := by simp [headsEqual]
    refine .fnPtr hhead (part returnType (by omega) fun r hr => ?_)
      (parts params (by omega) fun r hr => ?_) fun _ => parts varargs (by omega) fun r hr => ?_
    · exact refs r (List.mem_append_left _ hr)
    · exact refs r (List.mem_append_right _ (List.mem_append_left _ hr))
    · exact refs r (List.mem_append_right _ (List.mem_append_right _ hr))

/-- **A signature agrees with itself within a budget of its height**, if the types that it
refers to agree with themselves. -/
theorem sigsAgree_self : ∀ (d : Nat) (t : Sig), t.height ≤ d →
    (∀ r ∈ t.refs, ∀ R, TypeStep o g R r r) → SigsAgree o g d t t
  | 0, t, hd, _ => by
    cases t <;> simp [TypeSig.height] at hd
  | d + 1, t, hd, hrefs => by
    rw [SigsAgree]
    unfold compared
    split
    · obtain ⟨hstrip, hless⟩ := t.stripModifiers_le recursionBound
      exact sigStep_self (sigsAgree_self d) _ (Nat.le_trans hstrip hd) fun r hr =>
        hrefs r (hless r hr)
    · exact sigStep_self (sigsAgree_self d) t hd hrefs

end Budget

/-! ## What comparisons decide -/

section Lists

variable {α : Type} {S : Graph → Prop} {equal : α → α → GraphM Bool} {R : α → α → Prop}

theorem decides_pairsEqual : ∀ {as bs : List α}, as.length = bs.length →
    (∀ a ∈ as, ∀ b ∈ bs, Decides S (equal a b) (R a b)) →
    Decides S (pairsEqual equal as bs) (Forall₂ R as bs)
  | [], [], _, _ => .pure (by simp)
  | a :: as, b :: bs, hlength, h => by
    refine Decides.congr (Decides.andThen (h a List.mem_cons_self b List.mem_cons_self) fun _ => ?_)
      List.forall₂_cons.symm
    exact decides_pairsEqual (Nat.succ.inj hlength) fun a' ha b' hb =>
      h a' (List.mem_cons_of_mem _ ha) b' (List.mem_cons_of_mem _ hb)

/-- Comparing lists entry by entry decides whether all of their entries agree. -/
theorem decides_allEqual {as bs : List α} (h : ∀ a ∈ as, ∀ b ∈ bs, Decides S (equal a b) (R a b)) :
    Decides S (allEqual equal as bs) (Forall₂ R as bs) := by
  unfold allEqual
  split
  · next hlength => exact decides_pairsEqual (by simpa using hlength) h
  · next hlength =>
    exact Decides.refute fun hall => hlength (by simpa using hall.length_eq)

end Lists

/-- Every type that a signature refers to is there. -/
def HasRefs (g : Graph) (t : Sig) : Prop := ∀ r ∈ t.refs, g.present r.node

instance (g : Graph) (t : Sig) : Decidable (HasRefs g t) :=
  inferInstanceAs (Decidable (∀ r ∈ t.refs, g.present r.node))

section Decided

variable {g : Graph} {o : CompareOptions}

theorem HasRefs.compared {t : Sig} (h : HasRefs g t) : HasRefs g (o.compared t) := by
  unfold CompareOptions.compared
  split
  · exact fun r hr => h r ((t.stripModifiers_le recursionBound).2 r hr)
  · exact h

/-- One step over types: the references of what a specification reads as are there. -/
theorem decides_typeStep (hg : g.Intact) {d : Nat}
    (sigs : ∀ s t, HasRefs g s → HasRefs g t →
      Decides g.Consulted (o.sigsEqual d s t) (SigsAgree o g d s t))
    (a b : TypeDefOrRef) (ha : g.present a.node) (hb : g.present b.node) :
    Decides g.Consulted (o.typesEqual (d + 1) a b) (TypesAgree o g (d + 1) a b) := by
  have hpaths : (∀ s, a ≠ .typeSpec s) → (PathsAgree o g a b ↔ TypesAgree o g (d + 1) a b) := by
    intro hplain
    refine ⟨.path, fun h => ?_⟩
    cases h with
    | path h => exact h
    | spec s => exact absurd rfl (hplain s)
    | sig _ _ _ => exact absurd rfl (hplain _)
  cases a with
  | typeDef _ | typeRef _ =>
    cases b with
    | typeDef _ | typeRef _ => exact (decides_pathsEqual hg ha hb).congr (hpaths (by simp))
    | typeSpec _ =>
      refine Decides.refute fun h => ?_
      exact not_pathsAgree_spec ((hpaths (by simp)).mpr h).symm
  | typeSpec a =>
    cases b with
    | typeDef _ | typeRef _ =>
      refine Decides.refute fun h => ?_
      cases h with
      | path h => exact not_pathsAgree_spec h
    | typeSpec b =>
      have hsig : ∀ {x : TypeSpecId}, g.present x.node →
          Yields g.Consulted x.sig (TypeSpecId.lazySig.value g x) := fun hx =>
        LazySlot.yields (z := TypeSpecId.lazySig) (fun _ _ => rfl) hx
      have hrefs : ∀ {x : TypeSpecId} {t : Sig}, TypeSpecId.lazySig.value g x = some t →
          HasRefs g t := by
        intro x t ht r hr
        exact TypeSpecId.lazySig.refs_value hg.spec x r (by rwa [ht])
      rw [typesEqual, TypesAgree]
      by_cases hab : a = b
      · subst hab
        rw [if_pos rfl]
        exact .pure (by simp [TypeStep.spec])
      · rw [if_neg hab]
        refine Settles.after (hsig ha) (Settles.after (hsig hb) ?_)
        -- the two are not the same, so they agree by signature or not at all
        have hstep : TypeStep o g (SigsAgree o g d) (.typeSpec a) (.typeSpec b) ↔
            ∃ s t, TypeSpecId.lazySig.value g a = some s ∧ TypeSpecId.lazySig.value g b = some t ∧
              SigsAgree o g d s t := by
          refine ⟨fun h => ?_, fun ⟨s, t, hs, ht, h⟩ => .sig hs ht h⟩
          cases h with
          | path h => exact absurd h not_pathsAgree_spec
          | spec _ => exact absurd rfl hab
          | sig hs ht h => exact ⟨_, _, hs, ht, h⟩
        cases hs : TypeSpecId.lazySig.value g a with
        | none => exact Decides.refute (by simp [hstep, hs])
        | some s =>
          cases ht : TypeSpecId.lazySig.value g b with
          | none => exact Decides.refute (by simp [hstep, ht])
          | some t => exact (sigs s t (hrefs hs) (hrefs ht)).congr (by simp [hstep, hs, ht])

/-- One step over signatures. -/
theorem decides_sigStep {d : Nat}
    (types : ∀ a b, g.present a.node → g.present b.node →
      Decides g.Consulted (o.typesEqual d a b) (TypesAgree o g d a b))
    (sigs : ∀ s t, HasRefs g s → HasRefs g t →
      Decides g.Consulted (o.sigsEqual d s t) (SigsAgree o g d s t))
    (a b : Sig) (ha : HasRefs g a) (hb : HasRefs g b) :
    Decides g.Consulted (o.sigsEqual (d + 1) a b) (SigsAgree o g (d + 1) a b) := by
  rw [SigsAgree, sigsEqual]
  have hu := ha.compared (o := o)
  have hv := hb.compared (o := o)
  unfold compared at hu hv ⊢
  dsimp only
  generalize (if o.ignoreModifiers = true then a.stripModifiers recursionBound else a) = u at hu ⊢
  generalize (if o.ignoreModifiers = true then b.stripModifiers recursionBound else b) = v at hv ⊢
  have lists : ∀ {ss ts : List Sig}, (∀ r ∈ TypeSig.refsAll ss, g.present r.node) →
      (∀ r ∈ TypeSig.refsAll ts, g.present r.node) →
      Decides g.Consulted (allEqual (o.sigsEqual d) ss ts) (Forall₂ (SigsAgree o g d) ss ts) :=
    fun hss hts => decides_allEqual fun s hs t ht =>
      sigs s t (fun r hr => hss r (TypeSig.refs_subset_all hs r hr))
        fun r hr => hts r (TypeSig.refs_subset_all ht r hr)
  cases u with
  | leaf l =>
    cases v with
    | leaf m =>
      refine .pure ⟨fun h => ?_, fun h => by cases h; simp⟩
      obtain rfl := beq_iff_eq.mp h
      exact .leaf l
    | _ => exact Decides.refute nofun
  | param s i =>
    cases v with
    | param t j =>
      refine .pure ⟨fun h => ?_, fun h => by cases h; simp⟩
      obtain ⟨rfl, rfl⟩ : s = t ∧ i = j := by simpa using h
      exact .param s i
    | _ => exact Decides.refute nofun
  | named k r =>
    cases v with
    | named l q =>
      have hr := hu r (by simp [TypeSig.refs])
      have hq := hv q (by simp [TypeSig.refs])
      refine Decides.congr (Decides.where_ fun _ => types r q hr hq) ⟨fun ⟨hk, h⟩ => ?_, fun h => ?_⟩
      · obtain rfl := beq_iff_eq.mp hk
        exact .named k h
      · cases h with
        | named _ h => exact ⟨by simp, h⟩
    | _ => exact Decides.refute nofun
  | wrap w s =>
    cases v with
    | wrap x t =>
      refine Decides.congr (Decides.where_ fun _ => sigs s t hu hv) ⟨fun ⟨hw, h⟩ => ?_, fun h => ?_⟩
      · obtain rfl := beq_iff_eq.mp hw
        exact .wrap w h
      · cases h with
        | wrap _ h => exact ⟨by simp, h⟩
    | _ => exact Decides.refute nofun
  | modified k m s =>
    cases v with
    | modified l n t =>
      have hm := types m n (hu m List.mem_cons_self) (hv n List.mem_cons_self)
      have hbase := sigs s t (fun r hr => hu r (List.mem_cons_of_mem _ hr)) fun r hr =>
        hv r (List.mem_cons_of_mem _ hr)
      refine Decides.congr (Decides.where_ fun _ => Decides.andThen hm fun _ => hbase)
        ⟨fun ⟨hk, h, h'⟩ => ?_, fun h => ?_⟩
      · obtain rfl := beq_iff_eq.mp hk
        exact .modified k h h'
      · cases h with
        | modified _ hm h => exact ⟨by simp, hm, h⟩
    | _ => exact Decides.refute nofun
  | inst s ss =>
    cases v with
    | inst t ts =>
      have hgeneric := sigs s t (fun r hr => hu r (List.mem_append_left _ hr)) fun r hr =>
        hv r (List.mem_append_left _ hr)
      have hargs := lists (fun r hr => hu r (List.mem_append_right _ hr)) fun r hr =>
        hv r (List.mem_append_right _ hr)
      refine Decides.congr (Decides.andThen hgeneric fun _ => hargs)
        ⟨fun ⟨h, h'⟩ => .inst h h', fun h => ?_⟩
      cases h with
      | inst h hs => exact ⟨h, hs⟩
    | _ => exact Decides.refute nofun
  | fnPtr h s ps vs =>
    cases v with
    | fnPtr i t qs ws =>
      have hreturn := sigs s t (fun r hr => hu r (List.mem_append_left _ hr)) fun r hr =>
        hv r (List.mem_append_left _ hr)
      have hparams := lists
        (fun r hr => hu r (List.mem_append_right _ (List.mem_append_left _ hr))) fun r hr =>
        hv r (List.mem_append_right _ (List.mem_append_left _ hr))
      have hvarargs : Decides g.Consulted
          (if o.varargs = true then allEqual (o.sigsEqual d) vs ws else return true)
          (o.varargs = true → Forall₂ (SigsAgree o g d) vs ws) := by
        split
        · next ho =>
          refine (lists (fun r hr => hu r ?_) fun r hr => hv r ?_).congr (by simp [ho])
          · exact List.mem_append_right _ (List.mem_append_right _ hr)
          · exact List.mem_append_right _ (List.mem_append_right _ hr)
        · next ho => exact .pure (by simp [ho])
      refine Decides.congr (Decides.where_ fun _ => Decides.andThen hreturn fun _ =>
        Decides.andThen hparams fun _ => hvarargs)
        ⟨fun ⟨hh, h, hp, hw⟩ => .fnPtr hh h hp hw, fun h => ?_⟩
      cases h with
      | fnPtr hh h hp hw => exact ⟨hh, h, hp, hw⟩
    | _ => exact Decides.refute nofun

/-- **What comparisons decide within a budget**, whatever has been consulted before. -/
theorem decides_comparison (hg : g.Intact) : ∀ d : Nat,
    (∀ a b, g.present a.node → g.present b.node →
      Decides g.Consulted (o.typesEqual d a b) (TypesAgree o g d a b)) ∧
    ∀ s t, HasRefs g s → HasRefs g t →
      Decides g.Consulted (o.sigsEqual d s t) (SigsAgree o g d s t)
  | 0 => by
    refine ⟨fun a b _ _ => ?_, fun s t _ _ => ?_⟩
    · rw [typesEqual]
      exact Decides.refute nofun
    · rw [sigsEqual]
      exact Decides.refute nofun
  | d + 1 => by
    obtain ⟨types, sigs⟩ := decides_comparison hg d
    exact ⟨decides_typeStep hg sigs, decides_sigStep types sigs⟩

/-- Two method signatures are compared like pointers to such methods, one level further
down. -/
theorem equalMethodSigs_eq (o : CompareOptions) (a b : MethodSig TypeDefOrRef) :
    o.equalMethodSigs a b = o.sigsEqual (recursionBound + 1) a.toPointer b.toPointer := by
  have pointer : ∀ m : MethodSig TypeDefOrRef,
      m.toPointer.stripModifiers recursionBound = m.toPointer := fun _ => rfl
  have flip : ∀ (b : Bool) (x y : GraphM Bool),
      (if (!b) = true then x else y) = if b = true then y else x := by
    intro b x y
    cases b <;> rfl
  rw [sigsEqual]
  dsimp only
  rw [pointer, pointer, ite_self, ite_self]
  unfold equalMethodSigs
  simp only [flip]
  rfl

/-- What comparing method signatures decides. -/
theorem decides_equalMethodSigs (hg : g.Intact) {a b : MethodSig TypeDefOrRef}
    (ha : HasRefs g a.toPointer) (hb : HasRefs g b.toPointer) :
    Decides g.Consulted (o.equalMethodSigs a b)
      (SigsAgree o g (recursionBound + 1) a.toPointer b.toPointer) := by
  rw [equalMethodSigs_eq]
  exact (decides_comparison hg _).2 _ _ ha hb

/-! ## Types with paths -/

/-- A type has an enclosing chain, itself included, within the bound; a specification is
compared without one. -/
def Shallow (g : Graph) : TypeDefOrRef → Prop
  | .typeDef t => ∃ ts, Chain.Climbs (fun x => (x.declaringType.run g).1) (some t) ts ∧
      ts.length ≤ recursionBound
  | .typeRef r => ∃ rs, Chain.Climbs (fun x => (x.declaringType.run g).1) (some r) rs ∧
      rs.length ≤ recursionBound
  | .typeSpec _ => True

/-- What encloses a reference that is there is there. -/
theorem climbs_present (hg : g.Intact) : ∀ {start : Option TypeRefId} {rs : List TypeRefId},
    Chain.Climbs (fun x => (x.declaringType.run g).1) start rs →
    (∀ x ∈ start, g.present x.node) → ∀ x ∈ rs, g.present x.node
  | none, _, .ended, _ => by simp
  | some x, _, .step above, hstart => by
    have hx := hstart x rfl
    refine List.forall_mem_cons.mpr ⟨hx, climbs_present hg above ?_⟩
    exact ((hg.settles_enclosing hx).value (.refl g)).2

/-- A type with an enclosing chain within the bound has a path. -/
theorem Shallow.pathOf (hg : g.Intact) {t : TypeDefOrRef} (ht : g.present t.node)
    (h : Shallow g t) (hplain : ∀ s, t ≠ .typeSpec s) : (g.pathOf t).isSome := by
  cases t with
  | typeDef t =>
    obtain ⟨ts, hclimbs, hbounded⟩ := h
    have hpath := (TypeDefId.Enclosed.path?_run (g := g) ⟨hclimbs, hbounded⟩).1
    exact Option.isSome_of_eq_some hpath
  | typeRef r =>
    obtain ⟨rs, hclimbs, hbounded⟩ := h
    have henclosing : ∀ x ∈ rs, Yields g.Consulted x.declaringType (x.declaringType.run g).1 := by
      intro x hx
      have hpresent := climbs_present hg hclimbs (by rintro _ ⟨⟩; exact ht) x hx
      exact ((hg.settles_enclosing hpresent).value (.refl g)).1
    have hchain := (hclimbs.chain hbounded henclosing g (.refl g)).1
    have hpath : g.pathOf (.typeRef r) =
        (((Chain.chain TypeRefId.declaringType recursionBound r).run g).1.map List.reverse).map
          fun chain => chain.map (TypeRefId.level
            ((Chain.chain TypeRefId.declaringType recursionBound r).run g).2) := rfl
    rw [hpath, hchain]
    rfl
  | typeSpec s => exact absurd rfl (hplain s)

/-- Such a type agrees with itself, where scopes do not count. -/
theorem Shallow.typeStep (hg : g.Intact) (ho : o.scope = false) {t : TypeDefOrRef}
    (ht : g.present t.node) (h : Shallow g t) (R : Sig → Sig → Prop) : TypeStep o g R t t := by
  have path : (∀ s, t ≠ .typeSpec s) → TypeStep o g R t t := by
    intro hplain
    obtain ⟨p, hp⟩ := Option.isSome_iff_exists.mp (h.pathOf hg ht hplain)
    exact .path ⟨p, hp, hp, by simp [ho]⟩
  cases t with
  | typeDef _ | typeRef _ => exact path (by simp)
  | typeSpec s => exact .spec s

end Decided

/-! ## The equivalence -/

/-- A comparison is an equivalence as far as things are equal to anything, in every graph
with a property, and keeps that property: it answers the same both ways round, and
together with what is equal to either. -/
structure PartialEquivalence {α : Type} (S : Graph → Prop) (P : α → Prop)
    (equal : α → α → GraphM Bool) : Prop where
  symm : ∀ a b, P a → P b → ∀ g₁ g₂, S g₁ → S g₂ →
    ((equal a b).run g₁).1 = ((equal b a).run g₂).1
  trans : ∀ a b c, P a → P b → P c → ∀ g₁ g₂ g₃, S g₁ → S g₂ → S g₃ →
    ((equal a b).run g₁).1 = true → ((equal b c).run g₂).1 = true →
      ((equal a c).run g₃).1 = true
  keeps : ∀ a b, P a → P b → ∀ g₁, S g₁ → S ((equal a b).run g₁).2

/-- A comparison that decides a symmetric and transitive relation. -/
theorem PartialEquivalence.of_decides {α : Type} {S : Graph → Prop} {P : α → Prop}
    {equal : α → α → GraphM Bool} {R : α → α → Prop}
    (decides : ∀ a b, P a → P b → Decides S (equal a b) (R a b)) (symm : ∀ a b, R a b → R b a)
    (trans : ∀ a b c, R a b → R b c → R a c) : PartialEquivalence S P equal where
  symm a b ha hb g₁ g₂ h₁ h₂ := by
    have hab := ((decides a b ha hb).value h₁).2
    have hba := ((decides b a hb ha).value h₂).2
    rw [Bool.eq_iff_iff, hab, hba]
    exact ⟨symm a b, symm b a⟩
  trans a b c ha hb hc g₁ g₂ g₃ h₁ h₂ h₃ hab hbc := by
    have hab' := ((decides a b ha hb).value h₁).2.mp hab
    have hbc' := ((decides b c hb hc).value h₂).2.mp hbc
    exact ((decides a c ha hc).value h₃).2.mpr (trans a b c hab' hbc')
  keeps a b ha hb g₁ h₁ := (((decides a b ha hb).value h₁).1 g₁ h₁).2

/-- **Comparing signatures and comparing types are symmetric and transitive**, under all
options and in every intact graph, however its specifications refer to each other, and
whatever has been compared or consulted in between.  Where scopes do not count, **a
signature within the bound is equal to itself**, if the types that it refers to have
enclosing chains within the bound. -/
theorem equal_equivalence (o : CompareOptions) {g : Graph} (hg : g.Intact) :
    PartialEquivalence g.Consulted (HasRefs g) o.equalSigs ∧
    PartialEquivalence g.Consulted (fun t : TypeDefOrRef => g.present t.node) o.equalTypes ∧
    (o.scope = false → ∀ s : Sig, HasRefs g s → s.height ≤ recursionBound →
      (∀ r ∈ s.refs, Shallow g r) → ∀ g₁, g.Consulted g₁ → ((o.equalSigs s s).run g₁).1 = true) := by
  obtain ⟨types, sigs⟩ := decides_comparison (o := o) hg recursionBound
  obtain ⟨typesSymm, sigsSymm⟩ := agree_symm (o := o) (g := g) recursionBound
  obtain ⟨typesTrans, sigsTrans⟩ := agree_trans (o := o) (g := g) recursionBound
  refine ⟨.of_decides sigs sigsSymm sigsTrans, .of_decides types typesSymm typesTrans, ?_⟩
  intro ho s hrefs hheight hshallow g₁ h₁
  refine ((sigs s s hrefs hrefs).value h₁).2.mpr (sigsAgree_self _ s hheight fun r hr => ?_)
  exact (hshallow r hr).typeStep hg ho (hrefs r hr)

end CompareOptions

/-! ## Specifications that refer to themselves -/

/-- A module that has just been opened is intact, whatever its store holds. -/
theorem Store.loaded_intact {s : Store} {policy : InitPolicy} {row : ModuleRow}
    (h : s.moduleRow? = some row) : (s.loaded policy).Intact := by
  refine .of_unmade (fun ho => ?_) fun n hn => ?_
  · cases (s.loaded_owners h ho).2.2
  · rw [s.loaded_entities h, if_neg]
    rintro rfl
    exact hn rfl

namespace CompareOptions

/-- A store of two specifications, each of arrays of itself. -/
def selfReferring : Store :=
  let head (table : TableId) (rid : Nat) : RowHead := ⟨rid, Token.ofParts table rid⟩
  let arrayOf (rid : Nat) : TypeSig Token :=
    .wrap .szArray (.named .classType (Token.ofParts .typeSpec rid))
  { Store.empty with
    modules := [⟨head .module 1, 0, 0, 0⟩]
    typeSpecs := [⟨head .typeSpec 1, 1⟩, ⟨head .typeSpec 2, 2⟩]
    blobs := [.typeSig (arrayOf 1), .typeSig (arrayOf 2)] }

/-- The two are compared alike both ways round, and each is equal to itself all the time. -/
theorem equal_selfReferring :
    let g := selfReferring.loaded .perEntityLock
    let a : TypeDefOrRef := .typeSpec ⟨.row 0 1⟩
    let b : TypeDefOrRef := .typeSpec ⟨.row 0 2⟩
    let compared := (equalTypes {} a b).run g
    g.Intact ∧ g.present a.node ∧ g.present b.node ∧
      ((equalTypes {} b a).run compared.2).1 = compared.1 ∧
      ((equalSigs {} (.named .classType a) (.named .classType a)).run compared.2).1 = true := by
  intro g a b compared
  have hg : g.Intact := Store.loaded_intact rfl
  have ha : g.present a.node := by decide +kernel
  have hb : g.present b.node := by decide +kernel
  obtain ⟨-, types, self⟩ := equal_equivalence {} hg
  have hcompared : g.Consulted compared.2 := types.keeps a b ha hb g (.refl g)
  refine ⟨hg, ha, hb, types.symm b a hb ha compared.2 g hcompared (.refl g), ?_⟩
  refine self rfl (.named .classType a) ?_ (by decide) ?_ compared.2 hcompared
  · rintro r ⟨⟩
    · exact ha
    · contradiction
  · rintro r ⟨⟩
    · trivial
    · contradiction

end CompareOptions
end CliMetadata
