import CliMetadata.Proofs.Projection.MemberReferences

/-!
# When what has been replaced is still equal

Types are compared by the names on their paths, so a reference is equal to the one that takes its
place only if what it stands for has its namespace and its name, as few types do
(`pathsAgree_iff`).  Signatures are compared node by node: **where a signature is equal to the one
that takes its place, every reference that is replaced keeps its namespace and its name**
(`agree_kept`), and where they all do, it is equal if the comparison is not cut off (`kept_agree`).

The latter is not for the usual reasons alone.  A specification that is replaced is another one, so
its signature is entered where it would not be if it were compared with itself.  `SigSpelled g d t`
says that the budget `d` of a comparison is enough for a signature with all specifications entered.
-/

namespace CliMetadata

open CliMetadata.Graph CliMetadata.CompareOptions Loading Stateful
open List (Forall₂)

namespace Projection

variable {g : Graph}

/-! ## References that keep their names -/

namespace Mention

/-- Every reference that is replaced keeps its namespace and its name. -/
def Kept (g : Graph) (xs : List Mention) : Prop :=
  ∀ x ∈ xs, x.visited = true → ∀ μ ∈ mapping g x.ref,
    TypeRefId.level g x.ref = (.ofString μ.space, .ofString μ.name)

instance (g : Graph) (xs : List Mention) : Decidable (Kept g xs) := by
  unfold Kept
  infer_instance

section Lists

variable {xs ys : List Mention}

@[simp] theorem kept_nil : Kept g [] := by simp [Kept]

@[simp] theorem kept_append : Kept g (xs ++ ys) ↔ Kept g xs ∧ Kept g ys := List.forall_mem_append

@[simp] theorem kept_passedBy : Kept g (passedBy xs) := by
  simp [Kept, passedBy]

theorem kept_mapped {r : TypeRefId} {μ : Mapping} (h : mapping g r = some μ) :
    Kept g [⟨r, true⟩] ↔ TypeRefId.level g r = (.ofString μ.space, .ofString μ.name) := by
  simp [Kept, h]

/-- The same of what is there keeps its name after the graph has grown. -/
theorem kept_grown {g' : Graph} (h : g.Grown g') (hxs : ∀ x ∈ xs, g.present x.ref.node) :
    Kept g' xs ↔ Kept g xs := by
  refine forall_congr' fun x => forall_congr' fun hx => ?_
  rw [mapping_grown h (hxs x hx), level_grown h (hxs x hx)]

/-- Where nothing is replaced, everything keeps its name. -/
theorem kept_of_not_touched (h : ¬Touched g xs) : Kept g xs := by
  intro x hx hvisited μ hμ
  exact absurd ⟨x, hx, hvisited, Option.isSome_of_mem hμ⟩ h

end Lists

end Mention

/-- A reference into an assembly is outermost, so its path is its name. -/
theorem pathOf_scoped (hg : g.Intact) {r : TypeRefId} (hr : g.present r.node) {a : AssemblyRefId}
    (h : TypeRefId.lazyScope.value g r = some (.assemblyRef a)) :
    g.pathOf (.typeRef r) = some [TypeRefId.level g r] := by
  have houtermost : (r.declaringType.run g).1 = none := by
    have hscope : (r.scope.run g).1 = some (.assemblyRef a) := h
    rw [TypeRefId.declaringType, run_bind, hscope]
    rfl
  have hclimbs : Chain.Climbs (fun x => (x.declaringType.run g).1) (some r) [r] := by
    refine .step ?_
    rw [houtermost]
    exact .ended
  have henclosing : ∀ x ∈ [r], Yields g.Consulted x.declaringType (x.declaringType.run g).1 := by
    intro x hx
    rw [List.mem_singleton.mp hx]
    exact ((hg.settles_enclosing hr).value (.refl g)).1
  have hbound : [r].length ≤ recursionBound := Nat.succ_le_succ (Nat.zero_le 99)
  obtain ⟨hchain, hconsulted⟩ := hclimbs.chain hbound henclosing g (.refl g)
  have hpath : g.pathOf (.typeRef r) =
      (((Chain.chain TypeRefId.declaringType recursionBound r).run g).1.map List.reverse).map
        fun chain => chain.map (TypeRefId.level
          ((Chain.chain TypeRefId.declaringType recursionBound r).run g).2) := rfl
  rw [hpath, hchain]
  exact congrArg (fun level => some [level]) (hconsulted.typeRef_level r)

/-- What a reference stands for is told from the assembly that it refers into. -/
theorem scoped_of_mapping {r : TypeRefId} {μ : Mapping} (h : mapping g r = some μ) :
    ∃ a, TypeRefId.lazyScope.value g r = some (.assemblyRef a) := by
  have hlisted : listed g r = some μ := by
    unfold mapping at h
    split at h
    · exact h
    · cases h
  unfold listed at hlisted
  split at hlisted
  · next a hscope => exact ⟨a, hscope⟩
  · cases hlisted

/-- **A reference is equal to the one that takes its place exactly if it keeps its namespace and
its name.** -/
theorem pathsAgree_iff (hg : g.Intact) {r r' : TypeRefId} {μ : Mapping} (hr : g.present r.node)
    (hr' : g.present r'.node) (h : mapping g r = some μ) (h' : StandsFor g μ r') :
    PathsAgree {} g (.typeRef r) (.typeRef r') ↔
      TypeRefId.level g r = (.ofString μ.space, .ofString μ.name) := by
  obtain ⟨a, hscope⟩ := scoped_of_mapping h
  obtain ⟨a', hscope', -, hlevel'⟩ := h'
  have hpath := pathOf_scoped hg hr hscope
  have hpath' := pathOf_scoped hg hr' hscope'
  rw [hlevel'] at hpath'
  constructor
  · rintro ⟨p, hp, hp', -⟩
    have hsame := (hpath.symm.trans hp).trans (hp'.symm.trans hpath')
    exact List.head_eq_of_cons_eq (Option.some.inj hsame)
  · intro hkept
    rw [hkept] at hpath
    exact ⟨_, hpath, hpath', nofun⟩

/-- What the signature of a specification refers to is there. -/
theorem hasRefs_spec (hg : g.Intact) {s : TypeSpecId} {t : Sig}
    (h : TypeSpecId.lazySig.value g s = some t) : HasRefs g t := by
  intro r hr
  exact TypeSpecId.lazySig.refs_value hg.spec s r (by rwa [h])

/-! ## What a budget is enough for -/

mutual

/-- A comparison of a type with another one is not cut off within a budget. -/
def TypeSpelled (g : Graph) : (depth : Nat) → TypeDefOrRef → Prop
  | 0, _ => False
  | d + 1, .typeSpec s => ∀ t ∈ TypeSpecId.lazySig.value g s, SigSpelled g d t
  | _ + 1, r => Shallow g r

/-- Nor is one of a signature. -/
def SigSpelled (g : Graph) : (depth : Nat) → Sig → Prop
  | 0, _ => False
  | _ + 1, .leaf _ | _ + 1, .param _ _ => True
  | d + 1, .named _ r => TypeSpelled g d r
  | d + 1, .wrap _ next => SigSpelled g d next
  | d + 1, .modified _ m base => TypeSpelled g d m ∧ SigSpelled g d base
  | d + 1, .inst generic args => SigSpelled g d generic ∧ ∀ t ∈ args, SigSpelled g d t
  | d + 1, .fnPtr _ returnType params _ =>
    SigSpelled g d returnType ∧ ∀ t ∈ params, SigSpelled g d t

end

/-! ## Nodes that are compared -/

section Nodes

variable {d : Nat}

theorem sigsAgree_named {k : NamedKind} {a b : TypeDefOrRef} :
    SigsAgree {} g (d + 1) (.named k a) (.named k b) ↔ TypesAgree {} g d a b := by
  refine ⟨fun h => ?_, fun h => .named k h⟩
  cases h with
  | named _ h => exact h

theorem sigsAgree_wrap {w : Wrapper} {a b : Sig} :
    SigsAgree {} g (d + 1) (.wrap w a) (.wrap w b) ↔ SigsAgree {} g d a b := by
  refine ⟨fun h => ?_, fun h => .wrap w h⟩
  cases h with
  | wrap _ h => exact h

theorem sigsAgree_modified {k : ModifierKind} {m n : TypeDefOrRef} {a b : Sig} :
    SigsAgree {} g (d + 1) (.modified k m a) (.modified k n b) ↔
      TypesAgree {} g d m n ∧ SigsAgree {} g d a b := by
  refine ⟨fun h => ?_, fun h => .modified k h.1 h.2⟩
  cases h with
  | modified _ hm h => exact ⟨hm, h⟩

theorem sigsAgree_inst {a b : Sig} {as bs : List Sig} :
    SigsAgree {} g (d + 1) (.inst a as) (.inst b bs) ↔
      SigsAgree {} g d a b ∧ Forall₂ (SigsAgree {} g d) as bs := by
  refine ⟨fun h => ?_, fun h => .inst h.1 h.2⟩
  cases h with
  | inst h hs => exact ⟨h, hs⟩

/-- What comes after a sentinel does not count. -/
theorem sigsAgree_fnPtr {hd : MethodHead} {a b : Sig} {ps qs vs ws : List Sig} :
    SigsAgree {} g (d + 1) (.fnPtr hd a ps vs) (.fnPtr hd b qs ws) ↔
      SigsAgree {} g d a b ∧ Forall₂ (SigsAgree {} g d) ps qs := by
  refine ⟨fun h => ?_, fun h => .fnPtr (by simp [headsEqual]) h.1 h.2 nofun⟩
  cases h with
  | fnPtr _ h hp _ => exact ⟨h, hp⟩

end Nodes

/-- **What a budget is enough for is equal to itself within it.** -/
theorem agree_self (hg : g.Intact) : ∀ c : Nat,
    (∀ r : TypeDefOrRef, g.present r.node → TypeSpelled g c r → TypesAgree {} g c r r) ∧
      ∀ t : Sig, HasRefs g t → SigSpelled g c t → SigsAgree {} g c t t
  | 0 => ⟨fun _ _ => nofun, fun _ _ => nofun⟩
  | c + 1 => by
    obtain ⟨types, sigs⟩ := agree_self hg c
    have lists : ∀ ts : List Sig, (∀ r ∈ TypeSig.refsAll ts, g.present r.node) →
        (∀ t ∈ ts, SigSpelled g c t) → Forall₂ (SigsAgree {} g c) ts ts := fun ts hrefs hts =>
      List.forall₂_same.mpr fun t ht =>
        sigs t (fun r hr => hrefs r (TypeSig.refs_subset_all ht r hr)) (hts t ht)
    refine ⟨fun r hr h => ?_, fun t ht h => ?_⟩
    · cases r with
      | typeSpec s => exact .spec s
      | typeDef _ | typeRef _ => exact Shallow.typeStep hg rfl hr h _
    · cases t with
      | leaf l => exact .leaf l
      | param s i => exact .param s i
      | named k r => exact sigsAgree_named.mpr (types r (ht r (by simp [TypeSig.refs])) h)
      | wrap w next => exact sigsAgree_wrap.mpr (sigs next ht h)
      | modified k m base =>
        obtain ⟨hm, hbase⟩ := List.forall_mem_cons.mp ht
        exact sigsAgree_modified.mpr ⟨types m hm h.1, sigs base hbase h.2⟩
      | inst generic args =>
        obtain ⟨hgeneric, hargs⟩ := List.forall_mem_append.mp ht
        exact sigsAgree_inst.mpr ⟨sigs generic hgeneric h.1, lists args hargs h.2⟩
      | fnPtr hd returnType params varargs =>
        obtain ⟨hreturn, hrest⟩ := List.forall_mem_append.mp ht
        exact sigsAgree_fnPtr.mpr ⟨sigs returnType hreturn h.1,
          lists params (List.forall_mem_append.mp hrest).1 h.2⟩

open Mention

/-! ## What is equal has kept its names -/

section Equal

variable {c d : Nat}

/-- One step over types: a specification that is equal to itself is replaced by itself, and then
nothing in it has been replaced. -/
theorem typesAgree_kept (hg : g.Intact)
    (sigs : ∀ {t t' : Sig}, Rewrites g d t t' → HasRefs g t → HasRefs g t' →
      SigsAgree {} g c t t' → Kept g (ofSig g d t))
    {r r' : TypeDefOrRef} (hR : TypeRewrite g (Rewrites g d) r r') (hr : g.present r.node)
    (hr' : g.present r'.node) (h : TypesAgree {} g (c + 1) r r') :
    Kept g (ofType g (ofSig g d) r) := by
  cases hR with
  | typeDef t => exact kept_nil
  | unmapped hmapping => exact kept_of_not_touched (by simp [Touched, ofType, hmapping])
  | missing hs => simp [ofType, hs]
  | mapped hmapping hstands =>
    cases h with
    | path hpaths =>
      exact (kept_mapped hmapping).mpr ((pathsAgree_iff hg hr hr' hmapping hstands).mp hpaths)
  | @spec s s' t t' hs hs' hR =>
    have hmentions : ofType g (ofSig g d) (.typeSpec s) = ofSig g d t := by simp [ofType, hs]
    rw [hmentions]
    cases h with
    | path hpaths => exact absurd hpaths not_pathsAgree_spec
    | sig ht ht' hagree =>
      obtain rfl := Option.some.inj (hs.symm.trans ht)
      obtain rfl := Option.some.inj (hs'.symm.trans ht')
      exact sigs hR (hasRefs_spec hg hs) (hasRefs_spec hg hs') hagree
    | spec _ =>
      obtain rfl := Option.some.inj (hs.symm.trans hs')
      exact kept_of_not_touched (mapped_eq_left.mp hR.remaining)

/-- One step over signatures. -/
theorem sigsAgree_kept
    (types : ∀ {r r' : TypeDefOrRef}, TypeRewrite g (Rewrites g d) r r' → g.present r.node →
      g.present r'.node → TypesAgree {} g c r r' → Kept g (ofType g (ofSig g d) r))
    (sigs : ∀ {t t' : Sig}, Rewrites g d t t' → HasRefs g t → HasRefs g t' →
      SigsAgree {} g c t t' → Kept g (ofSig g d t))
    {t t' : Sig} (hR : Rewrites g (d + 1) t t') (ht : HasRefs g t) (ht' : HasRefs g t')
    (h : SigsAgree {} g (c + 1) t t') : Kept g (ofSig g (d + 1) t) := by
  have lists : ∀ {ts ts' : List Sig}, Forall₂ (Rewrites g d) ts ts' →
      (∀ r ∈ TypeSig.refsAll ts, g.present r.node) →
      (∀ r ∈ TypeSig.refsAll ts', g.present r.node) → Forall₂ (SigsAgree {} g c) ts ts' →
      Kept g (ts.flatMap (ofSig g d)) := by
    intro ts ts' hts
    induction hts with
    | nil => exact fun _ _ _ => kept_nil
    | cons hR _ ih =>
      intro hrefs hrefs' hagree
      obtain ⟨hfirst, hrest⟩ := List.forall_mem_append.mp hrefs
      obtain ⟨hfirst', hrest'⟩ := List.forall_mem_append.mp hrefs'
      obtain ⟨hs, hss⟩ := List.forall₂_cons.mp hagree
      exact kept_append.mpr ⟨sigs hR hfirst hfirst' hs, ih hrest hrest' hss⟩
  cases hR with
  | leaf _ | param _ _ => exact kept_nil
  | named k hR =>
    exact types hR (ht _ (by simp [TypeSig.refs])) (ht' _ (by simp [TypeSig.refs]))
      (sigsAgree_named.mp h)
  | wrap hw hR =>
    rw [ofSig, if_pos hw]
    exact sigs hR ht ht' (sigsAgree_wrap.mp h)
  | passed hw a =>
    have hne : ¬_ = true := ne_of_eq_of_ne hw Bool.false_ne_true
    rw [ofSig, if_neg hne]
    exact kept_passedBy
  | modified k m hR =>
    have hbase := sigs hR (List.forall_mem_cons.mp ht).2 (List.forall_mem_cons.mp ht').2
      (sigsAgree_modified.mp h).2
    exact kept_append.mpr ⟨kept_passedBy, hbase⟩
  | inst hR hs =>
    obtain ⟨hgeneric, hargs⟩ := List.forall_mem_append.mp ht
    obtain ⟨hgeneric', hargs'⟩ := List.forall_mem_append.mp ht'
    obtain ⟨hfirst, hrest⟩ := sigsAgree_inst.mp h
    exact kept_append.mpr ⟨sigs hR hgeneric hgeneric' hfirst, lists hs hargs hargs' hrest⟩
  | fnPtr hd hR hp vs =>
    obtain ⟨hreturn, hrest⟩ := List.forall_mem_append.mp ht
    obtain ⟨hreturn', hrest'⟩ := List.forall_mem_append.mp ht'
    obtain ⟨hfirst, hparams⟩ := sigsAgree_fnPtr.mp h
    refine kept_append.mpr ⟨sigs hR hreturn hreturn' hfirst, kept_append.mpr ⟨?_, kept_passedBy⟩⟩
    exact lists hp (List.forall_mem_append.mp hrest).1 (List.forall_mem_append.mp hrest').1 hparams

end Equal

/-- **Where a signature is equal to the one that takes its place, every reference that is replaced
keeps its namespace and its name**, and so it is with types. -/
theorem agree_kept (hg : g.Intact) : ∀ c d : Nat,
    (∀ {r r' : TypeDefOrRef}, TypeRewrite g (Rewrites g d) r r' → g.present r.node →
      g.present r'.node → TypesAgree {} g c r r' → Kept g (ofType g (ofSig g d) r)) ∧
    ∀ {t t' : Sig}, Rewrites g d t t' → HasRefs g t → HasRefs g t' →
      SigsAgree {} g c t t' → Kept g (ofSig g d t)
  | 0, _ => ⟨fun _ _ _ => nofun, fun _ _ _ => nofun⟩
  | c + 1, d => by
    refine ⟨typesAgree_kept hg (agree_kept hg c d).2, fun hR ht ht' h => ?_⟩
    cases d with
    | zero => exact kept_nil
    | succ d =>
      obtain ⟨types, sigs⟩ := agree_kept hg c d
      exact sigsAgree_kept types sigs hR ht ht' h

/-! ## What has kept its names is equal -/

section Kept

variable {c d : Nat}

/-- One step over types. -/
theorem kept_typesAgree (hg : g.Intact)
    (sigs : ∀ {t t' : Sig}, Rewrites g d t t' → HasRefs g t → HasRefs g t' → SigSpelled g c t →
      Kept g (ofSig g d t) → SigsAgree {} g c t t')
    {r r' : TypeDefOrRef} (hR : TypeRewrite g (Rewrites g d) r r') (hr : g.present r.node)
    (hr' : g.present r'.node) (h : TypeSpelled g (c + 1) r)
    (hkept : Kept g (ofType g (ofSig g d) r)) : TypesAgree {} g (c + 1) r r' := by
  cases hR with
  | typeDef _ | unmapped _ => exact (agree_self hg (c + 1)).1 _ hr h
  | missing _ => exact .spec _
  | mapped hmapping hstands =>
    exact .path ((pathsAgree_iff hg hr hr' hmapping hstands).mpr ((kept_mapped hmapping).mp hkept))
  | @spec s s' t t' hs hs' hR =>
    have hmentions : ofType g (ofSig g d) (.typeSpec s) = ofSig g d t := by simp [ofType, hs]
    rw [hmentions] at hkept
    exact .sig hs hs' (sigs hR (hasRefs_spec hg hs) (hasRefs_spec hg hs') (h t hs) hkept)

/-- One step over signatures. -/
theorem kept_sigsAgree (hg : g.Intact)
    (types : ∀ {r r' : TypeDefOrRef}, TypeRewrite g (Rewrites g d) r r' → g.present r.node →
      g.present r'.node → TypeSpelled g c r → Kept g (ofType g (ofSig g d) r) →
      TypesAgree {} g c r r')
    (sigs : ∀ {t t' : Sig}, Rewrites g d t t' → HasRefs g t → HasRefs g t' → SigSpelled g c t →
      Kept g (ofSig g d t) → SigsAgree {} g c t t')
    {t t' : Sig} (hR : Rewrites g (d + 1) t t') (ht : HasRefs g t) (ht' : HasRefs g t')
    (h : SigSpelled g (c + 1) t) (hkept : Kept g (ofSig g (d + 1) t)) :
    SigsAgree {} g (c + 1) t t' := by
  have self := (agree_self hg (c + 1)).2
  have lists : ∀ {ts ts' : List Sig}, Forall₂ (Rewrites g d) ts ts' →
      (∀ r ∈ TypeSig.refsAll ts, g.present r.node) →
      (∀ r ∈ TypeSig.refsAll ts', g.present r.node) → (∀ t ∈ ts, SigSpelled g c t) →
      Kept g (ts.flatMap (ofSig g d)) → Forall₂ (SigsAgree {} g c) ts ts' := by
    intro ts ts' hts
    induction hts with
    | nil => exact fun _ _ _ _ => .nil
    | cons hR _ ih =>
      intro hrefs hrefs' hspelled hkept
      obtain ⟨hfirst, hrest⟩ := List.forall_mem_append.mp hrefs
      obtain ⟨hfirst', hrest'⟩ := List.forall_mem_append.mp hrefs'
      obtain ⟨hs, hss⟩ := List.forall_mem_cons.mp hspelled
      rw [List.flatMap_cons, kept_append] at hkept
      exact .cons (sigs hR hfirst hfirst' hs hkept.1) (ih hrest hrest' hss hkept.2)
  cases hR with
  | leaf _ | param _ _ | passed _ _ => exact self _ ht h
  | named k hR =>
    exact sigsAgree_named.mpr (types hR (ht _ (by simp [TypeSig.refs]))
      (ht' _ (by simp [TypeSig.refs])) h hkept)
  | wrap hw hR =>
    rw [ofSig, if_pos hw] at hkept
    exact sigsAgree_wrap.mpr (sigs hR ht ht' h hkept)
  | modified k m hR =>
    obtain ⟨hm, hbase⟩ := List.forall_mem_cons.mp ht
    have htype : TypesAgree {} g c m m := (agree_self hg c).1 m hm h.1
    exact sigsAgree_modified.mpr ⟨htype, sigs hR hbase (List.forall_mem_cons.mp ht').2 h.2
      (kept_append.mp hkept).2⟩
  | inst hR hs =>
    obtain ⟨hgeneric, hargs⟩ := List.forall_mem_append.mp ht
    obtain ⟨hgeneric', hargs'⟩ := List.forall_mem_append.mp ht'
    obtain ⟨hfirst, hrest⟩ := kept_append.mp hkept
    exact sigsAgree_inst.mpr ⟨sigs hR hgeneric hgeneric' h.1 hfirst,
      lists hs hargs hargs' h.2 hrest⟩
  | fnPtr hd hR hp vs =>
    obtain ⟨hreturn, hrest⟩ := List.forall_mem_append.mp ht
    obtain ⟨hreturn', hrest'⟩ := List.forall_mem_append.mp ht'
    obtain ⟨hfirst, hparams⟩ := kept_append.mp hkept
    refine sigsAgree_fnPtr.mpr ⟨sigs hR hreturn hreturn' h.1 hfirst, ?_⟩
    exact lists hp (List.forall_mem_append.mp hrest).1 (List.forall_mem_append.mp hrest').1 h.2
      (kept_append.mp hparams).1

end Kept

/-- **Where every reference that is replaced keeps its namespace and its name, a signature is equal
to the one that takes its place**, within a budget that is enough, and so it is with types. -/
theorem kept_agree (hg : g.Intact) : ∀ c d : Nat,
    (∀ {r r' : TypeDefOrRef}, TypeRewrite g (Rewrites g d) r r' → g.present r.node →
      g.present r'.node → TypeSpelled g c r → Kept g (ofType g (ofSig g d) r) →
      TypesAgree {} g c r r') ∧
    ∀ {t t' : Sig}, Rewrites g d t t' → HasRefs g t → HasRefs g t' → SigSpelled g c t →
      Kept g (ofSig g d t) → SigsAgree {} g c t t'
  | 0, _ => ⟨fun _ _ _ => nofun, fun _ _ _ => nofun⟩
  | c + 1, d => by
    refine ⟨kept_typesAgree hg (kept_agree hg c d).2, fun hR ht ht' h hkept => ?_⟩
    cases d with
    | zero =>
      -- nothing is replaced without a budget for it
      obtain rfl : _ = _ := hR
      exact (agree_self hg (c + 1)).2 _ ht h
    | succ d =>
      obtain ⟨types, sigs⟩ := kept_agree hg c d
      exact kept_sigsAgree hg types sigs hR ht ht' h hkept

/-! ## Signatures of members -/

/-- Two signatures of members are equal. -/
def SignaturesAgree (g : Graph) : Signature TypeDefOrRef → Signature TypeDefOrRef → Prop
  | .method a, .method b => SigsAgree {} g (recursionBound + 1) a.toPointer b.toPointer
  | .field a, .field b => SigsAgree {} g recursionBound a b
  | _, _ => False

/-- A comparison of a signature of a member with the one that takes its place is not cut off. -/
def Spelled (g : Graph) : Signature TypeDefOrRef → Prop
  | .method m => SigSpelled g (recursionBound + 1) m.toPointer
  | .field t => SigSpelled g recursionBound t
  | _ => False

section Members

variable {s s' : Signature TypeDefOrRef} (hg : g.Intact)
  (hR : SignatureRewrite g (some s) (some s')) (hs : ∀ r ∈ s.refs, g.present r.node)
  (hs' : ∀ r ∈ s'.refs, g.present r.node)

include hg hR hs hs'

theorem signaturesAgree_kept (h : SignaturesAgree g s s') : Kept g (ofSignature g (some s)) := by
  cases hR with
  | method hR => exact (agree_kept hg _ _).2 hR hs hs' h
  | field hR => exact (agree_kept hg _ _).2 hR hs hs' h
  | other hnone =>
    rw [hnone]
    exact kept_nil

theorem kept_signaturesAgree (h : Spelled g s) (hkept : Kept g (ofSignature g (some s))) :
    SignaturesAgree g s s' := by
  cases hR with
  | method hR => exact (kept_agree hg _ _).2 hR hs hs' h hkept
  | field hR => exact (kept_agree hg _ _).2 hR hs hs' h hkept
  | other _ =>
    cases s with
    | method m => exact (agree_self hg _).2 m.toPointer hs h
    | field t => exact (agree_self hg _).2 t hs h
    | _ => exact h

end Members

end Projection
end CliMetadata
