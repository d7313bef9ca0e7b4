import CliMetadata.Proofs.Projection.Rewriting

/-!
# What is replaced in references to members

A reference to a member mentions what its class is or mentions and what its signature does.  The
reference that takes its place has the same shape, with everything replaced that the replacement
comes by.  **What is left is exactly what it passes by** (`memberRef_remaining`): the types of
modifiers, the arguments after a sentinel and the elements of value arrays and module types.  So
nothing is left if, and only if, no reference at such a place stands for anything.
-/

namespace CliMetadata

open CliMetadata.Graph Loading Stateful
open List (Forall₂)

/-- The class that a type is. -/
def MemberParent.ofType : TypeDefOrRef → MemberParent
  | .typeDef t => .typeDef t
  | .typeRef r => .typeRef r
  | .typeSpec s => .typeSpec s

theorem MemberParent.refs_ofType (r : TypeDefOrRef) : refs (some (ofType r)) = [r] := by
  cases r <;> rfl

namespace Projection

variable {g g' : Graph}

/-! ## Mentions of members -/

namespace Mention

/-- The mentions of the class of a member. -/
def ofParent (g : Graph) (p : Option MemberParent) : List Mention :=
  (MemberParent.refs p).flatMap (ofType g (ofSig g recursionBound))

/-- The mentions of the signature of a member: those of a method are those of a pointer to such a
method. -/
def ofSignature (g : Graph) : Option (Signature TypeDefOrRef) → List Mention
  | some (.method m) => ofSig g (recursionBound + 1) m.toPointer
  | some (.field t) => ofSig g recursionBound t
  | _ => []

/-- **The mentions of a reference to a member.** -/
def ofMember (g : Graph) (m : MemberRefId) : List Mention :=
  ofParent g (m.parent.run g).1 ++ ofSignature g (m.sig.run g).1

section Grown

variable {p : Option MemberParent} {s : Option (Signature TypeDefOrRef)}

theorem ofParent_present (hg : g.Whole) (hp : ∀ r ∈ MemberParent.refs p, g.present r.node) :
    ∀ x ∈ ofParent g p, g.present x.ref.node := by
  intro x hx
  obtain ⟨r, hr, hx⟩ := List.mem_flatMap.mp hx
  exact ofType_present hg (ofSig_present hg recursionBound) (hp r hr) x hx

theorem ofSignature_present (hg : g.Whole)
    (hs : ∀ r ∈ optionRefs Signature.refs s, g.present r.node) :
    ∀ x ∈ ofSignature g s, g.present x.ref.node := by
  cases s with
  | none => simp [ofSignature]
  | some s =>
    cases s with
    | method m => exact ofSig_present hg _ m.toPointer hs
    | field t => exact ofSig_present hg _ t hs
    | _ => simp [ofSignature]

/-- A class mentions the same after the graph has grown. -/
theorem ofParent_grown (hg : g.Whole) (h : g.Grown g')
    (hp : ∀ r ∈ MemberParent.refs p, g.present r.node) : ofParent g' p = ofParent g p :=
  List.flatMap_congr fun r hr => ofType_grown hg h (ofSig_grown hg h recursionBound) (hp r hr)

/-- So does a signature. -/
theorem ofSignature_grown (hg : g.Whole) (h : g.Grown g')
    (hs : ∀ r ∈ optionRefs Signature.refs s, g.present r.node) :
    ofSignature g' s = ofSignature g s := by
  cases s with
  | none => rfl
  | some s =>
    cases s with
    | method m => exact ofSig_grown hg h _ m.toPointer hs
    | field t => exact ofSig_grown hg h _ t hs
    | _ => rfl

end Grown

end Mention

/-- Whether a reference is replaced by another one. -/
def maps (g : Graph) (r : TypeRefId) : Bool := ((typeRef r).run g).1.isSome

/-- A reference is replaced where it stands for something. -/
theorem maps_eq (hg : g.Prepared) {r : TypeRefId} (hr : g.present r.node) :
    maps g r = (mapping g r).isSome := by
  obtain ⟨-, hresult⟩ := typeRef_grows hg hr
  unfold maps
  rcases hresult with ⟨hmapping, hout⟩ | ⟨μ, r', hmapping, hout, -, -⟩
  · rw [hmapping, hout]
    rfl
  · rw [hmapping, hout]
    rfl

/-! ## Replacing classes and signatures -/

/-- The class of a member and the one that takes its place. -/
inductive ParentRewrite (g : Graph) : Option MemberParent → Option MemberParent → Prop
  | type {r r' : TypeDefOrRef} (h : TypeRewrite g (Rewrites g recursionBound) r r') :
      ParentRewrite g (some (.ofType r)) (some (.ofType r'))
  | other {p : Option MemberParent} (h : Mention.ofParent g p = []) : ParentRewrite g p p

/-- The signature of a member and the one that takes its place. -/
inductive SignatureRewrite (g : Graph) :
    Option (Signature TypeDefOrRef) → Option (Signature TypeDefOrRef) → Prop
  | method {m m' : MethodSig TypeDefOrRef}
      (h : Rewrites g (recursionBound + 1) m.toPointer m'.toPointer) :
      SignatureRewrite g (some (.method m)) (some (.method m'))
  | field {t t' : Sig} (h : Rewrites g recursionBound t t') :
      SignatureRewrite g (some (.field t)) (some (.field t'))
  | other {s : Option (Signature TypeDefOrRef)} (h : Mention.ofSignature g s = []) :
      SignatureRewrite g s s

/-- A class that is a type itself stays. -/
theorem ParentRewrite.typeDef {t : TypeDefId} {p' : Option MemberParent}
    (h : ParentRewrite g (some (.typeDef t)) p') : p' = some (.typeDef t) := by
  generalize hp : some (MemberParent.typeDef t) = p at h
  cases h with
  | other _ => rfl
  | @type r r' h =>
    cases h with
    | typeDef _ => rfl
    | _ => cases hp

/-- A signature is replaced by a signature. -/
theorem SignatureRewrite.isSome {s : Signature TypeDefOrRef} {s' : Option (Signature TypeDefOrRef)}
    (h : SignatureRewrite g (some s) s') : ∃ t, s' = some t := by
  cases h with
  | method _ | field _ | other _ => exact ⟨_, rfl⟩

section Grown

variable {p p' : Option MemberParent} {s s' : Option (Signature TypeDefOrRef)}

theorem ParentRewrite.grown (hg : g.Whole) (h : g.Grown g') (hrel : ParentRewrite g p p')
    (hp : ∀ r ∈ MemberParent.refs p, g.present r.node)
    (hp' : ∀ r ∈ MemberParent.refs p', g.present r.node) : ParentRewrite g' p p' := by
  cases hrel with
  | type hrel =>
    rw [MemberParent.refs_ofType, List.forall_mem_singleton] at hp hp'
    exact .type (Rewrites.type_grown hg h (Rewrites.grown hg h) hrel hp hp')
  | other hnone => exact .other ((Mention.ofParent_grown hg h hp).trans hnone)

theorem SignatureRewrite.grown (hg : g.Whole) (h : g.Grown g') (hrel : SignatureRewrite g s s')
    (hs : ∀ r ∈ optionRefs Signature.refs s, g.present r.node)
    (hs' : ∀ r ∈ optionRefs Signature.refs s', g.present r.node) : SignatureRewrite g' s s' := by
  cases hrel with
  | method hrel => exact .method (hrel.grown hg h hs hs')
  | field hrel => exact .field (hrel.grown hg h hs hs')
  | other hnone => exact .other ((Mention.ofSignature_grown hg h hs).trans hnone)

end Grown

/-- Replacing in the signature of a method is replacing in that of a pointer to it. -/
theorem sig_toPointer (d : Nat) (m : MethodSig TypeDefOrRef) :
    sig (d + 1) m.toPointer = Option.map MethodSig.toPointer <$> methodSig d m := by
  rw [methodSig, map_bind]
  refine bind_congr fun returnType' => ?_
  rw [map_bind]
  refine bind_congr fun params' => ?_
  split <;> rfl

/-- Replacing in a class that is a specification is replacing in the specification. -/
theorem parent_typeSpec (name : Name) (s : TypeSpecId) : parent name (some (.typeSpec s)) =
    (fun out : Option TypeDefOrRef => (out.map MemberParent.ofType, name)) <$>
      typeWith (sig recursionBound) (.typeSpec s) := by
  rw [parent, typeWith, map_bind]
  refine bind_congr fun sig? => ?_
  cases sig? with
  | none => rfl
  | some t =>
    rw [map_bind]
    refine bind_congr fun out => ?_
    cases out <;> rfl

section Replacing

open Mention

/-- What replacing in the class of a member gives. -/
theorem parent_grows (hg : g.Prepared) (name : Name) {p : Option MemberParent}
    (hp : ∀ r ∈ MemberParent.refs p, g.present r.node) :
    g.Grows (parent name p) fun g' out => ParentRewrite g' p (out.1.or p) ∧
      (∀ r ∈ MemberParent.refs (out.1.or p), g'.present r.node) ∧
      (out.1.isSome ↔ Touched g (ofParent g p)) ∧
      ((∀ r, p ≠ some (.typeRef r)) → out.2 = name) := by
  cases p with
  | none => exact Grows.pure ⟨.other rfl, hp, by simp [ofParent, MemberParent.refs], fun _ => rfl⟩
  | some p =>
  cases p with
  | typeRef r =>
    have htype : g.Grows (typeRef r) fun g' out => Outcome (TypeRewrite g' (Rewrites g' recursionBound))
        (fun r => [r]) (Touched g (ofType g (ofSig g recursionBound) (.typeRef r))) g' (.typeRef r)
          (out.map TypeDefOrRef.typeRef) :=
      typeWith_grows (sig_rewrites recursionBound) hg (r := .typeRef r) (hp _ (List.mem_singleton_self _))
    refine htype.bind fun g₁ out h₁ ho => ?_
    have htouched := ho.isSome
    cases out with
    | none => exact Grows.pure ⟨.type (r := .typeRef r) ho.rel, ho.present,
        by simpa [ofParent, MemberParent.refs] using htouched, fun _ => rfl⟩
    | some r' => exact Grows.read (Grows.pure ⟨.type (r := .typeRef r) ho.rel, ho.present,
        by simpa [ofParent, MemberParent.refs] using htouched, fun h => absurd rfl (h r)⟩)
  | typeSpec s =>
    rw [parent_typeSpec]
    refine (typeWith_grows (sig_rewrites recursionBound) hg (r := .typeSpec s)
      (hp _ (List.mem_singleton_self _))).map fun g₁ out h₁ ho => ?_
    have htouched := ho.isSome
    have hrel : ParentRewrite g₁ (some (.typeSpec s))
        (some (.ofType (out.getD (.typeSpec s)))) := .type (r := .typeSpec s) ho.rel
    have hpresent : ∀ r ∈ MemberParent.refs (some (.ofType (out.getD (.typeSpec s)))),
        g₁.present r.node := by
      rw [MemberParent.refs_ofType]
      exact ho.present
    cases out <;>
      exact ⟨hrel, hpresent, by simpa [ofParent, MemberParent.refs] using htouched, fun _ => rfl⟩
  | typeDef _ | moduleRef _ | methodDef _ =>
    exact Grows.pure ⟨.other rfl, hp, by simp [ofParent, MemberParent.refs, ofType], fun _ => rfl⟩

/-- What replacing in the signature of a member gives. -/
theorem signature_grows (hg : g.Prepared) {s : Signature TypeDefOrRef}
    (hs : ∀ r ∈ s.refs, g.present r.node) :
    g.Grows (signature s) fun g' out => SignatureRewrite g' (some s) (some (out.getD s)) ∧
      (∀ r ∈ (out.getD s).refs, g'.present r.node) ∧
      (out.isSome ↔ Touched g (ofSignature g (some s))) := by
  cases s with
  | method m =>
    have hpointer := sig_rewrites (recursionBound + 1) (t := m.toPointer) hg hs
    rw [sig_toPointer] at hpointer
    obtain ⟨hgrown, ho⟩ := hpointer
    have hmethod : g.Grows (methodSig recursionBound m) fun g' out =>
        Outcome (Rewrites g' (recursionBound + 1)) TypeSig.refs
          (Touched g (ofSignature g (some (.method m)))) g' m.toPointer (out.map MethodSig.toPointer) :=
      ⟨hgrown, ho⟩
    refine hmethod.bind fun g₁ out h₁ ho => Grows.pure ?_
    cases out with
    | none => exact ⟨.method ho.rel, ho.present, ho.isSome⟩
    | some m' => exact ⟨.method ho.rel, ho.present, ho.isSome⟩
  | field t =>
    refine (sig_rewrites recursionBound hg hs).bind fun g₁ out h₁ ho => Grows.pure ?_
    cases out with
    | none => exact ⟨.field ho.rel, ho.present, ho.isSome⟩
    | some t' => exact ⟨.field ho.rel, ho.present, ho.isSome⟩
  | property _ | locals _ | instantiation _ =>
    exact Grows.pure ⟨.other rfl, hs, by simp [ofSignature]⟩

/-- A reference to a member and the one that takes its place. -/
structure MemberRewrite (g : Graph) (m : MemberRefId) (g' : Graph) (m' : MemberRefId) : Prop where
  parent : ParentRewrite g' (m.parent.run g).1 (m'.parent.run g').1
  sig : SignatureRewrite g' (m.sig.run g).1 (m'.sig.run g').1
  /-- Members of anything but a reference to a type keep their name. -/
  name : (∀ r, (m.parent.run g).1 ≠ some (.typeRef r)) → (g'.get m').name = (g.get m).name
  present : g'.present m'.node
  refs : ∀ r ∈ MemberParent.refs (m'.parent.run g').1, g'.present r.node

/-- What is known when the class of a reference to a member has been replaced, and its signature,
as far as anything takes their place. -/
structure PartsReplaced (g : Graph) (m : MemberRefId) (g' : Graph) (p' : Option MemberParent)
    (name : Name) (s' : Option (Signature TypeDefOrRef)) : Prop where
  grown : g.Grown g'
  parent : ParentRewrite g' (m.parent.run g).1 (p'.or (m.parent.run g).1)
  parentRefs : ∀ r ∈ MemberParent.refs (p'.or (m.parent.run g).1), g'.present r.node
  sig : SignatureRewrite g' (m.sig.run g).1 (s'.or (m.sig.run g).1)
  sigRefs : ∀ r ∈ optionRefs Signature.refs (s'.or (m.sig.run g).1), g'.present r.node
  name : (∀ r, (m.parent.run g).1 ≠ some (.typeRef r)) → name = (g.get m).name
  touched : (p'.isSome ∨ s'.isSome) ↔ Touched g (ofMember g m)

/-- Where nothing takes the place of its parts, nothing takes that of the reference. -/
theorem PartsReplaced.unchanged {m : MemberRefId} {name : Name} (hm : g.present m.node)
    (h : PartsReplaced g m g' none name none) : MemberRewrite g m g' m := by
  obtain ⟨hparent, hsig, hname⟩ := h.grown.member hm
  refine ⟨?_, ?_, fun _ => hname, h.grown.present (by rintro ⟨⟩) hm, ?_⟩
  · show ParentRewrite g' _ (MemberRefId.lazyParent.value g' m)
    rw [hparent]
    exact h.parent
  · show SignatureRewrite g' _ (MemberRefId.lazySig.value g' m)
    rw [hsig]
    exact h.sig
  · show ∀ r ∈ MemberParent.refs (MemberRefId.lazyParent.value g' m), g'.present r.node
    rw [hparent]
    exact h.parentRefs

/-- Else it is a reference that is made of what takes their place. -/
theorem PartsReplaced.made {m : MemberRefId} {p' : Option MemberParent} {name : Name}
    {s' : Option (Signature TypeDefOrRef)} (hg : g.Prepared)
    (hparent : ∀ r ∈ MemberParent.refs (m.parent.run g).1, g.present r.node)
    (h : PartsReplaced g m g' p' name s') (module : ModuleId) :
    g'.Grows (makeMemberRef module name (p'.or (m.parent.run g).1) (s'.or (m.sig.run g).1))
      fun g'' m' => MemberRewrite g m g'' m' := by
  have hg' := hg.grown h.grown
  have hsig : ∀ r ∈ optionRefs Signature.refs (m.sig.run g).1, g.present r.node :=
    MemberRefId.lazySig.refs_value (hg.safe fun _ => rfl) m
  refine (grows_makeMemberRef hg' module name _ h.sigRefs).imp fun g'' m' hmade hm' => ?_
  obtain ⟨hpresent, hparent', hsig', hname⟩ := hm'
  refine ⟨?_, ?_, fun hplain => hname.trans (h.name hplain), hpresent, ?_⟩
  · show ParentRewrite g'' _ (MemberRefId.lazyParent.value g'' m')
    rw [hparent']
    exact h.parent.grown hg'.toWhole hmade (h.grown.present_all hparent) h.parentRefs
  · show SignatureRewrite g'' _ (MemberRefId.lazySig.value g'' m')
    rw [hsig']
    exact h.sig.grown hg'.toWhole hmade (h.grown.present_all hsig) h.sigRefs
  · show ∀ r ∈ MemberParent.refs (MemberRefId.lazyParent.value g'' m'), g''.present r.node
    rw [hparent']
    exact hmade.present_all h.parentRefs

/-- So a reference takes the place of another one where anything takes that of its parts. -/
theorem PartsReplaced.whole {m : MemberRefId} {p' : Option MemberParent} {name : Name}
    {s' : Option (Signature TypeDefOrRef)} (hg : g.Prepared) (hm : g.present m.node)
    (hparent : ∀ r ∈ MemberParent.refs (m.parent.run g).1, g.present r.node)
    (h : PartsReplaced g m g' p' name s') (module : ModuleId) :
    g'.Grows (if (p'.isNone && s'.isNone) = true then pure none
      else some <$> makeMemberRef module name (p'.or (m.parent.run g).1) (s'.or (m.sig.run g).1))
      fun g'' out => MemberRewrite g m g'' (out.getD m) ∧
        (out.isSome ↔ Touched g (ofMember g m)) := by
  by_cases hnone : (p'.isNone && s'.isNone) = true
  · rw [if_pos hnone]
    rw [Bool.and_eq_true, Option.isNone_iff_eq_none, Option.isNone_iff_eq_none] at hnone
    obtain ⟨rfl, rfl⟩ := hnone
    refine Grows.pure ⟨h.unchanged hm, ?_⟩
    rw [← h.touched]
    simp
  · rw [if_neg hnone]
    rw [Bool.and_eq_true, not_and_or, Bool.not_eq_true, Bool.not_eq_true] at hnone
    have hsome : p'.isSome ∨ s'.isSome :=
      hnone.imp Option.isNone_eq_false_iff.mp Option.isNone_eq_false_iff.mp
    exact (h.made hg hparent module).map fun _ _ _ hrewrite =>
      ⟨hrewrite, iff_of_true rfl (h.touched.mp hsome)⟩

/-- **What replacing in a reference to a member leads to.** -/
theorem memberRef_grows (hg : g.Prepared) {m : MemberRefId} (hm : g.present m.node)
    (hmodule : (m.module.run g).1.isSome)
    (hparent : ∀ r ∈ MemberParent.refs (m.parent.run g).1, g.present r.node) :
    g.Grows (memberRef m) fun g' out => MemberRewrite g m g' (out.getD m) ∧
      (out.isSome ↔ Touched g (ofMember g m)) := by
  obtain ⟨module, hmodule⟩ := Option.isSome_iff_exists.mp hmodule
  have hread : g.Grows m.module fun g' v => g = g' ∧ v = some module := ⟨.refl g, rfl, hmodule⟩
  refine hread.bind fun g₁ v _ hv => ?_
  obtain ⟨rfl, rfl⟩ := hv
  have hsig : ∀ r ∈ optionRefs Signature.refs (m.sig.run g).1, g.present r.node :=
    MemberRefId.lazySig.refs_value (hg.safe fun _ => rfl) m
  refine (grows_parent hm).bind fun g₁ p h₁ hp => ?_
  refine (grows_memberSig (h₁.present (by rintro ⟨⟩) hm)).bind fun g₂ s h₂ hs => ?_
  -- what has been read is what reads in the graph at the start
  obtain rfl : p = (m.parent.run g).1 := hp
  obtain rfl : s = (m.sig.run g).1 := hs.trans (h₁.member hm).2.1
  have h := h₁.trans h₂
  have hg₂ := hg.grown h
  refine Grows.read ?_
  refine (parent_grows hg₂ _ (h.present_all hparent)).bind fun g₃ x h₃ hx => ?_
  obtain ⟨p', name⟩ := x
  obtain ⟨hrel, hpresent, htouched, hname⟩ := hx
  have hg₃ := hg₂.grown h₃
  have hgrown : g.Grown g₃ := h.trans h₃
  rw [Mention.ofParent_grown hg.toWhole h hparent,
    touched_grown h (ofParent_present hg.toWhole hparent)] at htouched
  have parts : ∀ g₄ s', g₃.Grown g₄ →
      SignatureRewrite g₄ (m.sig.run g).1 (Option.or s' (m.sig.run g).1) →
      (∀ r ∈ optionRefs Signature.refs (Option.or s' (m.sig.run g).1), g₄.present r.node) →
      (s'.isSome ↔ Touched g₃ (ofSignature g₃ (m.sig.run g).1)) →
      PartsReplaced g m g₄ p' name s' := by
    intro g₄ s' h₄ hsrel hspresent hstouched
    refine ⟨hgrown.trans h₄, ?_, h₄.present_all hpresent, hsrel, hspresent, fun hplain => ?_, ?_⟩
    · exact hrel.grown hg₃.toWhole h₄ (hgrown.present_all hparent) hpresent
    · exact (hname hplain).trans (h.member hm).2.2
    · rw [ofMember, touched_append, htouched, hstouched, Mention.ofSignature_grown hg.toWhole hgrown
        hsig, touched_grown hgrown (ofSignature_present hg.toWhole hsig)]
  cases hvalue : (m.sig.run g).1 with
  | none =>
    have hparts := parts g₃ none (.refl g₃) (by rw [hvalue]; exact .other rfl)
      (by rw [hvalue]; rintro _ ⟨⟩) (by rw [hvalue]; simp [ofSignature])
    have hwhole := hparts.whole hg hm hparent module
    rw [hvalue] at hwhole
    exact hwhole
  | some s =>
    rw [hvalue] at hsig parts
    refine (signature_grows hg₃ (hgrown.present_all hsig)).bind fun g₄ s' h₄ hs' => ?_
    obtain ⟨hsrel, hspresent, hstouched⟩ := hs'
    have hor : Option.or s' (some s) = some (s'.getD s) := by cases s' <;> rfl
    have hparts := parts g₄ s' h₄ (by rw [hor]; exact hsrel) (by rw [hor]; exact hspresent) hstouched
    have hwhole := hparts.whole hg hm hparent module
    rw [hvalue] at hwhole
    exact hwhole

end Replacing

/-! ## What is left -/

section Remaining

open Mention

theorem ParentRewrite.remaining {p p' : Option MemberParent} (h : ParentRewrite g p p') :
    Mention.mapped g (ofParent g p') = left g (ofParent g p) := by
  cases h with
  | type h =>
    rw [ofParent, ofParent, MemberParent.refs_ofType, MemberParent.refs_ofType,
      List.flatMap_singleton, List.flatMap_singleton]
    exact Rewrites.remaining_type Rewrites.remaining h
  | other h =>
    rw [h]
    rfl

theorem SignatureRewrite.remaining {s s' : Option (Signature TypeDefOrRef)}
    (h : SignatureRewrite g s s') :
    Mention.mapped g (ofSignature g s') = left g (ofSignature g s) := by
  cases h with
  | method h => exact h.remaining
  | field h => exact h.remaining
  | other h =>
    rw [h]
    rfl

/-- **What is left to be replaced in a reference to a member is what the replacement passes by.**
Let the module of a reference be there, and what its class is.  In the reference that takes its
place, or in itself where none does, the mentions of references that are replaced are those that
were not visited, one after the other.  So there are none if, and only if, no reference that is
replaced was passed by; and a reference takes its place exactly where one was visited. -/
theorem memberRef_remaining (hg : g.Prepared) {m : MemberRefId} (hm : g.present m.node)
    (hmodule : (m.module.run g).1.isSome)
    (hparent : ∀ r ∈ MemberParent.refs (m.parent.run g).1, g.present r.node)
    {out : Option MemberRefId} (h : (memberRef m).run g = (out, g')) :
    (ofMember g' (out.getD m)).filter (fun x => maps g' x.ref) =
        (ofMember g m).filter (fun x => !x.visited && maps g x.ref) ∧
      ((∀ x ∈ ofMember g' (out.getD m), ¬maps g' x.ref) ↔
        ∀ x ∈ ofMember g m, x.visited = false → ¬maps g x.ref) ∧
      (out.isSome ↔ ∃ x ∈ ofMember g m, x.visited = true ∧ maps g x.ref) := by
  obtain ⟨hgrown, hrewrite, hsome⟩ := memberRef_grows hg hm hmodule hparent
  rw [h] at hgrown hrewrite hsome
  dsimp only at hgrown hrewrite hsome
  have hg' := hg.grown hgrown
  have hsigRefs : ∀ r ∈ optionRefs Signature.refs (m.sig.run g).1, g.present r.node :=
    MemberRefId.lazySig.refs_value (hg.safe fun _ => rfl) m
  have hsigRefs' : ∀ r ∈ optionRefs Signature.refs ((out.getD m).sig.run g').1, g'.present r.node :=
    MemberRefId.lazySig.refs_value (hg'.safe fun _ => rfl) (out.getD m)
  -- what is mentioned is there, so it is replaced where it stands for something
  have hbefore : ∀ x ∈ ofMember g m, g.present x.ref.node := List.forall_mem_append.mpr
    ⟨ofParent_present hg.toWhole hparent, ofSignature_present hg.toWhole hsigRefs⟩
  have hafter : ∀ x ∈ ofMember g' (out.getD m), g'.present x.ref.node := List.forall_mem_append.mpr
    ⟨ofParent_present hg'.toWhole hrewrite.refs, ofSignature_present hg'.toWhole hsigRefs'⟩
  have hmaps : ∀ x ∈ ofMember g m, maps g x.ref = (mapping g x.ref).isSome := fun x hx =>
    maps_eq hg (hbefore x hx)
  have hleft : (ofMember g' (out.getD m)).filter (fun x => maps g' x.ref) =
      (ofMember g m).filter (fun x => !x.visited && maps g x.ref) := by
    calc (ofMember g' (out.getD m)).filter (fun x => maps g' x.ref)
        = Mention.mapped g' (ofMember g' (out.getD m)) :=
          List.filter_congr fun x hx => maps_eq hg' (hafter x hx)
      _ = left g' (ofParent g' (m.parent.run g).1 ++ ofSignature g' (m.sig.run g).1) := by
          rw [ofMember, mapped_append, left_append, hrewrite.parent.remaining,
            hrewrite.sig.remaining]
      _ = left g' (ofMember g m) := by
          rw [ofParent_grown hg.toWhole hgrown hparent,
            ofSignature_grown hg.toWhole hgrown hsigRefs, ofMember]
      _ = (ofMember g m).filter (fun x => !x.visited && maps g x.ref) :=
          List.filter_congr fun x hx => by rw [hmaps x hx, mapping_grown hgrown (hbefore x hx)]
  refine ⟨hleft, ?_, hsome.trans ?_⟩
  · have hempty := congrArg (· = []) hleft
    simp only [List.filter_eq_nil_iff, eq_iff_iff, Bool.and_eq_true, Bool.not_eq_true',
      not_and] at hempty
    exact hempty
  · exact exists_congr fun x => and_congr_right fun hx => by rw [hmaps x hx]

end Remaining

/-! ## A method that takes what is replaced in all sorts of places -/

/-- A graph of a reference to a type that stands for another, and of a reference to a member of it.
The member is a method that returns the type and takes a value array of it, an object that is
modified by it, and one of it after a sentinel. -/
def mentioning : Graph :=
  ((do
    let m : ModuleId ← make .module ⟨0, .inMemory, .empty, Guid.zero, none, some [], some []⟩
    let a ← makeAssemblyRef default AssemblyFlags.windowsRuntime
    let r ← makeTypeRef m (.ofString "Windows.Foundation") (.ofString "Uri") (some (.assemblyRef a))
    let uri : Sig := .named .classType (.typeRef r)
    let params : List Sig :=
      [.wrap (.valueArray 2) uri, .modified .required (.typeRef r) (.leaf .object)]
    let _ ← makeMemberRef m .empty (some (.typeRef r)) (some (.method ⟨default, uri, params, [uri]⟩))
    return () : GraphM Unit).run Graph.empty).2

/-- Its class and what it returns are replaced, and three mentions are left. -/
theorem memberRef_mentioning :
    let m : MemberRefId := ⟨.built 3⟩
    let run := (memberRef m).run mentioning
    mentioning.Prepared ∧ run.1 = some ⟨.built 8⟩ ∧
      ((Mention.ofMember run.2 ⟨.built 8⟩).filter fun x => maps run.2 x.ref) =
        [⟨⟨.built 2⟩, false⟩, ⟨⟨.built 2⟩, false⟩, ⟨⟨.built 2⟩, false⟩] := by
  intro m run
  have hg : mentioning.Prepared := by decide +kernel
  have hrun : run.1 = some ⟨.built 8⟩ := by decide +kernel
  have hreplaced : (memberRef m).run mentioning = (some ⟨.built 8⟩, run.2) := Prod.ext hrun rfl
  obtain ⟨hleft, -, -⟩ := memberRef_remaining hg (by decide +kernel) (by decide +kernel)
    (by decide +kernel) hreplaced
  refine ⟨hg, hrun, hleft.trans ?_⟩
  decide +kernel

/-- **So not everything is replaced that could be**, although the module of the reference is
there. -/
theorem memberRef_passes :
    let m : MemberRefId := ⟨.built 3⟩
    let run := (memberRef m).run mentioning
    (m.module.run mentioning).1.isSome ∧
      ∃ x ∈ Mention.ofMember run.2 (run.1.getD m), maps run.2 x.ref := by
  decide +kernel

end Projection
end CliMetadata
