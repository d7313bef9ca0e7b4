import CliMetadata.Proofs.Containment.Paths
import CliMetadata.Proofs.Projection.MemberReferences

/-!
# Replacing leaves the shape, and is done once

What takes the place of a signature is the same signature with references in the place of
others (`Rewrites`).  It has its parts where the signature has them (`Rewritten`), and a
reference is no part, so **it is searched for generic parameters with the same result under
every budget**, also through specifications that refer back to themselves.

What stands in the place of a reference stands for nothing itself.  So all that is left to be
replaced is where the replacement does not come by (`Rewrites.remaining`), and **what a
replacement gives is not replaced again**, in the graph that it leads to and whatever is read
and made after that (`sig_once`, `memberRef_once`).
-/

namespace CliMetadata

open CliMetadata.Graph Loading Stateful
open Containment (Part)
open List (Forall₂)

/-! ## Parts in a graph that has grown -/

namespace Containment.Part

variable {g g' : Graph}

/-- A part stands beside itself in a graph that has grown. -/
theorem matching_grown (hg : g.Intact) (h : g.Grown g') :
    Matching (fun p q => p = q ∧ p.HasRefs g) g g' where
  isParam := by
    rintro p _ ⟨rfl, -⟩
    rfl
  components := by
    rintro p _ ⟨rfl, hp⟩
    have hcomponents : p.components g' = p.components g := by
      cases p with
      | type t => cases t <;> rfl
      | spec s => rw [components, components, h.specSig (hp _ List.mem_cons_self)]
      | signature s => cases s <;> rfl
    rw [hcomponents]
    exact List.forall₂_same.mpr fun q hq => ⟨rfl, hp.components hg hq⟩

end Containment.Part

namespace Projection

variable {g g' g'' : Graph}

/-! ## Parts of what takes the place of a signature -/

/-- A part of a signature and the part that stands in its place: the same, or a type, a
specification or a method with what is replaced in it replaced. -/
inductive Rewritten (g : Graph) : Part → Part → Prop
  | same (p : Part) : Rewritten g p p
  | type {d : Nat} {t t' : Sig} (h : Rewrites g d t t') : Rewritten g (.type t) (.type t')
  | spec {d : Nat} {s s' : TypeSpecId} {t t' : Sig} (h : TypeSpecId.lazySig.value g s = some t)
      (h' : TypeSpecId.lazySig.value g s' = some t') (hR : Rewrites g d t t') :
      Rewritten g (.spec s) (.spec s')
  | method {d : Nat} (head : MethodHead) {t t' : Sig} {ps ps' : List Sig} (h : Rewrites g d t t')
      (hs : Forall₂ (Rewrites g d) ps ps') (vs : List Sig) :
      Rewritten g (.signature (.method ⟨head, t, ps, vs⟩)) (.signature (.method ⟨head, t', ps', vs⟩))

namespace Rewritten

theorem refl (ps : List Part) : Forall₂ (Rewritten g) ps ps :=
  List.forall₂_same.mpr fun p _ => .same p

theorem types {d : Nat} {ts ts' : List Sig} (h : Forall₂ (Rewrites g d) ts ts') :
    Forall₂ (Rewritten g) (ts.map .type) (ts'.map .type) :=
  List.forall₂_map_left_iff.mpr (List.forall₂_map_right_iff.mpr (h.imp fun _ _ => .type))

/-- A specification leads to the one that stands in its place, and other references lead to
nothing. -/
theorem referred {d : Nat} {r r' : TypeDefOrRef} (h : TypeRewrite g (Rewrites g d) r r') :
    Forall₂ (Rewritten g) (Containment.referred r) (Containment.referred r') := by
  cases h with
  | typeDef _ | unmapped _ | mapped _ _ => exact .nil
  | missing _ => exact refl _
  | spec h h' hR => exact .cons (.spec h h' hR) .nil

theorem isParam {p q : Part} (h : Rewritten g p q) : p.IsParam ↔ q.IsParam := by
  cases h with
  | same _ => rfl
  | spec _ _ _ | method _ _ _ _ => exact iff_of_false nofun nofun
  | @type d t t' h =>
    cases d with
    | zero => rw [show t' = t from h]
    | succ d =>
      cases h with
      | param _ _ => rfl
      | _ => exact iff_of_false nofun nofun

/-- **Each component has the component in its place that stands where it did.** -/
theorem components {p q : Part} (h : Rewritten g p q) :
    Forall₂ (Rewritten g) (p.components g) (q.components g) := by
  cases h with
  | same p => exact refl _
  | spec h h' hR =>
    rw [Part.components, Part.components, h, h']
    exact .cons (.type hR) .nil
  | method _ h hs vs =>
    rw [Part.components, Part.components, List.map_append, List.map_append]
    exact .cons (.type h) (List.rel_append (types hs) (refl _))
  | @type d t t' h =>
    cases d with
    | zero =>
      rw [show t' = t from h]
      exact refl _
    | succ d =>
      cases h with
      | leaf _ | param _ _ => exact .nil
      | named _ h => exact referred h
      | wrap _ h => exact .cons (.type h) .nil
      | passed _ _ => exact refl _
      | modified _ m h => exact List.rel_append (refl _) (.cons (.type h) .nil)
      | inst h hs => exact .cons (.type h) (types hs)
      | fnPtr head h hs vs => exact .cons (.method head h hs vs) .nil

theorem matching (g : Graph) : Part.Matching (Rewritten g) g g where
  isParam := isParam
  components := components

end Rewritten

/-! ## What is left -/

section Remaining

open Mention

/-- **What takes the place of a signature is not replaced again**, however the graph grows. -/
theorem sig_once (hg : g.Prepared) {d : Nat} {t t' : Sig} (hR : Rewrites g d t t')
    (ht' : ∀ r ∈ t'.refs, g.present r.node) (h : g.Grown g') : ((sig d t').run g').1 = none := by
  obtain ⟨-, houtcome⟩ := sig_rewrites d (hg.grown h) (h.present_all ht')
  have hpresent := ofSig_present hg.toWhole d t' ht'
  rw [← Option.not_isSome_iff_eq_none, houtcome.isSome, ofSig_grown hg.toWhole h d t' ht',
    touched_grown h hpresent]
  exact not_touched hR.remaining

/-- Nothing takes the place of a reference whose module is gone. -/
theorem memberRef_orphan {m : MemberRefId} (h : (m.module.run g).1 = none) :
    ((memberRef m).run g).1 = none := by
  rw [memberRef, run_bind, h]
  rfl

/-- **Neither is what takes the place of a reference to a member.** -/
theorem memberRef_once (hg : g'.Prepared) {m m' : MemberRefId} (hR : MemberRewrite g m g' m')
    (h : g'.Grown g'') : ((memberRef m').run g'').1 = none := by
  obtain ⟨hparent, hsig, -⟩ := h.member hR.present
  have hrefs : ∀ r ∈ MemberParent.refs (MemberRefId.lazyParent.value g' m'), g'.present r.node :=
    hR.refs
  have hsigRefs : ∀ r ∈ optionRefs Signature.refs (MemberRefId.lazySig.value g' m'),
      g'.present r.node := MemberRefId.lazySig.refs_value (hg.safe fun _ => rfl) m'
  have hmember : ofMember g'' m' = ofMember g' m' := by
    show ofParent g'' (MemberRefId.lazyParent.value g'' m') ++
      ofSignature g'' (MemberRefId.lazySig.value g'' m') = _
    rw [hparent, hsig, ofParent_grown hg.toWhole h hrefs, ofSignature_grown hg.toWhole h hsigRefs]
    rfl
  have hpresent : ∀ x ∈ ofMember g' m', g'.present x.ref.node := List.forall_mem_append.mpr
    ⟨ofParent_present hg.toWhole hrefs, ofSignature_present hg.toWhole hsigRefs⟩
  by_cases hmodule : (m'.module.run g'').1.isSome = true
  · have hrefs'' : ∀ r ∈ MemberParent.refs (m'.parent.run g'').1, g''.present r.node := by
      show ∀ r ∈ MemberParent.refs (MemberRefId.lazyParent.value g'' m'), _
      rw [hparent]
      exact h.present_all hrefs
    obtain ⟨-, -, hsome⟩ := memberRef_grows (hg.grown h) (h.present (by rintro ⟨⟩) hR.present)
      hmodule hrefs''
    have hleft : Mention.mapped g' (ofMember g' m') =
        left g' (ofParent g' (m.parent.run g).1 ++ ofSignature g' (m.sig.run g).1) := by
      rw [ofMember, mapped_append, left_append, hR.parent.remaining, hR.sig.remaining]
    rw [← Option.not_isSome_iff_eq_none, hsome, hmember, touched_grown h hpresent]
    exact not_touched hleft
  · exact memberRef_orphan (Option.not_isSome_iff_eq_none.mp hmodule)

end Remaining

/-! ## The whole -/

/-- **Replacing keeps the shape of a signature, and what it gives is not replaced again.**  In a
prepared graph, let a signature over what is there be replaced within a depth budget.  Then
nothing but references has others in its place, the search for generic parameters answers the
same for both signatures under every budget, before and after, and within its budget the new
signature is not replaced again, in the graph that it was made in or any later one.  Neither is
a reference to a member that has taken the place of another. -/
theorem replaced_once (hg : g.Prepared) :
    (∀ (d : Nat) (t t' : Sig) (g' : Graph), (∀ r ∈ t.refs, g.present r.node) →
      (sig d t).run g = (some t', g') →
      Rewrites g' d t t' ∧
      (∀ depth g₁ g₂, g.Consulted g₁ ∨ g'.Consulted g₁ → g'.Consulted g₂ →
        ((Containment.type depth t).run g₁).1 = ((Containment.type depth t').run g₂).1) ∧
      ∀ g'', g'.Grown g'' → ((sig d t').run g'').1 = none) ∧
    ∀ (m m' : MemberRefId) (g' : Graph), g.present m.node →
      (∀ r ∈ MemberParent.refs (m.parent.run g).1, g.present r.node) →
      (memberRef m).run g = (some m', g') →
      ∀ g'', g'.Grown g'' → ((memberRef m').run g'').1 = none := by
  constructor
  · intro d t t' g' ht hrun
    obtain ⟨hgrown, hR, hpresent, -⟩ := sig_rewrites d hg ht
    rw [hrun] at hgrown hR hpresent
    dsimp only [Option.getD_some] at hgrown hR hpresent
    have hg' := hg.grown hgrown
    have ht₀ : (Part.type t).HasRefs g := ht
    have ht₁ : (Part.type t).HasRefs g' := hgrown.present_all ht
    refine ⟨hR, fun depth g₁ g₂ h₁ h₂ => ?_, fun g'' h => sig_once hg' hR hpresent h⟩
    have hmatching := Rewritten.matching g'
    have hafter : ∀ {g₁}, g'.Consulted g₁ →
        ((Containment.type depth t).run g₁).1 = ((Containment.type depth t').run g₂).1 := fun h₁ =>
      hmatching.mentions_eq hg'.intact hg'.intact (.type hR) ht₁ hpresent depth h₁ h₂
    rcases h₁ with h₁ | h₁
    · have hbefore := (Part.matching_grown hg.intact hgrown).mentions_eq hg.intact hg'.intact
        ⟨rfl, ht₀⟩ ht₀ ht₁ depth h₁ (.refl g')
      exact hbefore.trans (hafter (.refl g'))
    · exact hafter h₁
  · intro m m' g' hm hparent hrun g'' h
    have hmodule : (m.module.run g).1.isSome := by
      by_contra hnone
      have := memberRef_orphan (Option.not_isSome_iff_eq_none.mp hnone)
      rw [hrun] at this
      cases this
    obtain ⟨hgrown, hR, -⟩ := memberRef_grows hg hm hmodule hparent
    rw [hrun] at hgrown hR
    exact memberRef_once (hg.grown hgrown) hR h

/-- An instantiation, with a generic parameter, of a type that stands for another: the other one
is put in its place, and the parameter is found before and after.  Neither it nor the method
that takes the place of the one in that graph is replaced again. -/
theorem replaced_once_mentioning :
    let t : Sig := .inst (.named .classType (.typeRef ⟨.built 2⟩)) [.param .type 0]
    let run := (sig 3 t).run mentioning
    let t' : Sig := .inst (.named .classType (.typeRef ⟨.built 5⟩)) [.param .type 0]
    let runMember := (memberRef ⟨.built 3⟩).run mentioning
    mentioning.Prepared ∧ run.1 = some t' ∧ Rewrites run.2 3 t t' ∧
      ((Containment.type 2 t).run mentioning).1 = true ∧
      ((Containment.type 2 t').run run.2).1 = true ∧
      ((sig 3 t').run run.2).1 = none ∧ runMember.1 = some ⟨.built 8⟩ ∧
      ((memberRef ⟨.built 8⟩).run runMember.2).1 = none := by
  intro t run t' runMember
  have hg : mentioning.Prepared := by decide +kernel
  have hrun : run.1 = some t' := by rfl
  have hmember : runMember.1 = some ⟨.built 8⟩ := by decide +kernel
  obtain ⟨sigs, members⟩ := replaced_once hg
  obtain ⟨hR, hsearch, honce⟩ := sigs 3 t t' run.2 (by decide +kernel) (Prod.ext hrun rfl)
  have hfound : ((Containment.type 2 t).run mentioning).1 = true := by decide +kernel
  refine ⟨hg, hrun, hR, hfound, ?_, honce run.2 (.refl _), hmember, ?_⟩
  · exact (hsearch 2 mentioning run.2 (.inl (.refl _)) (.refl _)).symm.trans hfound
  · exact members ⟨.built 3⟩ ⟨.built 8⟩ runMember.2 (by decide +kernel) (by decide +kernel)
      (Prod.ext hmember rfl) runMember.2 (.refl _)

end Projection
end CliMetadata
