import CliMetadata.Proofs.Containment.Paths

/-!
# Equal signatures mention generic parameters alike

Comparing two signatures and searching one for generic parameters are different recursions:
the comparison has a fixed budget, spends some of it on references, and does not enter a
specification that is on both sides.  But a comparison that counts the modifiers and the
arguments after the sentinel looks at every component, so **two signatures that it finds
equal are searched with the same result under every budget** (`mentions_of_equal`).

Two parts that are alike (`Alike`) have components that are alike, in order
(`Alike.components`), and so a path from one to a generic parameter has a path of the same cost
from the other beside it (`Part.Matching.reaches_iff`).  A specification that the comparison
did not enter is alike because it is the same: there the two paths become one.
-/

namespace CliMetadata.Containment

open CliMetadata.Graph CompareOptions Stateful
open List (Forall₂)

/-- Two parts that a comparison does not tell apart within some budget: the same, or types,
specifications or methods that agree. -/
inductive Alike (o : CompareOptions) (g : Graph) : Part → Part → Prop
  | same (p : Part) : Alike o g p p
  | type {n : Nat} {s t : Sig} (h : SigsAgree o g n s t) : Alike o g (.type s) (.type t)
  | spec {n : Nat} {a b : TypeSpecId} (h : TypesAgree o g n (.typeSpec a) (.typeSpec b)) :
      Alike o g (.spec a) (.spec b)
  | method {n : Nat} {a b : MethodSig TypeDefOrRef}
      (h : SigsAgree o g n a.toPointer b.toPointer) :
      Alike o g (.signature (.method a)) (.signature (.method b))

namespace Alike

variable {o : CompareOptions} {g : Graph} {p q : Part}

/-- Signatures that agree are built alike, where modifiers count. -/
theorem step {n : Nat} {s t : Sig} (hm : o.ignoreModifiers = false) (h : SigsAgree o g n s t) :
    ∃ m, SigStep o (TypesAgree o g m) (SigsAgree o g m) s t := by
  cases n with
  | zero => exact h.elim
  | succ n =>
    refine ⟨n, ?_⟩
    simpa only [SigsAgree, compared, hm, Bool.false_eq_true, if_false] using h

/-- References that agree lead to parts that are alike: to nothing, where they agree on a
path. -/
theorem referred {n : Nat} {a b : TypeDefOrRef} (h : TypesAgree o g n a b) :
    Forall₂ (Alike o g) (Containment.referred a) (Containment.referred b) := by
  cases n with
  | zero => exact h.elim
  | succ n =>
    have hspec : ∀ {s t : TypeSpecId}, TypesAgree o g (n + 1) (.typeSpec s) (.typeSpec t) →
        Forall₂ (Alike o g) [.spec s] [.spec t] := fun h => .cons (.spec h) .nil
    cases h with
    | path h =>
      cases a with
      | typeSpec _ => exact absurd h not_pathsAgree_spec
      | typeDef _ | typeRef _ =>
        cases b with
        | typeSpec _ => exact absurd h.symm not_pathsAgree_spec
        | typeDef _ | typeRef _ => exact .nil
    | spec s => exact hspec (.spec s)
    | sig ha hb h => exact hspec (.sig ha hb h)

/-- So do lists of signatures that agree. -/
theorem types {n : Nat} {ss ts : List Sig} (h : Forall₂ (SigsAgree o g n) ss ts) :
    Forall₂ (Alike o g) (ss.map .type) (ts.map .type) :=
  List.forall₂_map_left_iff.mpr (List.forall₂_map_right_iff.mpr (h.imp fun _ _ => .type))

/-- What is like a generic parameter is one. -/
theorem isParam (hm : o.ignoreModifiers = false) (h : Alike o g p q) : p.IsParam ↔ q.IsParam := by
  cases h with
  | same _ => rfl
  | spec _ | method _ => exact iff_of_false nofun nofun
  | type h =>
    obtain ⟨_, hstep⟩ := step hm h
    cases hstep with
    | param scope index => exact iff_of_true (.param scope index) (.param scope index)
    | _ => exact iff_of_false nofun nofun

/-- **The components of a part are like those of what is like the part.** -/
theorem components (hm : o.ignoreModifiers = false) (hv : o.varargs = true) (h : Alike o g p q) :
    Forall₂ (Alike o g) (p.components g) (q.components g) := by
  cases h with
  | same p => exact List.forall₂_same.mpr fun p _ => .same p
  | @spec n a b h =>
    cases n with
    | zero => exact h.elim
    | succ n =>
      cases h with
      | path h => exact absurd h not_pathsAgree_spec
      | spec s => exact List.forall₂_same.mpr fun p _ => .same p
      | sig ha hb h =>
        have ha' : TypeSpecId.lazySig.value g a = some _ := ha
        have hb' : TypeSpecId.lazySig.value g b = some _ := hb
        rw [Part.components, Part.components, ha', hb']
        exact .cons (.type h) .nil
  | method h =>
    obtain ⟨m, hstep⟩ := step hm h
    cases hstep with
    | fnPtr _ hreturn hparams hvarargs =>
      exact .cons (.type hreturn) (types (List.rel_append hparams (hvarargs hv)))
  | type h =>
    obtain ⟨m, hstep⟩ := step hm h
    cases hstep with
    | leaf _ | param _ _ => exact .nil
    | named _ hreference => exact referred hreference
    | wrap _ hnext => exact .cons (.type hnext) .nil
    | modified _ hmodifier hbase =>
      exact List.rel_append (referred hmodifier) (.cons (.type hbase) .nil)
    | inst hgeneric hargs => exact .cons (.type hgeneric) (types hargs)
    | fnPtr _ _ _ _ => exact .cons (.method h) .nil

/-- So parts that are alike stand beside each other on the way to generic parameters. -/
theorem matching (hm : o.ignoreModifiers = false) (hv : o.varargs = true) :
    Part.Matching (Alike o g) g g where
  isParam := isParam hm
  components := components hm hv

end Alike

/-- **Equal signatures mention generic parameters alike.**  If two signatures of types, or of
methods, are equal under options that count modifiers and the arguments after the sentinel,
then the search has the same result for both under every budget, whatever has been consulted
in between. -/
theorem mentions_of_equal {o : CompareOptions} (hm : o.ignoreModifiers = false)
    (hv : o.varargs = true) {g : Graph} (hg : g.Intact) :
    (∀ s t : Sig, CompareOptions.HasRefs g s → CompareOptions.HasRefs g t →
      ∀ g₀, g.Consulted g₀ → ((o.equalSigs s t).run g₀).1 = true →
      ∀ depth g₁ g₂, g.Consulted g₁ → g.Consulted g₂ →
        ((type depth s).run g₁).1 = ((type depth t).run g₂).1) ∧
    ∀ a b : MethodSig TypeDefOrRef, CompareOptions.HasRefs g a.toPointer →
      CompareOptions.HasRefs g b.toPointer →
      ∀ g₀, g.Consulted g₀ → ((o.equalMethodSigs a b).run g₀).1 = true →
      ∀ depth g₁ g₂, g.Consulted g₁ → g.Consulted g₂ →
        ((method depth a).run g₁).1 = ((method depth b).run g₂).1 := by
  constructor
  · intro s t hs ht g₀ h₀ hequal depth g₁ g₂ h₁ h₂
    have hagree := (((decides_comparison hg recursionBound).2 s t hs ht).value h₀).2.mp hequal
    exact (Alike.matching hm hv).mentions_eq hg hg (.type hagree) hs ht depth h₁ h₂
  · intro a b ha hb g₀ h₀ hequal depth g₁ g₂ h₁ h₂
    have hagree := ((decides_equalMethodSigs hg ha hb).value h₀).2.mp hequal
    have hsearch := (Alike.matching hm hv).mentions_eq hg hg (.method hagree) ha hb depth h₁ h₂
    simpa only [mentions, signature] using hsearch

/-! ## Two instantiations of the same type -/

/-- A store of two specifications of one signature, an instantiation of a third
specification, which is of arrays of itself. -/
def twoInstances : Store :=
  let head (rid : Nat) : RowHead := ⟨rid, Token.ofParts .typeSpec rid⟩
  let third : TypeSig Token := .named .classType (Token.ofParts .typeSpec 3)
  { Store.empty with
    modules := [⟨⟨1, Token.ofParts .module 1⟩, 0, 0, 0⟩]
    typeSpecs := [⟨head 1, 1⟩, ⟨head 2, 1⟩, ⟨head 3, 2⟩]
    blobs := [.typeSig (.inst third [.param .type 0]), .typeSig (.wrap .szArray third)] }

/-- The comparison does not enter the third specification, while the search runs round in it
as long as the budget lasts: on both sides. -/
theorem mentions_twoInstances :
    let g := twoInstances.loaded .perEntityLock
    let s : Sig := .named .classType (.typeSpec ⟨.row 0 1⟩)
    let t : Sig := .named .classType (.typeSpec ⟨.row 0 2⟩)
    let a : MethodSig TypeDefOrRef := ⟨{ (default : MethodHead) with vararg := true }, s, [], [t]⟩
    let b : MethodSig TypeDefOrRef := ⟨{ a.head with convention := .cdecl }, t, [], [s]⟩
    let o : CompareOptions := { varargs := true }
    o.ignoreModifiers = false ∧ o.varargs = true ∧ g.Intact ∧
      CompareOptions.HasRefs g s ∧ CompareOptions.HasRefs g t ∧
      CompareOptions.HasRefs g a.toPointer ∧ CompareOptions.HasRefs g b.toPointer ∧
      ((o.equalSigs s t).run g).1 = true ∧ ((o.equalMethodSigs a b).run g).1 = true ∧
      ∀ depth, ((type depth s).run g).1 = ((type depth t).run g).1 ∧
        ((method depth a).run g).1 = ((method depth b).run g).1 := by
  intro g s t a b o
  have hg : g.Intact := Store.loaded_intact rfl
  have hs : CompareOptions.HasRefs g s := by decide +kernel
  have ht : CompareOptions.HasRefs g t := by decide +kernel
  have ha : CompareOptions.HasRefs g a.toPointer := by decide +kernel
  have hb : CompareOptions.HasRefs g b.toPointer := by decide +kernel
  have hequal : ((o.equalSigs s t).run g).1 = true := by decide +kernel
  have hmethods : ((o.equalMethodSigs a b).run g).1 = true := by decide +kernel
  obtain ⟨sigs, methods⟩ := mentions_of_equal (o := o) rfl rfl hg
  refine ⟨rfl, rfl, hg, hs, ht, ha, hb, hequal, hmethods, fun depth => ⟨?_, ?_⟩⟩
  · exact sigs s t hs ht g (.refl g) hequal depth g g (.refl g) (.refl g)
  · exact methods a b ha hb g (.refl g) hmethods depth g g (.refl g) (.refl g)

end CliMetadata.Containment
