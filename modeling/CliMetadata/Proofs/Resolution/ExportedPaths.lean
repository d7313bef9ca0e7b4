import CliMetadata.Graph.InMemory
import CliMetadata.Proofs.Graph.Lasting
import CliMetadata.Proofs.Resolution.NestingChains

/-!
# The exported type that answers a reference

To find an exported type is to compare the paths of all of them with that of a reference,
and to take the first that is equal.  The assembly that defines the type is then looked for
on a second walk, along the same enclosing types but with a bound of its own.

A path is given only for a chain that ends, and **the second walk comes to the end of every
chain that has a path** (`ExportedTypeId.Enclosed.definition_run`).  So what becomes of a
type that has been found depends on its outermost enclosing type alone
(`ModuleId.findExported_first`).  This is so in whatever has been read since, and for chains
that other exported types make endless.
-/

namespace CliMetadata

open CliMetadata.Graph Loading Stateful

/-! ## Climbs that have been read -/

/-- A walk that comes to an end has climbed to it in fewer steps than its bound, and each of
them is answered from then on. -/
theorem Chain.ancestors_climbs {R : Graph → Graph → Prop} [IsPreorder Graph R] {α : Type}
    {up : α → GraphM (Option α)} {g' : Graph} (h : ∀ x, Repeats R (up x)) :
    ∀ {bound : Nat} {start : Option α} {xs : List α} {g : Graph},
      ((Chain.ancestors up bound start).run g).1 = (xs, true) →
      R ((Chain.ancestors up bound start).run g).2 g' →
      Climbs (fun x => ((up x).run g').1) start xs ∧ xs.length < bound ∧
        ∀ x ∈ xs, ((up x).run g').2 = g'
  | 0, _, _, _, hended, _ => by cases congrArg Prod.snd hended
  | n + 1, none, _, _, hended, _ => by
    cases hended
    exact ⟨.ended, Nat.succ_pos n, by simp⟩
  | n + 1, some x, xs, g, hended, hlater => by
    rw [Chain.ancestors, run_bind, run_bind] at hended hlater
    obtain ⟨rfl, hrest⟩ := Prod.mk.inj hended
    obtain ⟨hclimbs, hlength, hread⟩ := ancestors_climbs h (Prod.ext rfl hrest) hlater
    have hkept := (Repeats.sequential.ancestors h n ((up x).run g).1).keeps ((up x).run g).2
    have hup := (h x).answered g g' (trans_of R hkept hlater)
    refine ⟨.step ?_, Nat.succ_lt_succ hlength, ?_⟩
    · show Climbs _ ((up x).run g').1 _
      rw [hup]
      exact hclimbs
    · intro y hy
      rcases List.mem_cons.mp hy with rfl | hy
      · rw [hup]
      · exact hread y hy

namespace ExportedTypeId

open Chain

variable {g g' : Graph} {e o : ExportedTypeId} {es : List ExportedTypeId} {r : TypeRefId}
  {path : TypePath}

/-- The exported type that encloses an exported type, as a graph reads it. -/
def enclosing (g : Graph) (e : ExportedTypeId) : Option ExportedTypeId := (e.declaringType.run g).1

/-- The enclosing exported type that an implementation is. -/
def enclosing? : Option Implementation → Option ExportedTypeId
  | some (.exportedType enclosing) => some enclosing
  | _ => none

theorem declaringType_eq (g : Graph) (x : ExportedTypeId) :
    x.declaringType.run g = (enclosing? (x.implementation.run g).1, (x.implementation.run g).2) := by
  rw [declaringType, run_bind]
  split
  · next h => rw [h]; rfl
  · next h =>
    unfold enclosing?
    split
    · next henclosing => exact absurd henclosing (h _)
    · rfl

/-- An exported type with those that enclose it, all of them read. -/
structure Enclosed (g : Graph) (e : ExportedTypeId) (es : List ExportedTypeId) : Prop where
  climbs : Climbs (enclosing g) (some e) es
  bounded : es.length ≤ recursionBound
  read : ∀ x ∈ es, (x.declaringType.run g).2 = g

/-- What has a path is enclosed in types that end. -/
theorem enclosed_of_path (h : (e.path?.run g).1 = some path) (hlater : (e.path?.run g).2.Lasting g') :
    ∃ es, Enclosed g' e es := by
  have hended : ((Chain.ancestors declaringType recursionBound (e.declaringType.run g).1).run
      (e.declaringType.run g).2).1.2 = true := by
    by_contra hendless
    rw [path?, run_bind, run_bind, run_get_bind, if_neg hendless] at h
    cases h
  obtain ⟨hclimbs, hlength, hread⟩ :=
    ancestors_climbs declaringType_repeats (Prod.ext rfl hended) hlater
  have hkept := (Repeats.sequential.ancestors declaringType_repeats recursionBound
    (e.declaringType.run g).1).keeps (e.declaringType.run g).2
  have hup := e.declaringType_repeats.answered g g' (trans_of Lasting hkept hlater)
  refine ⟨e :: _, .step ?_, hlength, ?_⟩
  · show Climbs _ (e.declaringType.run g').1 _
    rw [hup]
    exact hclimbs
  · intro x hx
    rcases List.mem_cons.mp hx with rfl | hx
    · rw [hup]
    · exact hread x hx

/-- What has a path has the full name that spells it. -/
theorem fullName_of_path (h : (e.path?.run g).1 = some path) :
    (e.fullName.run g).1 = path.spelled := by
  rw [path?, run_bind, run_bind, run_get_bind] at h
  rw [fullName, run_bind, run_bind, run_get_bind]
  split at h
  · obtain rfl := Option.some.inj h
    unfold TypePath.spelled
    rw [List.map_reverse, List.map_map]
    rfl
  · cases h

/-! ## Following an exported type to its assembly -/

/-- Follows the implementation of an exported type for another one that it encloses. -/
def definitionVia (e x : ExportedTypeId) (bound : Nat) : GraphM (Option DefinitionAssembly) := do
  match ← implementation x with
  | none => return none
  | some i => definitionFrom e bound i

/-- **The walk to the assembly comes to the end of a chain** that is within its bound. -/
theorem definitionVia_climb : ∀ {x : ExportedTypeId} {es : List ExportedTypeId} {bound : Nat},
    Climbs (enclosing g) (some x) es → es.length ≤ bound →
    (∀ y ∈ es, (y.declaringType.run g).2 = g) → es.getLast? = some o →
    (definitionVia e x bound).run g = (definitionVia e o 1).run g
  | x, _ :: es, 0, .step _, hbound, _, _ => absurd hbound (Nat.not_succ_le_zero _)
  | x, _ :: es, n + 1, .step above, hbound, hread, hlast => by
    have hx := declaringType_eq g x
    have hstate : (x.implementation.run g).2 = g :=
      (congrArg Prod.snd hx).symm.trans (hread x List.mem_cons_self)
    rw [show enclosing g x = _ from congrArg Prod.fst hx] at above
    cases es with
    | nil =>
      obtain rfl : x = o := Option.some.inj hlast
      rw [definitionVia, definitionVia, run_bind, run_bind]
      cases hi : (x.implementation.run g).1 with
      | none => rfl
      | some i =>
        cases i with
        | file _ => rfl
        | assemblyRef _ => rfl
        | exportedType y =>
          rw [hi] at above
          cases above
    | cons y ys =>
      obtain ⟨hi, hy⟩ : (x.implementation.run g).1 = some (.exportedType y) ∧
          Climbs (enclosing g) (some y) (y :: ys) := by
        cases hi : (x.implementation.run g).1 with
        | none =>
          rw [hi] at above
          cases above
        | some i =>
          rw [hi] at above
          cases i with
          | file _ => cases above
          | assemblyRef _ => cases above
          | exportedType z =>
            cases above with
            | step above => exact ⟨rfl, .step above⟩
      rw [List.getLast?_cons_cons] at hlast
      have hrest := definitionVia_climb hy (Nat.le_of_succ_le_succ hbound)
        (fun z hz => hread z (List.mem_cons_of_mem _ hz)) hlast
      rw [← hrest, definitionVia, run_bind, hi, hstate]
      rfl

namespace Enclosed

/-- **An exported type is followed to its outermost enclosing type.** -/
theorem definition_run (h : Enclosed g e es) (ho : es.getLast? = some o) :
    e.definitionAssembly.run g = (definitionVia e o 1).run g :=
  definitionVia_climb h.climbs h.bounded h.read ho

/-- So nothing but that type, and the module in the case of a file, can be the reason why no
assembly defines it. -/
theorem undefined_iff (h : Enclosed g e es) (ho : es.getLast? = some o) :
    (e.definitionAssembly.run g).1 = none ↔
      (o.implementation.run g).1 = none ∨
        ∃ f, (o.implementation.run g).1 = some (.file f) ∧
          ∀ m, (e.module.run g).1 = some m → (m.assembly.run g).1 = none := by
  have htop : enclosing g o = none := h.climbs.last_top o ho
  have hread := h.read o (List.mem_of_getLast? ho)
  rw [enclosing, declaringType_eq] at htop
  rw [declaringType_eq] at hread
  rw [h.definition_run ho, definitionVia, run_bind, show (o.implementation.run g).2 = g from hread]
  cases hi : (o.implementation.run g).1 with
  | none => exact iff_of_true rfl (.inl rfl)
  | some i =>
    cases i with
    | exportedType y =>
      rw [hi] at htop
      cases htop
    | assemblyRef a => exact iff_of_false nofun (by simp)
    | file f =>
      have hmodule : e.module.run g = ((e.module.run g).1, g) := rfl
      dsimp only
      rw [definitionFrom, run_bind, hmodule]
      cases hm : (e.module.run g).1 with
      | none => exact iff_of_true rfl (.inr ⟨f, rfl, nofun⟩)
      | some m =>
        show (m.assembly.run g).1.map _ = none ↔ _
        simp

end Enclosed

/-! ## Answering a reference -/

/-- An exported type answers a reference where both have one path. -/
theorem answers_run (h : Answered Lasting g (e.answers r) true) :
    ∃ path, r.path?.run g = (some path, g) ∧ e.path?.run g = (some path, g) := by
  have hrun := h.run
  rw [answers, run_bind] at hrun
  cases hr : (r.path?.run g).1 with
  | none =>
    rw [hr] at hrun
    cases congrArg Prod.fst hrun
  | some expected =>
    rw [hr] at hrun
    dsimp only at hrun
    rw [run_bind, run_pure] at hrun
    have hpath : (e.path?.run (r.path?.run g).2).1 = some expected := by
      simpa using congrArg Prod.fst hrun
    have hstate : (e.path?.run (r.path?.run g).2).2 = g := congrArg Prod.snd hrun
    -- the walk ends where it began, and so both paths are held there
    have hafter : (e.path?.run (r.path?.run g).2).2.Lasting g := by
      rw [hstate]
      exact refl_of Lasting g
    have hread := r.path?_repeats.answered g g
      (trans_of Lasting (e.path?_repeats.keeps (r.path?.run g).2) hafter)
    have hagain := e.path?_repeats.answered (r.path?.run g).2 g hafter
    rw [hr] at hread
    rw [hpath] at hagain
    exact ⟨expected, hread, hagain⟩

/-- One that does not answer a reference that has a path has another. -/
theorem path?_ne_of_answers (h : Answered Lasting g (e.answers r) false)
    (hr : r.path?.run g = (some path, g)) : (e.path?.run g).1 ≠ some path := by
  intro hpath
  have hrun := h.run
  rw [answers, run_bind, hr] at hrun
  dsimp only at hrun
  rw [run_bind, hpath] at hrun
  simpa using congrArg Prod.fst hrun

end ExportedTypeId

namespace ModuleId

open Chain ExportedTypeId

variable {g g' : Graph} {m : ModuleId} {e : ExportedTypeId} {r : TypeRefId}

/-- The first answer is the first entry that answers, and those before it do not. -/
theorem firstAnswer_split : ∀ {es : List ExportedTypeId} {g : Graph},
    ((firstAnswer r es).run g).1 = some e → ((firstAnswer r es).run g).2.Lasting g' →
    ∃ before after, es = before ++ e :: after ∧ Answered Lasting g' (e.answers r) true ∧
      ∀ x ∈ before, Answered Lasting g' (x.answers r) false
  | [], _, h, _ => by cases h
  | x :: es, g, h, hlater => by
    have hx := (x.answers_repeats r).answered g
    rw [firstAnswer, run_bind] at h hlater
    cases hanswer : ((x.answers r).run g).1 with
    | true =>
      rw [hanswer] at h hlater hx
      cases h
      exact ⟨[], es, rfl, hx.later hlater, by simp⟩
    | false =>
      rw [hanswer] at h hlater hx
      obtain ⟨before, after, rfl, he, hbefore⟩ := firstAnswer_split h hlater
      refine ⟨x :: before, after, rfl, he, fun y hy => ?_⟩
      rcases List.mem_cons.mp hy with rfl | hy
      · exact hx.later (trans_of Lasting ((firstAnswer_repeats r _).keeps _) hlater)
      · exact hbefore y hy

/-- **The exported type that is found is the first that has the path of the reference, and it
is followed to the end.**  It has the full name of the reference too, the types that enclose it
end within the bound, and no assembly defines it only where the outermost of them is kept
nowhere, or in a file while the module of the type is gone or in no assembly.  All of this holds
in every graph `g'` that keeps what the search has read. -/
theorem findExported_first (h : ((m.findExported r).run g).1 = some e)
    (hlater : ((m.findExported r).run g).2.Lasting g') :
    (∃ before after, (m.exportedTypes.run g').1 = before ++ e :: after ∧
      (r.path?.run g').1.isSome ∧ (e.path?.run g').1 = (r.path?.run g').1 ∧
      ∀ x ∈ before, (x.path?.run g').1 ≠ (r.path?.run g').1) ∧
    (e.fullName.run g').1 = (r.fullName.run g').1 ∧
    ∃ es outermost, Climbs (enclosing g') (some e) es ∧ es.length ≤ recursionBound ∧
      es.getLast? = some outermost ∧
      ((e.definitionAssembly.run g').1 = none ↔
        (outermost.implementation.run g').1 = none ∨
          ∃ f, (outermost.implementation.run g').1 = some (.file f) ∧
            ∀ m', (e.module.run g').1 = some m' → (m'.assembly.run g').1 = none) := by
  have hlist : m.exportedTypes.run g' = ((m.exportedTypes.run g).1, g') :=
    m.exportedTypes_repeats.answered g g'
      (trans_of Lasting ((firstAnswer_repeats r _).keeps _) hlater)
  obtain ⟨before, after, hsplit, he, hbefore⟩ := firstAnswer_split h hlater
  obtain ⟨path, hr, hpath⟩ := answers_run he
  have hname : (r.fullName.run g').1 = path.spelled := r.fullName_of_path (congrArg Prod.fst hr)
  have hkept : (e.path?.run g').2.Lasting g' := by
    rw [hpath]
    exact refl_of Lasting g'
  obtain ⟨es, hes⟩ := enclosed_of_path (congrArg Prod.fst hpath) hkept
  obtain ⟨xs, rfl⟩ : ∃ xs, es = e :: xs := by
    cases hes.climbs with
    | step _ => exact ⟨_, rfl⟩
  have hlast := List.getLast?_eq_some_getLast (List.cons_ne_nil e xs)
  rw [hlist, hr, hpath, hname, fullName_of_path (congrArg Prod.fst hpath)]
  exact ⟨⟨before, after, hsplit, rfl, rfl, fun x hx => path?_ne_of_answers (hbefore x hx) hr⟩, rfl,
    _, _, hes.climbs, hes.bounded, hlast, hes.undefined_iff hlast⟩

/-- A module that exports a type and one nested in it, after a type that encloses itself. -/
def nestedExports : Graph :=
  ((do
    let m : ModuleId ← make .module ⟨0, .inMemory, .empty, Guid.zero, none, some [], some []⟩
    let lib ← makeAssemblyRef ⟨"Lib", ⟨1, 0, 0, 0⟩, none, none⟩ 0
    let endless ← makeExportedType m .empty .empty 0 (some (.exportedType ⟨.built 2⟩))
    let outer ← makeExportedType m .empty .empty 0 (some (.assemblyRef lib))
    let inner ← makeExportedType m .empty .empty 0 (some (.exportedType outer))
    modify (m.exportedTypesSlot.publish [endless, outer, inner])
    let enclosing ← makeTypeRef m .empty .empty (some (.module m))
    let _ ← makeTypeRef m .empty .empty (some (.typeRef enclosing))
    return ()
    : GraphM Unit).run Graph.empty).2

/-- The reference to the nested type is answered by it, and they have one full name. -/
theorem findExported_nested :
    let m : ModuleId := ⟨.built 0⟩
    let r : TypeRefId := ⟨.built 6⟩
    let inner : ExportedTypeId := ⟨.built 4⟩
    ((m.findExported r).run nestedExports).1 = some inner ∧
      (inner.fullName.run ((m.findExported r).run nestedExports).2).1 =
        (r.fullName.run ((m.findExported r).run nestedExports).2).1 := by
  have h : ((findExported ⟨.built 0⟩ ⟨.built 6⟩).run nestedExports).1 = some ⟨.built 4⟩ := by
    decide +kernel
  exact ⟨h, (findExported_first h (refl_of Lasting _)).2.1⟩

end ModuleId
end CliMetadata
