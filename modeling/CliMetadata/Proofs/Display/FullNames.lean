import CliMetadata.Graph.Display
import CliMetadata.Proofs.Comparison.Columns
import CliMetadata.Proofs.Comparison.Equality
import Mathlib.Data.List.Chain
import Mathlib.Data.List.Perm.Subperm
import Mathlib.Logic.Relation

/-!
# Which full names are finite

A signature writes most of what it is made of by tokens or by the names of types, which end
by themselves.  The one way from a signature to another is a modifier that is a
specification: it is written by its full name, which is the text of the specification's
signature.  `TypeSig.quoted` lists these specifications and `Graph.Quotes` is the step from
one to the next.

**A text is finite exactly where the steps from it never go round in a cycle**
(`TypeSig.display_finite_iff`): `Graph.Circular` says that they do.  The bound on the
specifications that a full name follows is no limit of its own.  It counts all of those that
have a signature (`Graph.mem_specsOf`, `Graph.length_lt_countBound`), and steps without a cycle
come by each of them once at most (`Graph.nodup_of_chain`).

Names and texts do not depend on what has been consulted before; `TypeSig.textOf` is what a
signature is written as, given the names of specifications.
-/

open Relation (ReflTransGen TransGen)

namespace CliMetadata

open CliMetadata.Graph Loading Stateful

/-! ## What a signature is written as -/

/-- The specification that a reference is. -/
def TypeDefOrRef.spec? : TypeDefOrRef → Option TypeSpecId
  | .typeSpec s => some s
  | _ => none

namespace TypeSig

mutual

/-- The specifications that a signature writes by name: those that are its modifiers, and the
modifiers of what is written inside it. -/
def quoted : Sig → List TypeSpecId
  | leaf _ | named _ _ | param _ _ | fnPtr _ _ _ _ => []
  | wrap _ next => quoted next
  | modified _ modifier base => modifier.spec?.toList ++ quoted base
  | inst generic args => quoted generic ++ quotedAll args

/-- Those of several signatures. -/
def quotedAll : List Sig → List TypeSpecId
  | [] => []
  | t :: ts => quoted t ++ quotedAll ts

end

/-- The full name of a reference, given those of specifications. -/
def nameOf (g : Graph) (specName : TypeSpecId → Option String) : TypeDefOrRef → Option String
  | .typeDef t => some (t.fullName.run g).1
  | .typeRef r => some (r.fullName.run g).1
  | .typeSpec s => specName s

mutual

/-- The text of a signature, given the names of specifications. -/
def textOf (g : Graph) (specName : TypeSpecId → Option String) : Sig → Option String
  | leaf l => some l.display
  | named _ (.typeSpec s) => some (g.token s.node).display
  | named _ type => nameOf g specName type
  | param scope index => some (scope.display index)
  | wrap w next => (textOf g specName next).map (· ++ w.display)
  | modified kind modifier base => do
    return (← textOf g specName base) ++ " " ++ kind.word ++ "(" ++ (← nameOf g specName modifier) ++ ")"
  | inst generic args => do
    return (← textOf g specName generic) ++ "<" ++ ",".intercalate (← textsOf g specName args) ++ ">"
  | fnPtr _ _ _ _ => some "method*"

/-- The texts of several signatures. -/
def textsOf (g : Graph) (specName : TypeSpecId → Option String) : List Sig → Option (List String)
  | [] => some []
  | t :: ts => do return (← textOf g specName t) :: (← textsOf g specName ts)

end

section Text

variable {g : Graph} {specName other : TypeSpecId → Option String}

theorem isSome_nameOf (r : TypeDefOrRef) :
    (nameOf g specName r).isSome ↔ ∀ s ∈ r.spec?.toList, (specName s).isSome := by
  cases r <;> simp [nameOf, TypeDefOrRef.spec?]

theorem nameOf_congr {r : TypeDefOrRef} (h : ∀ s ∈ r.spec?.toList, specName s = other s) :
    nameOf g specName r = nameOf g other r := by
  cases r with
  | typeSpec s => exact h s (List.mem_singleton.mpr rfl)
  | _ => rfl

mutual

/-- **A text is finite where the names in it are.** -/
theorem isSome_textOf : ∀ t : Sig,
    (textOf g specName t).isSome ↔ ∀ s ∈ t.quoted, (specName s).isSome
  | leaf _ | param _ _ | fnPtr _ _ _ _ => by simp [textOf, quoted]
  | named _ r => by cases r <;> simp [textOf, quoted, nameOf]
  | wrap _ next => by
    rw [textOf, quoted, Option.isSome_map, isSome_textOf next]
  | modified _ modifier base => by
    rw [quoted, List.forall_mem_append, ← isSome_textOf base, ← isSome_nameOf (g := g) modifier]
    cases hb : textOf g specName base <;> cases hm : nameOf g specName modifier <;>
      simp [textOf, hb, hm]
  | inst generic args => by
    rw [quoted, List.forall_mem_append, ← isSome_textOf generic, ← isSome_textsOf args]
    cases hg : textOf g specName generic <;> cases ha : textsOf g specName args <;>
      simp [textOf, hg, ha]

/-- So are several. -/
theorem isSome_textsOf : ∀ ts : List Sig,
    (textsOf g specName ts).isSome ↔ ∀ s ∈ quotedAll ts, (specName s).isSome
  | [] => by simp [textsOf, quotedAll]
  | t :: ts => by
    rw [quotedAll, List.forall_mem_append, ← isSome_textOf t, ← isSome_textsOf ts]
    cases ht : textOf g specName t <;> cases hs : textsOf g specName ts <;> simp [textsOf, ht, hs]

end

mutual

/-- A text depends only on the names that are written in it. -/
theorem textOf_congr : ∀ t : Sig, (∀ s ∈ t.quoted, specName s = other s) →
    textOf g specName t = textOf g other t
  | leaf _, _ | param _ _, _ | fnPtr _ _ _ _, _ => by simp [textOf]
  | named _ r, _ => by cases r <;> rfl
  | wrap _ next, h => by
    rw [textOf, textOf, textOf_congr next h]
  | modified _ modifier base, h => by
    obtain ⟨hmodifier, hbase⟩ := List.forall_mem_append.mp h
    rw [textOf, textOf, textOf_congr base hbase, nameOf_congr hmodifier]
  | inst generic args, h => by
    obtain ⟨hgeneric, hargs⟩ := List.forall_mem_append.mp h
    rw [textOf, textOf, textOf_congr generic hgeneric, textsOf_congr args hargs]

/-- So do several. -/
theorem textsOf_congr : ∀ ts : List Sig, (∀ s ∈ quotedAll ts, specName s = other s) →
    textsOf g specName ts = textsOf g other ts
  | [], _ => rfl
  | t :: ts, h => by
    obtain ⟨ht, hts⟩ := List.forall_mem_append.mp h
    rw [textsOf, textsOf, textOf_congr t ht, textsOf_congr ts hts]

end

end Text

end TypeSig

/-! ## Writing reads alike -/

namespace Graph.Intact

variable {g : Graph} (hg : g.Intact)

include hg

theorem settles_typeDefName (t : TypeDefId) : Settles g.Consulted t.fullName fun _ => True := by
  refine (hg.settles_declaringType t).bind fun _ _ => ?_
  refine (settles_ancestors (fun x _ => hg.settles_declaringType x) _ _ (by simp)).bind fun a _ => ?_
  refine .reads (a := TypePath.spelled ((t :: a.1).map (TypeDefId.level g)).reverse)
    (fun g' h => ?_) trivial
  rw [← show TypeDefId.level g' = TypeDefId.level g from funext h.typeDef_level]
  simp only [TypePath.spelled, List.map_reverse, List.map_map]
  rfl

theorem settles_typeRefName {r : TypeRefId} (hr : g.present r.node) :
    Settles g.Consulted r.fullName fun _ => True := by
  refine (hg.settles_enclosing hr).bind fun y hy => ?_
  refine (settles_ancestors (fun _ => hg.settles_enclosing) _ _ hy).bind fun a _ => ?_
  refine .reads (a := TypePath.spelled ((r :: a.1).map (TypeRefId.level g)).reverse)
    (fun g' h => ?_) trivial
  rw [← show TypeRefId.level g' = TypeRefId.level g from funext h.typeRef_level]
  simp only [TypePath.spelled, List.map_reverse, List.map_map]
  rfl

omit hg

variable {specName : TypeSpecId → GraphM (Option String)} {names : TypeSpecId → Option String}

theorem yields_nameOf (hg : g.Intact)
    (hnames : ∀ s : TypeSpecId, g.present s.node → Yields g.Consulted (specName s) (names s))
    {r : TypeDefOrRef} (hr : g.present r.node) :
    Yields g.Consulted (TypeSig.refName specName r) (TypeSig.nameOf g names r) := by
  cases r with
  | typeDef t => exact ((hg.settles_typeDefName t).value (.refl g)).1.map some
  | typeRef r => exact ((hg.settles_typeRefName hr).value (.refl g)).1.map some
  | typeSpec s => exact hnames s hr

mutual

/-- **A signature over what is there is written alike**, whatever has been consulted before. -/
theorem yields_textOf (hg : g.Intact)
    (hnames : ∀ s : TypeSpecId, g.present s.node → Yields g.Consulted (specName s) (names s)) :
    ∀ t : Sig, (∀ r ∈ t.refs, g.present r.node) →
    Yields g.Consulted (TypeSig.displayWith specName t) (TypeSig.textOf g names t)
  | .leaf _, _ | .param _ _, _ | .fnPtr _ _ _ _, _ => by
    simp only [TypeSig.displayWith, TypeSig.textOf]
    exact .pure _
  | .named _ r, h => by
    have hr : g.present r.node := h r (List.mem_singleton.mpr rfl)
    cases r with
    | typeSpec s =>
      intro g' hc
      rw [TypeSig.displayWith, run_get_bind, hc.token (by rintro ⟨⟩)]
      exact ⟨rfl, hc⟩
    | typeDef t => exact yields_nameOf hg hnames (r := .typeDef t) hr
    | typeRef r => exact yields_nameOf hg hnames (r := .typeRef r) hr
  | .wrap _ next, h => by
    rw [TypeSig.displayWith, TypeSig.textOf]
    exact (yields_textOf hg hnames next h).bind (.pure _)
  | .modified _ modifier base, h => by
    obtain ⟨hmodifier, hbase⟩ := List.forall_mem_cons.mp h
    rw [TypeSig.displayWith, TypeSig.textOf]
    exact (yields_nameOf hg hnames hmodifier).bind
      ((yields_textOf hg hnames base hbase).bind (.pure _))
  | .inst generic args, h => by
    obtain ⟨hgeneric, hargs⟩ := List.forall_mem_append.mp h
    rw [TypeSig.displayWith, TypeSig.textOf]
    exact (yields_textOf hg hnames generic hgeneric).bind
      ((yields_textsOf hg hnames args hargs).bind (.pure _))

/-- So are several. -/
theorem yields_textsOf (hg : g.Intact)
    (hnames : ∀ s : TypeSpecId, g.present s.node → Yields g.Consulted (specName s) (names s)) :
    ∀ ts : List Sig, (∀ r ∈ TypeSig.refsAll ts, g.present r.node) →
    Yields g.Consulted (TypeSig.displayAllWith specName ts) (TypeSig.textsOf g names ts)
  | [], _ => .pure _
  | t :: ts, h => by
    obtain ⟨ht, hts⟩ := List.forall_mem_append.mp h
    rw [TypeSig.displayAllWith, TypeSig.textsOf]
    exact (yields_textOf hg hnames t ht).bind ((yields_textsOf hg hnames ts hts).bind (.pure _))

end

end Graph.Intact

/-! ## From one specification to the next -/

namespace Graph

variable {g g' : Graph} {s s' : TypeSpecId}

/-- What the signature of a specification reads as. -/
abbrev specSig (g : Graph) (s : TypeSpecId) : Option Sig := TypeSpecId.lazySig.value g s

/-- **The signature of one specification writes another by name.** -/
def Quotes (g : Graph) (s s' : TypeSpecId) : Prop := ∃ t, g.specSig s = some t ∧ s' ∈ t.quoted

/-- **Names of specifications go round in a cycle**: the names that are written for one lead to
a specification that is written in its own name. -/
def Circular (g : Graph) (s : TypeSpecId) : Prop :=
  ∃ c, ReflTransGen g.Quotes s c ∧ TransGen g.Quotes c c

theorem Circular.next (h : g.Circular s) : ∃ s', g.Quotes s s' ∧ g.Circular s' := by
  obtain ⟨c, hreach, hcycle⟩ := h
  rcases ReflTransGen.cases_head hreach with rfl | ⟨s', hs', hreach⟩
  · obtain ⟨s', hs', hback⟩ := TransGen.head'_iff.mp hcycle
    exact ⟨s', hs', s, hback, hcycle⟩
  · exact ⟨s', hs', c, hreach, hcycle⟩

/-- The name of a specification, within a number of specifications. -/
def specText (g : Graph) : Nat → TypeSpecId → Option String
  | 0, _ => none
  | n + 1, s =>
    match g.specSig s with
    | none => some ""
    | some t => TypeSig.textOf g (g.specText n) t

theorem isSome_specText {n : Nat} :
    (g.specText (n + 1) s).isSome ↔ ∀ s', g.Quotes s s' → (g.specText n s').isSome := by
  unfold Quotes
  rw [specText]
  cases g.specSig s with
  | none => simp
  | some t => simpa using TypeSig.isSome_textOf t

/-- A name that is finite within a number of specifications is the same within a greater one. -/
theorem specText_mono {n m : Nat} (hnm : n ≤ m) (h : (g.specText n s).isSome) :
    g.specText m s = g.specText n s := by
  induction n generalizing m s with
  | zero => cases h
  | succ n ih =>
    obtain ⟨m, rfl⟩ : ∃ k, m = k + 1 := ⟨m - 1, by omega⟩
    have hquoted := isSome_specText.mp h
    rw [specText, specText]
    cases ht : g.specSig s with
    | none => rfl
    | some t =>
      exact TypeSig.textOf_congr t fun s' hs' =>
        ih (Nat.le_of_succ_le_succ hnm) (hquoted s' ⟨t, ht, hs'⟩)

/-- A name that is finite within two numbers is the same within both. -/
theorem specText_unique {n m : Nat} (hn : (g.specText n s).isSome) (hm : (g.specText m s).isSome) :
    g.specText n s = g.specText m s := by
  rcases Nat.le_total n m with h | h
  · exact (specText_mono h hn).symm
  · exact specText_mono h hm

/-- Whether a name is finite depends on the steps alone. -/
theorem isSome_specText_congr (h : g'.Quotes = g.Quotes) : ∀ {n : Nat} {s : TypeSpecId},
    (g'.specText n s).isSome ↔ (g.specText n s).isSome
  | 0, _ => Iff.rfl
  | n + 1, s => by
    rw [isSome_specText, isSome_specText, h]
    exact forall_congr' fun s' => imp_congr_right fun _ => isSome_specText_congr h

/-- A cycle has no finite name. -/
theorem Circular.specText_none : ∀ {n : Nat} {s : TypeSpecId}, g.Circular s → g.specText n s = none
  | 0, _, _ => rfl
  | n + 1, s, h => by
    obtain ⟨s', hs', hnext⟩ := h.next
    rw [← Option.not_isSome_iff_eq_none, isSome_specText]
    intro hall
    have hsome := hall s' hs'
    rw [hnext.specText_none] at hsome
    cases hsome

/-- What is not finite within a number of specifications passes through as many of them. -/
theorem chain_of_none : ∀ {n : Nat} {s : TypeSpecId}, g.specText n s = none →
    ∃ xs : List TypeSpecId, xs.length = n ∧ xs.IsChain g.Quotes ∧ (∀ x ∈ xs.head?, x = s) ∧
      ∀ x ∈ xs, (g.specSig x).isSome
  | 0, _, _ => ⟨[], rfl, .nil, by simp, by simp⟩
  | n + 1, s, h => by
    obtain ⟨s', hs', hnone⟩ : ∃ s', g.Quotes s s' ∧ g.specText n s' = none := by
      rw [← Option.not_isSome_iff_eq_none, isSome_specText] at h
      simpa using h
    obtain ⟨xs, hlength, hchain, hhead, hsigs⟩ := chain_of_none hnone
    refine ⟨s :: xs, congrArg Nat.succ hlength, hchain.cons fun x hx => ?_, by simp, ?_⟩
    · rw [hhead x hx]
      exact hs'
    · obtain ⟨t, ht, -⟩ := hs'
      exact List.forall_mem_cons.mpr ⟨by rw [ht]; rfl, hsigs⟩

/-- Specifications that names lead to without a cycle come once each. -/
theorem nodup_of_chain {xs : List TypeSpecId} (h : ¬g.Circular s) (hchain : xs.IsChain g.Quotes)
    (hhead : ∀ x ∈ xs.head?, x = s) : xs.Nodup := by
  have hpairs : xs.Pairwise (TransGen g.Quotes) :=
    (hchain.imp fun _ _ => TransGen.single).pairwise
  have hreach : ∀ x ∈ xs, ReflTransGen g.Quotes s x := by
    cases xs with
    | nil => simp
    | cons y ys =>
      obtain rfl := hhead y rfl
      intro x hx
      rcases List.mem_cons.mp hx with rfl | hx
      · exact .refl
      · exact (List.rel_of_pairwise_cons hpairs hx).to_reflTransGen
  refine hpairs.imp_of_mem fun {x y} hx _ hxy => ?_
  rintro rfl
  exact h ⟨x, hreach x hx, hxy⟩

/-! ## How many specifications there are -/

/-- The specifications that an entry accounts for: itself, or the rows of the store that a
module is read from. -/
def specsOf (entry : Node × Entity) : List TypeSpecId :=
  match entry.2 with
  | .typeSpec _ => [⟨entry.1.key⟩]
  | .module m =>
    match entry.1.key with
    | .built l => (List.range ((m.loader.map fun l => l.store.typeSpecs.length).getD 0)).map
        fun i => ⟨.row l (i + 1)⟩
    | .row _ _ => []
  | _ => []

/-- The bound counts what entries account for. -/
theorem length_lt_countBound (g : Graph) :
    (g.entities.entries.flatMap specsOf).length < TypeSpecId.countBound g := by
  have counted : ∀ (entries : List (Node × Entity)) (n : Nat),
      n + (entries.flatMap specsOf).length ≤ entries.foldl (fun n entry =>
        match entry.2 with
        | .typeSpec _ => n + 1
        | .module m => n + ((m.loader.map fun l => l.store.typeSpecs.length).getD 0)
        | _ => n) n := by
    intro entries
    induction entries with
    | nil => exact fun n => Nat.le_refl n
    | cons entry entries ih =>
      intro n
      rw [List.flatMap_cons, List.length_append, ← Nat.add_assoc, List.foldl_cons]
      refine Nat.le_trans (Nat.add_le_add_right ?_ _) (ih _)
      obtain ⟨⟨kind, key⟩, e⟩ := entry
      cases e with
      | module m => cases key <;> simp [specsOf]
      | _ => simp [specsOf]
  have h := counted g.entities.entries 1
  rw [Nat.add_comm] at h
  exact h

/-- A specification of which nothing is there has no signature. -/
theorem specSig_blank (h : g.get s = Recorded.blank .typeSpec) : g.specSig s = none := by
  have hempty : TypeSpecId.lazySig.get (g.get s) = none := by rw [h]; rfl
  have horigin : g.origin s.node = .inMemory := by
    show ((Entity.typeSpec (g.get s)).origin?).getD .inMemory = .inMemory
    rw [h]
    rfl
  rw [specSig, TypeSpecId.lazySig.value_empty hempty, LazySlot.stored, horigin]
  rfl

/-- A specification with a signature is among those that entries account for. -/
theorem mem_specsOf (h : (g.specSig s).isSome) : s ∈ g.entities.entries.flatMap specsOf := by
  rw [List.mem_flatMap]
  have hblank : g.get s ≠ Recorded.blank .typeSpec := by
    intro hget
    rw [specSig_blank hget] at h
    cases h
  unfold get at hblank
  cases hmade : (g.entities.get? s.node).bind (Recorded.unpack? .typeSpec) with
  | some r =>
    -- an entry of its own
    obtain ⟨e, he, hr⟩ := Option.bind_eq_some_iff.mp hmade
    refine ⟨(s.node, e), g.entities.mem_entries.mpr he, ?_⟩
    cases e <;> cases hr
    exact List.mem_singleton.mpr rfl
  | none =>
    -- else it reads as a row of a store
    rw [hmade] at hblank
    obtain ⟨key⟩ := s
    cases key with
    | built _ => exact absurd rfl hblank
    | row l p =>
      cases hrow : (g.store? l).bind fun st => Recorded.ofRow? .typeSpec st l p with
      | none =>
        dsimp only at hblank
        rw [hrow] at hblank
        exact absurd rfl hblank
      | some r =>
        obtain ⟨st, hst, hr⟩ := Option.bind_eq_some_iff.mp hrow
        obtain ⟨row, hnth, -⟩ := Option.map_eq_some_iff.mp hr
        obtain ⟨ld, hld, rfl⟩ := Option.map_eq_some_iff.mp hst
        obtain ⟨m, hm, hloader⟩ : ∃ m, g.entities.get? ⟨.module, .built l⟩ = some (.module m) ∧
            m.loader = some ld := by
          unfold loader? at hld
          split at hld
          · next m hm => exact ⟨m, hm, hld⟩
          · cases hld
        refine ⟨(⟨.module, .built l⟩, .module m), g.entities.mem_entries.mpr hm, ?_⟩
        unfold Store.nth at hnth
        split at hnth
        · cases hnth
        · next hp =>
          have hlt := (List.getElem?_eq_some_iff.mp hnth).1
          simp only [specsOf, hloader, Option.map_some, Option.getD_some, List.mem_map,
            List.mem_range]
          exact ⟨p - 1, hlt, by rw [Nat.sub_add_cancel (Nat.pos_of_ne_zero hp)]⟩

/-- **Without a cycle, a name is finite within the bound.** -/
theorem isSome_specText_iff :
    (g.specText (TypeSpecId.countBound g) s).isSome ↔ ¬g.Circular s := by
  constructor
  · intro h hc
    rw [hc.specText_none] at h
    cases h
  · intro hc
    by_contra hnone
    obtain ⟨xs, hlength, hchain, hhead, hsigs⟩ :=
      chain_of_none (Option.not_isSome_iff_eq_none.mp hnone)
    have hsubset : xs ⊆ g.entities.entries.flatMap specsOf := fun x hx => mem_specsOf (hsigs x hx)
    have hle := (List.subperm_of_subset (nodup_of_chain hc hchain hhead) hsubset).length_le
    rw [hlength] at hle
    exact absurd g.length_lt_countBound (Nat.not_lt.mpr hle)

/-! ## Full names -/

section Names

variable (hg : g.Intact)

include hg

/-- The name of a specification within a number of them reads alike. -/
theorem yields_specText : ∀ (n : Nat) (s : TypeSpecId), g.present s.node →
    Yields g.Consulted (TypeSpecId.nameWithin n s) (g.specText n s)
  | 0, _, _ => .pure none
  | n + 1, s, hs => by
    have hread := LazySlot.yields (z := TypeSpecId.lazySig) (fun _ _ => rfl) hs
    have hrefs := TypeSpecId.lazySig.refs_value hg.spec s
    rw [TypeSpecId.nameWithin, specText]
    refine Yields.bind hread ?_
    cases ht : TypeSpecId.lazySig.value g s with
    | none =>
      rw [specSig, ht]
      exact .pure _
    | some t =>
      rw [ht] at hrefs
      rw [specSig, ht]
      exact Intact.yields_textOf hg (yields_specText n) t hrefs

/-- The name of a specification, as far as it goes; none where it has no end. -/
def specName (g : Graph) (s : TypeSpecId) : Option String :=
  g.specText (TypeSpecId.countBound g) s

omit hg in
theorem Consulted.quotes (h : g.Consulted g') : g'.Quotes = g.Quotes := by
  funext s s'
  have hsig : g'.specSig s = g.specSig s := h.value (z := TypeSpecId.lazySig) (fun _ _ => rfl) s
  rw [Quotes, Quotes, hsig]

omit hg in
/-- The bound of a consulted graph is as good as that of the graph. -/
theorem Consulted.specText_countBound (h : g.Consulted g') (s : TypeSpecId) :
    g.specText (TypeSpecId.countBound g') s = g.specName s := by
  by_cases hc : g.Circular s
  · rw [specName, hc.specText_none, hc.specText_none]
  · have hc' : ¬g'.Circular s := by rwa [Circular, h.quotes]
    have hsome := (isSome_specText_congr h.quotes).mp (isSome_specText_iff.mpr hc')
    exact specText_unique hsome (isSome_specText_iff.mpr hc)

/-- **So does its full name**, under whatever bound it is looked for. -/
theorem yields_specName {s : TypeSpecId} (hs : g.present s.node) :
    Yields g.Consulted s.fullName (g.specName s) := by
  intro g' h
  obtain ⟨hvalue, hstate⟩ := yields_specText hg (TypeSpecId.countBound g') s hs g' h
  rw [TypeSpecId.fullName, run_get_bind, ← h.specText_countBound s]
  exact ⟨hvalue, hstate⟩

end Names
end Graph

/-- **Texts and full names are finite exactly where names go round in no cycle.**  In an intact
graph, a signature has a text where none of the specifications that it writes by name is
circular; a type has a full name where it is no circular specification; and what is written
for a specification within any number of others is its full name, so a specification without
one has none however many are followed. -/
theorem TypeSig.display_finite_iff {g : Graph} (hg : g.Intact) :
    (∀ t : Sig, (∀ r ∈ t.refs, g.present r.node) →
      ((t.display.run g).1.isSome ↔ ∀ s ∈ t.quoted, ¬g.Circular s)) ∧
    (∀ r : TypeDefOrRef, g.present r.node →
      ((r.fullName.run g).1.isSome ↔ ∀ s ∈ r.spec?, ¬g.Circular s)) ∧
    ∀ s : TypeSpecId, g.present s.node →
      ((s.fullName.run g).1.isSome ↔ ¬g.Circular s) ∧
      ∀ n, ((TypeSpecId.nameWithin n s).run g).1.isSome →
        ((TypeSpecId.nameWithin n s).run g).1 = (s.fullName.run g).1 := by
  have hnames : ∀ s : TypeSpecId, g.present s.node → Yields g.Consulted s.fullName (g.specName s) :=
    fun s hs => yields_specName hg hs
  have hfinite : ∀ s : TypeSpecId, (g.specName s).isSome ↔ ¬g.Circular s :=
    fun _ => isSome_specText_iff
  refine ⟨fun t ht => ?_, fun r hr => ?_, fun s hs => ⟨?_, fun n hn => ?_⟩⟩
  · have hvalue : (t.display.run g).1 = textOf g g.specName t :=
      (Intact.yields_textOf hg hnames t ht g (.refl g)).1
    rw [hvalue, isSome_textOf]
    simp only [hfinite]
  · have hvalue : (r.fullName.run g).1 = nameOf g g.specName r :=
      (Intact.yields_nameOf hg hnames hr g (.refl g)).1
    rw [hvalue, isSome_nameOf]
    simp only [hfinite, Option.mem_toList, Option.mem_def]
  · rw [(hnames s hs g (.refl g)).1, hfinite]
  · have hvalue := (yields_specText hg n s hs g (.refl g)).1
    rw [hvalue] at hn ⊢
    rw [(hnames s hs g (.refl g)).1]
    exact specText_unique hn (isSome_specText_iff.mpr fun hc => by simp [hc.specText_none] at hn)

/-! ## Specifications that are modifiers -/

namespace TypeSpecId

/-- A store of three specifications: one that is a modifier in its own signature, one that has
the third as a modifier, and one that is a class of itself. -/
def modifying : Store :=
  let token (rid : Nat) : Token := Token.ofParts .typeSpec rid
  { Store.empty with
    modules := [⟨⟨1, Token.ofParts .module 1⟩, 0, 0, 0⟩]
    typeSpecs := [⟨⟨1, token 1⟩, 1⟩, ⟨⟨2, token 2⟩, 2⟩, ⟨⟨3, token 3⟩, 3⟩]
    blobs := [.typeSig (.modified .required (token 1) (.leaf .object)),
      .typeSig (.modified .optional (token 3) (.leaf .object)),
      .typeSig (.named .classType (token 3))] }

/-- The one that has another as a modifier has a full name, which stops at the class that is
itself, and so names do not go round from it; from the first one they do. -/
theorem fullName_modifying :
    let g := modifying.loaded .perEntityLock
    g.Intact ∧
      ((fullName ⟨.row 0 2⟩).run g).1 = some "System.Object modopt(0x1b000003)" ∧
      ¬g.Circular ⟨.row 0 2⟩ ∧ g.Circular ⟨.row 0 1⟩ := by
  intro g
  have hg : g.Intact := Store.loaded_intact rfl
  obtain ⟨-, -, hspecs⟩ := TypeSig.display_finite_iff hg
  have hname : ((fullName ⟨.row 0 2⟩).run g).1 = some "System.Object modopt(0x1b000003)" := by
    decide +kernel
  have hnone : ((fullName ⟨.row 0 1⟩).run g).1 = none := by decide +kernel
  refine ⟨hg, hname, (hspecs ⟨.row 0 2⟩ (by decide +kernel)).1.mp (by rw [hname]; rfl), ?_⟩
  have hiff := (hspecs ⟨.row 0 1⟩ (by decide +kernel)).1
  rw [hnone] at hiff
  exact not_not.mp fun hc => Bool.false_ne_true (hiff.mpr hc)

/-- **The first one has no full name**, however many specifications are followed, and neither
has its signature a text. -/
theorem endless_modifying :
    let g := modifying.loaded .perEntityLock
    let t : Sig := .modified .required (.typeSpec ⟨.row 0 1⟩) (.leaf .object)
    ((sig ⟨.row 0 1⟩).run g).1 = some t ∧
      (∀ n, ((nameWithin n ⟨.row 0 1⟩).run g).1 = none) ∧
      ((fullName ⟨.row 0 1⟩).run g).1 = none ∧ (t.display.run g).1 = none := by
  intro g t
  have hg : g.Intact := Store.loaded_intact rfl
  have hsig : ((sig ⟨.row 0 1⟩).run g).1 = some t := rfl
  have hquotes : g.Quotes ⟨.row 0 1⟩ ⟨.row 0 1⟩ := ⟨t, hsig, List.mem_singleton.mpr rfl⟩
  have hcircular : g.Circular ⟨.row 0 1⟩ := ⟨_, .refl, .single hquotes⟩
  refine ⟨hsig, fun n => ?_, by decide +kernel, by decide +kernel⟩
  rw [(yields_specText hg n ⟨.row 0 1⟩ (by decide +kernel) g (.refl g)).1, hcircular.specText_none]

end TypeSpecId
end CliMetadata
