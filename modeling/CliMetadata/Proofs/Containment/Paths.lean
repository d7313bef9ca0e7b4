import CliMetadata.Containment
import CliMetadata.Proofs.Comparison.Equality

/-!
# Generic parameters are found by paths

A signature has components, and a type specification has one if its signature is known: the
type that it stands for (`Part.components`).  Components may refer back to what they are
components of, so a part can have paths of any length below it.

The search for generic parameters spends one of its budget on each part that it enters.
**It finds one exactly if a path of components leads to one and costs no more than the
budget** (`mentions_iff_path`), where every part on the path costs one, both ends included.
So a larger budget finds all that a smaller one finds.
-/

namespace CliMetadata.Containment

open CliMetadata.Graph Loading Stateful

/-! ## Parts and paths -/

/-- What the search can enter: the signature of a type, a type specification or a signature
of another sort. -/
inductive Part where
  | type (t : Sig)
  | spec (s : TypeSpecId)
  | signature (s : Signature TypeDefOrRef)

/-- A reference leads to a part where it is to a specification. -/
def referred : TypeDefOrRef → List Part
  | .typeSpec s => [.spec s]
  | .typeDef _ | .typeRef _ => []

namespace Part

/-- A generic parameter, of a type or of a method. -/
inductive IsParam : Part → Prop
  | param (scope : ParamScope) (index : Nat) : IsParam (.type (.param scope index))

/-- The parts that a part is put together from. -/
def components (g : Graph) : Part → List Part
  | .type (.leaf _) | .type (.param _ _) => []
  | .type (.named _ r) => referred r
  | .type (.wrap _ next) => [.type next]
  | .type (.modified _ modifier base) => referred modifier ++ [.type base]
  | .type (.inst generic args) => .type generic :: args.map .type
  | .type (.fnPtr head returnType params varargs) =>
    [.signature (.method ⟨head, returnType, params, varargs⟩)]
  | .spec s => ((TypeSpecId.lazySig.value g s).map .type).toList
  | .signature (.field t) => [.type t]
  | .signature (.method m) => .type m.returnType :: (m.params ++ m.varargs).map .type
  | .signature (.property p) => .type p.base :: p.params.map .type
  | .signature (.locals ts) | .signature (.instantiation ts) => ts.map .type

/-- The types that a part refers to. -/
def refs : Part → List TypeDefOrRef
  | .type t => t.refs
  | .spec s => [.typeSpec s]
  | .signature s => s.refs

/-- Every type that a part refers to is there. -/
def HasRefs (g : Graph) (p : Part) : Prop := ∀ r ∈ p.refs, g.present r.node

instance (g : Graph) (p : Part) : Decidable (p.HasRefs g) :=
  inferInstanceAs (Decidable (∀ r ∈ p.refs, g.present r.node))

/-- A path of components from one part to another.  Every part on it costs one, both ends
included. -/
inductive Path (g : Graph) : (cost : Nat) → Part → Part → Prop
  | here (p : Part) : Path g 1 p p
  | step {n : Nat} {p q r : Part} (h : q ∈ p.components g) (rest : Path g n q r) :
      Path g (n + 1) p r

/-- A path to a generic parameter that costs no more than a budget. -/
def Reaches (g : Graph) (depth : Nat) (p : Part) : Prop :=
  ∃ n ≤ depth, ∃ q, Path g n p q ∧ IsParam q

variable {g : Graph} {p q : Part} {d e : Nat}

theorem Reaches.mono (h : Reaches g d p) (hde : d ≤ e) : Reaches g e p := by
  obtain ⟨n, hn, hpath⟩ := h
  exact ⟨n, Nat.le_trans hn hde, hpath⟩

theorem not_reaches_zero : ¬Reaches g 0 p := by
  rintro ⟨n, hn, q, hpath, -⟩
  cases hpath <;> omega

/-- A part reaches a generic parameter if it is one or if a component reaches one with what
is left of the budget. -/
theorem reaches_succ : Reaches g (d + 1) p ↔ IsParam p ∨ ∃ q ∈ p.components g, Reaches g d q := by
  constructor
  · rintro ⟨n, hn, q, hpath, hparam⟩
    cases hpath with
    | here => exact .inl hparam
    | step hmem rest => exact .inr ⟨_, hmem, _, by omega, q, rest, hparam⟩
  · rintro (hparam | ⟨q, hmem, n, hn, r, hpath, hparam⟩)
    · exact ⟨1, by omega, p, .here p, hparam⟩
    · exact ⟨n + 1, by omega, r, .step hmem hpath, hparam⟩

/-- A part that is no parameter reaches one through its components. -/
theorem reaches_components (h : ¬IsParam p) :
    Reaches g (d + 1) p ↔ ∃ q ∈ p.components g, Reaches g d q := by
  rw [reaches_succ]
  exact or_iff_right h

/-- What the components of a part refer to is there, if what the part refers to is. -/
theorem HasRefs.components (hg : g.Intact) {p q : Part} (hp : p.HasRefs g)
    (hq : q ∈ p.components g) : q.HasRefs g := by
  have referred : ∀ {r : TypeDefOrRef}, g.present r.node → q ∈ Containment.referred r →
      q.HasRefs g := by
    intro r hr hq
    cases r with
    | typeDef _ | typeRef _ => cases hq
    | typeSpec s =>
      obtain rfl := List.mem_singleton.mp hq
      exact List.forall_mem_singleton.mpr hr
  have types : ∀ {ts : List Sig}, (∀ r ∈ TypeSig.refsAll ts, g.present r.node) →
      q ∈ ts.map type → q.HasRefs g := by
    intro ts hts hq
    obtain ⟨t, ht, rfl⟩ := List.mem_map.mp hq
    exact fun r hr => hts r (TypeSig.refs_subset_all ht r hr)
  cases p with
  | type t =>
    cases t with
    | leaf _ | param _ _ => cases hq
    | named _ r => exact referred (hp r List.mem_cons_self) hq
    | wrap _ next =>
      obtain rfl := List.mem_singleton.mp hq
      exact hp
    | modified _ m base =>
      obtain ⟨hm, hbase⟩ := List.forall_mem_cons.mp hp
      rcases List.mem_append.mp hq with hq | hq
      · exact referred hm hq
      · obtain rfl := List.mem_singleton.mp hq
        exact hbase
    | inst generic args =>
      obtain ⟨hgeneric, hargs⟩ := List.forall_mem_append.mp hp
      rcases List.mem_cons.mp hq with rfl | hq
      · exact hgeneric
      · exact types hargs hq
    | fnPtr head returnType params varargs =>
      obtain rfl := List.mem_singleton.mp hq
      exact hp
  | spec s =>
    have hrefs := TypeSpecId.lazySig.refs_value hg.spec s
    rw [Part.components] at hq
    cases hsig : TypeSpecId.lazySig.value g s with
    | none =>
      rw [hsig] at hq
      cases hq
    | some t =>
      rw [hsig] at hq hrefs
      obtain rfl := List.mem_singleton.mp hq
      exact hrefs
  | signature s =>
    cases s with
    | field t =>
      obtain rfl := List.mem_singleton.mp hq
      exact hp
    | method m =>
      obtain ⟨hreturn, hrest⟩ := List.forall_mem_append.mp hp
      rcases List.mem_cons.mp hq with rfl | hq
      · exact hreturn
      · rw [List.map_append] at hq
        obtain ⟨hparams, hvarargs⟩ := List.forall_mem_append.mp hrest
        exact (List.mem_append.mp hq).elim (types hparams) (types hvarargs)
    | property p =>
      obtain ⟨hbase, hparams⟩ := List.forall_mem_append.mp hp
      rcases List.mem_cons.mp hq with rfl | hq
      · exact hbase
      · exact types hparams hq
    | locals ts | instantiation ts => exact types hp hq

/-- A relation between the parts of a graph and those of another: a part that stands beside
another has components that stand beside those of the other one, in order, and generic
parameters stand beside each other only. -/
structure Matching (R : Part → Part → Prop) (g g' : Graph) : Prop where
  isParam : ∀ {p q}, R p q → (p.IsParam ↔ q.IsParam)
  components : ∀ {p q}, R p q → List.Forall₂ R (p.components g) (q.components g')

/-- What stands beside one of a list stands in the other list, where the entries stand beside
each other. -/
theorem exists_beside {R : Part → Part → Prop} {P Q : Part → Prop} {ps qs : List Part}
    (h : List.Forall₂ R ps qs) (hPQ : ∀ {p q}, R p q → (P p ↔ Q q)) :
    (∃ p ∈ ps, P p) ↔ ∃ q ∈ qs, Q q := by
  induction h with
  | nil => simp
  | cons h _ ih => rw [List.exists_mem_cons_iff, List.exists_mem_cons_iff, hPQ h, ih]

/-- **Parts that stand beside each other reach generic parameters within the same budgets.** -/
theorem Matching.reaches_iff {R : Part → Part → Prop} {g g' : Graph} (hR : Matching R g g')
    (depth : Nat) {p q : Part} (h : R p q) : p.Reaches g depth ↔ q.Reaches g' depth := by
  induction depth generalizing p q with
  | zero => exact iff_of_false not_reaches_zero not_reaches_zero
  | succ depth ih => rw [reaches_succ, reaches_succ, hR.isParam h, exists_beside (hR.components h) ih]

end Part

/-! ## The search -/

/-- The search below a part. -/
def mentions (depth : Nat) : Part → GraphM Bool
  | .type t => type depth t
  | .spec s => spec depth s
  | .signature s => signature depth s

open CliMetadata.Containment.Part

section Search

variable {S : Graph → Prop}

/-- A test of the entries of a list, one after the other. -/
theorem decides_any {α : Type} {test : α → GraphM Bool} {R : α → Prop} {xs : List α}
    (h : ∀ x ∈ xs, Decides S (test x) (R x)) : Decides S (any test xs) (∃ x ∈ xs, R x) := by
  induction xs with
  | nil => exact Decides.refute (by simp)
  | cons x xs ih =>
    have hrest := ih fun y hy => h y (List.mem_cons_of_mem _ hy)
    exact ((h x List.mem_cons_self).orElse fun _ => hrest).congr (by simp)

variable {g : Graph} {d : Nat}

theorem decides_types (ih : ∀ q : Part, q.HasRefs g → Decides S (mentions d q) (Reaches g d q))
    {ts : List Sig} (hts : ∀ r ∈ TypeSig.refsAll ts, g.present r.node) :
    Decides S (any (type d) ts) (∃ q ∈ ts.map Part.type, Reaches g d q) := by
  refine Decides.congr (decides_any fun t ht => ih (.type t) fun r hr => ?_) (by simp)
  exact hts r (TypeSig.refs_subset_all ht r hr)

theorem decides_referred (ih : ∀ q : Part, q.HasRefs g → Decides S (mentions d q) (Reaches g d q))
    {r : TypeDefOrRef} (hr : g.present r.node) :
    Decides S (match specOf? r with | some s => spec d s | none => return false)
      (∃ q ∈ referred r, Reaches g d q) := by
  cases r with
  | typeDef _ | typeRef _ => exact Decides.refute (by simp [referred])
  | typeSpec s =>
    exact (ih (.spec s) (by simpa [HasRefs, refs] using hr)).congr (by simp [referred])

/-- What is found below a signature of a type, by what is found below its components. -/
theorem decides_type (ih : ∀ q : Part, q.HasRefs g → Decides S (mentions d q) (Reaches g d q))
    (t : Sig) (ht : (Part.type t).HasRefs g) :
    Decides S (type (d + 1) t) (Reaches g (d + 1) (.type t)) := by
  have components : ¬IsParam (.type t) →
      ((∃ q ∈ (Part.type t).components g, Reaches g d q) ↔ Reaches g (d + 1) (.type t)) :=
    fun hparam => (reaches_components hparam).symm
  cases t with
  | leaf l =>
    refine Decides.congr ?_ (components nofun)
    rw [type]
    exact Decides.refute (by simp [Part.components])
  | param scope index =>
    rw [type]
    exact .pure (by simp [reaches_succ, IsParam.param])
  | named k r =>
    refine Decides.congr ?_ (components nofun)
    rw [type]
    exact decides_referred ih (ht r List.mem_cons_self)
  | wrap w next =>
    refine Decides.congr ?_ (components nofun)
    rw [type]
    exact (ih (.type next) ht).congr (by simp [Part.components])
  | modified k m base =>
    refine Decides.congr ?_ (components nofun)
    rw [type]
    have hbase := ih (.type base) fun r hr => ht r (List.mem_cons_of_mem _ hr)
    have hmodifier := decides_referred ih (ht m List.mem_cons_self)
    have heither := hmodifier.orElse fun _ => hbase
    have hcomponents : (∃ q ∈ (Part.type (.modified k m base)).components g, Reaches g d q) ↔
        (∃ q ∈ referred m, Reaches g d q) ∨ Reaches g d (.type base) := by
      simp [Part.components, or_and_right, exists_or]
    refine Decides.congr ?_ hcomponents.symm
    cases m with
    | typeDef _ | typeRef _ | typeSpec _ => exact heither
  | inst generic args =>
    refine Decides.congr ?_ (components nofun)
    rw [type]
    have hgeneric := ih (.type generic) fun r hr => ht r (List.mem_append_left _ hr)
    have hargs := decides_types ih fun r hr => ht r (List.mem_append_right _ hr)
    exact (hgeneric.orElse fun _ => hargs).congr (by simp [Part.components])
  | fnPtr head returnType params varargs =>
    refine Decides.congr ?_ (components nofun)
    rw [type]
    exact (ih (.signature (.method ⟨head, returnType, params, varargs⟩)) ht).congr
      (by simp [Part.components])

/-- What is found below a specification. -/
theorem decides_spec (hg : g.Intact)
    (ih : ∀ q : Part, q.HasRefs g → Decides g.Consulted (mentions d q) (Reaches g d q))
    (s : TypeSpecId) (hs : (Part.spec s).HasRefs g) :
    Decides g.Consulted (spec (d + 1) s) (Reaches g (d + 1) (.spec s)) := by
  have hpresent : g.present s.node := hs _ List.mem_cons_self
  have hparam : ¬IsParam (.spec s) := nofun
  refine Decides.congr ?_ (reaches_components hparam).symm
  rw [spec]
  refine Settles.after (LazySlot.yields (z := TypeSpecId.lazySig) (fun _ _ => rfl) hpresent) ?_
  have hrefs := TypeSpecId.lazySig.refs_value hg.spec s
  rw [Part.components]
  cases hsig : TypeSpecId.lazySig.value g s with
  | none => exact Decides.refute (by simp)
  | some t =>
    rw [hsig] at hrefs
    exact (ih (.type t) hrefs).congr (by simp)

/-- What is found below a signature of another sort. -/
theorem decides_signature
    (ih : ∀ q : Part, q.HasRefs g → Decides S (mentions d q) (Reaches g d q))
    (s : Signature TypeDefOrRef) (hs : (Part.signature s).HasRefs g) :
    Decides S (signature (d + 1) s) (Reaches g (d + 1) (.signature s)) := by
  have hparam : ¬IsParam (.signature s) := nofun
  refine Decides.congr ?_ (reaches_components hparam).symm
  cases s with
  | field t =>
    rw [signature]
    exact (ih (.type t) hs).congr (by simp [Part.components])
  | method m =>
    rw [signature, method]
    have hreturn := ih (.type m.returnType) fun r hr => hs r (List.mem_append_left _ hr)
    have hparams := decides_types ih fun r hr =>
      hs r (List.mem_append_right _ (List.mem_append_left _ hr))
    have hvarargs := decides_types ih fun r hr =>
      hs r (List.mem_append_right _ (List.mem_append_right _ hr))
    exact (hreturn.orElse fun _ => hparams.orElse fun _ => hvarargs).congr
      (by simp [Part.components, or_and_right, exists_or])
  | property p =>
    rw [signature]
    have hbase := ih (.type p.base) fun r hr => hs r (List.mem_append_left _ hr)
    have hparams := decides_types ih fun r hr => hs r (List.mem_append_right _ hr)
    exact (hbase.orElse fun _ => hparams).congr (by simp [Part.components])
  | locals ts | instantiation ts =>
    rw [signature]
    exact decides_types ih hs

end Search

/-- **What the search decides within a budget**, whatever has been consulted before. -/
theorem decides_mentions {g : Graph} (hg : g.Intact) (depth : Nat) (p : Part) (hp : p.HasRefs g) :
    Decides g.Consulted (mentions depth p) (Reaches g depth p) := by
  induction depth generalizing p with
  | zero =>
    have hnone : mentions 0 p = return false := by
      cases p with
      | type t => rw [mentions, type]
      | spec s => rw [mentions, spec]
      | signature s => cases s <;> simp only [mentions, signature, method]
    rw [hnone]
    exact Decides.refute not_reaches_zero
  | succ d ih =>
    cases p with
    | type t => exact decides_type ih t hp
    | spec s => exact decides_spec hg ih s hp
    | signature s => exact decides_signature ih s hp

/-- So the search answers the same for parts that stand beside each other, whatever has been
consulted in either graph. -/
theorem Part.Matching.mentions_eq {R : Part → Part → Prop} {g g' : Graph} (hR : Matching R g g')
    (hg : g.Intact) (hg' : g'.Intact) {p q : Part} (h : R p q) (hp : p.HasRefs g)
    (hq : q.HasRefs g') (depth : Nat) {g₁ g₂ : Graph} (h₁ : g.Consulted g₁)
    (h₂ : g'.Consulted g₂) : ((mentions depth p).run g₁).1 = ((mentions depth q).run g₂).1 := by
  rw [Bool.eq_iff_iff, ((decides_mentions hg depth p hp).value h₁).2,
    ((decides_mentions hg' depth q hq).value h₂).2]
  exact hR.reaches_iff depth h

/-- **The search finds a generic parameter exactly if a path of components leads to one and
costs no more than the budget**, in every intact graph, however its specifications refer to
each other, and whatever has been consulted before.  So what a budget finds, every larger
one finds. -/
theorem mentions_iff_path {g : Graph} (hg : g.Intact) {p : Part} (hp : p.HasRefs g) :
    (∀ depth, Decides g.Consulted (mentions depth p)
      (∃ n ≤ depth, ∃ q, Path g n p q ∧ IsParam q)) ∧
    ∀ depth depth', depth ≤ depth' → ∀ g₁ g₂, g.Consulted g₁ → g.Consulted g₂ →
      ((mentions depth p).run g₁).1 = true → ((mentions depth' p).run g₂).1 = true := by
  refine ⟨fun depth => decides_mentions hg depth p hp, fun depth depth' hle g₁ g₂ h₁ h₂ h => ?_⟩
  have hreaches := ((decides_mentions hg depth p hp).value h₁).2.mp h
  exact ((decides_mentions hg depth' p hp).value h₂).2.mpr (hreaches.mono hle)

/-! ## A specification that refers to itself -/

/-- A store of one specification: an instantiation of itself with a generic parameter. -/
def selfInstance : Store :=
  let token := Token.ofParts .typeSpec 1
  { Store.empty with
    modules := [⟨⟨1, Token.ofParts .module 1⟩, 0, 0, 0⟩]
    typeSpecs := [⟨⟨1, token⟩, 1⟩]
    blobs := [.typeSig (.inst (.named .classType token) [.param .type 0])] }

/-- Its argument is two steps away, and the way back to itself changes nothing. -/
theorem mentions_selfInstance :
    let g := selfInstance.loaded .perEntityLock
    let p := Part.spec ⟨.row 0 1⟩
    g.Intact ∧ p.HasRefs g ∧ ((mentions 2 p).run g).1 = false ∧
      ((mentions 3 p).run g).1 = true ∧ ((mentions recursionBound p).run g).1 = true := by
  intro g p
  have hg : g.Intact := Store.loaded_intact rfl
  have hp : p.HasRefs g := by decide +kernel
  have hcomponents : p.components g =
    [.type (.inst (.named .classType (.typeSpec ⟨.row 0 1⟩)) [.param .type 0])] := rfl
  obtain ⟨decides, mono⟩ := mentions_iff_path hg hp
  have hthree : ((mentions 3 p).run g).1 = true := by
    refine ((decides 3).value (.refl g)).2.mpr ⟨3, Nat.le_refl 3, _, ?_, .param .type 0⟩
    refine .step (by rw [hcomponents]; exact List.mem_cons_self) (.step ?_ (.here _))
    exact List.mem_cons_of_mem _ List.mem_cons_self
  refine ⟨hg, hp, ?_, hthree, mono 3 recursionBound (by decide) g g (.refl g) (.refl g) hthree⟩
  rw [← Bool.not_eq_true, ((decides 2).value (.refl g)).2]
  rintro ⟨n, hn, q, (hpath : Path g n (.spec ⟨.row 0 1⟩) q), ⟨⟩⟩
  -- the only component is an instantiation, and what is below it costs three at least
  cases hpath with
  | step hmem rest =>
    obtain rfl := List.mem_singleton.mp (hcomponents ▸ hmem)
    cases rest with
    | step _ rest => cases rest <;> omega

end CliMetadata.Containment
