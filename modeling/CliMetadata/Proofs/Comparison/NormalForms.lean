import CliMetadata.Proofs.Display.FullNames
import CliMetadata.Proofs.Graph.Whole
import Mathlib.Data.Fintype.Card
import Mathlib.Data.Set.Finite.List

/-!
# The normal form of a signature

What the comparison of two signatures tells apart is said by a form that each of them has on
its own.  The **normal form** of a signature (`Graph.SigForm`) has all of its nodes, except
that a type is replaced by its path, a specification by the normal form of its signature, and
what comes after a sentinel is left out.  A signature over specifications that do not go round
in a cycle has one normal form and no other (`Graph.Regular.hasForm`, `Graph.SigForm.unique`).

The native calling convention of a pointer to methods is a part of the normal form, but the
comparison does not look at it.  So **two signatures are equal exactly if their normal forms
are, up to the native calling conventions** (`CompareOptions.equalSigs_iff_plain`), as long as
the comparison is not cut off: its budget has to be enough for the levels of the normal form,
in which the signatures of specifications count.
-/

open Relation (TransGen)

namespace CliMetadata

open CliMetadata.Graph Loading Stateful
open List (Forall₂)

/-! ## Normal forms -/

/-- What a reference is in a normal form: the path of a type, or the normal form of the
signature of a specification. -/
inductive NormalRef where
  | path (p : TypePath)
  | spec (sig : TypeSig NormalRef)

/-- The normal forms of signatures. -/
abbrev NormalSig := TypeSig NormalRef

mutual

/-- The levels of a reference. -/
def NormalRef.levels : NormalRef → Nat
  | .path _ => 1
  | .spec n => n.levels + 1

/-- The levels of a normal form, of the specifications in it as well: one for each node and
one for each reference. -/
def TypeSig.levels : NormalSig → Nat
  | .leaf _ | .param _ _ => 1
  | .named _ r => r.levels + 1
  | .wrap _ next => next.levels + 1
  | .modified _ modifier base => max modifier.levels base.levels + 1
  | .inst generic args => max generic.levels (TypeSig.levelsAll args) + 1
  | .fnPtr _ returnType params varargs =>
    max returnType.levels (max (TypeSig.levelsAll params) (TypeSig.levelsAll varargs)) + 1

/-- The levels of several normal forms. -/
def TypeSig.levelsAll : List NormalSig → Nat
  | [] => 0
  | n :: ns => max n.levels (TypeSig.levelsAll ns)

end

/-- The head of a method signature without its native calling convention. -/
def MethodHead.plain (h : MethodHead) : MethodHead := { h with convention := .managed }

mutual

/-- A reference without native calling conventions. -/
def NormalRef.plain : NormalRef → NormalRef
  | .path p => .path p
  | .spec n => .spec n.plain

/-- A normal form without native calling conventions. -/
def TypeSig.plain : NormalSig → NormalSig
  | .leaf l => .leaf l
  | .param scope index => .param scope index
  | .named kind r => .named kind r.plain
  | .wrap w next => .wrap w next.plain
  | .modified kind modifier base => .modified kind modifier.plain base.plain
  | .inst generic args => .inst generic.plain (TypeSig.plainAll args)
  | .fnPtr head returnType params varargs =>
    .fnPtr head.plain returnType.plain (TypeSig.plainAll params) (TypeSig.plainAll varargs)

/-- Several normal forms without them. -/
def TypeSig.plainAll : List NormalSig → List NormalSig
  | [] => []
  | n :: ns => n.plain :: TypeSig.plainAll ns

end

mutual

/-- The native calling conventions in a reference. -/
def NormalRef.conventions : NormalRef → List CallConv
  | .path _ => []
  | .spec n => n.conventions

/-- The native calling conventions in a normal form, in order. -/
def TypeSig.conventions : NormalSig → List CallConv
  | .leaf _ | .param _ _ => []
  | .named _ r => r.conventions
  | .wrap _ next => next.conventions
  | .modified _ modifier base => modifier.conventions ++ base.conventions
  | .inst generic args => generic.conventions ++ TypeSig.conventionsAll args
  | .fnPtr head returnType params varargs =>
    head.convention ::
      (returnType.conventions ++ (TypeSig.conventionsAll params ++ TypeSig.conventionsAll varargs))

/-- Those in several normal forms. -/
def TypeSig.conventionsAll : List NormalSig → List CallConv
  | [] => []
  | n :: ns => n.conventions ++ TypeSig.conventionsAll ns

end

mutual

/-- A reference has a normal form. -/
inductive Graph.RefForm (g : Graph) : TypeDefOrRef → NormalRef → Prop
  | path {r : TypeDefOrRef} {p : TypePath} (h : g.pathOf r = some p) : RefForm g r (.path p)
  | spec {s : TypeSpecId} {t : Sig} {n : NormalSig} (hs : g.specSig s = some t)
      (h : SigForm g t n) : RefForm g (.typeSpec s) (.spec n)

/-- **A signature has a normal form.** -/
inductive Graph.SigForm (g : Graph) : Sig → NormalSig → Prop
  | leaf (l : Leaf) : SigForm g (.leaf l) (.leaf l)
  | named (k : NamedKind) {r : TypeDefOrRef} {x : NormalRef} (h : RefForm g r x) :
      SigForm g (.named k r) (.named k x)
  | param (s : ParamScope) (i : Nat) : SigForm g (.param s i) (.param s i)
  | wrap (w : Wrapper) {t : Sig} {n : NormalSig} (h : SigForm g t n) :
      SigForm g (.wrap w t) (.wrap w n)
  | modified (k : ModifierKind) {m : TypeDefOrRef} {x : NormalRef} {t : Sig} {n : NormalSig}
      (hm : RefForm g m x) (h : SigForm g t n) : SigForm g (.modified k m t) (.modified k x n)
  | inst {t : Sig} {n : NormalSig} {ts : List Sig} {ns : List NormalSig} (h : SigForm g t n)
      (hs : Forall₂ (SigForm g) ts ns) : SigForm g (.inst t ts) (.inst n ns)
  /-- What comes after a sentinel is left out. -/
  | fnPtr (head : MethodHead) {t : Sig} {n : NormalSig} {ps vs : List Sig} {ns : List NormalSig}
      (h : SigForm g t n) (hp : Forall₂ (SigForm g) ps ns) :
      SigForm g (.fnPtr head t ps vs) (.fnPtr head n ns [])

end

/-! ## What leaving the conventions out forgets -/

theorem MethodHead.ext_plain {a b : MethodHead} (h : a.plain = b.plain)
    (hconvention : a.convention = b.convention) : a = b := by
  cases a
  cases b
  simp_all [plain]

mutual

/-- References that are the same up to the conventions and have the same conventions are the
same; what follows the conventions is carried along. -/
theorem NormalRef.ext_plain : ∀ (x y : NormalRef) {cs ds : List CallConv}, x.plain = y.plain →
    x.conventions ++ cs = y.conventions ++ ds → x = y ∧ cs = ds
  | .path p, .path q, _, _, hplain, hconventions => ⟨hplain, hconventions⟩
  | .spec m, .spec n, _, _, hplain, hconventions => by
    obtain ⟨rfl, h⟩ := TypeSig.ext_plain m n (NormalRef.spec.inj hplain) hconventions
    exact ⟨rfl, h⟩
  | .path _, .spec _, _, _, hplain, _ | .spec _, .path _, _, _, hplain, _ => by cases hplain

/-- So are normal forms. -/
theorem TypeSig.ext_plain : ∀ (m n : NormalSig) {cs ds : List CallConv}, m.plain = n.plain →
    m.conventions ++ cs = n.conventions ++ ds → m = n ∧ cs = ds
  | .leaf _, n, _, _, hplain, hconventions => by
    cases n <;> cases hplain
    exact ⟨rfl, hconventions⟩
  | .param _ _, n, _, _, hplain, hconventions => by
    cases n <;> cases hplain
    exact ⟨rfl, hconventions⟩
  | .named _ x, n, _, _, hplain, hconventions => by
    cases n with
    | named _ y =>
      obtain ⟨rfl, hx⟩ := TypeSig.named.inj hplain
      obtain ⟨rfl, h⟩ := NormalRef.ext_plain x y hx hconventions
      exact ⟨rfl, h⟩
    | _ => cases hplain
  | .wrap _ m, n, _, _, hplain, hconventions => by
    cases n with
    | wrap _ n =>
      obtain ⟨rfl, hm⟩ := TypeSig.wrap.inj hplain
      obtain ⟨rfl, h⟩ := TypeSig.ext_plain m n hm hconventions
      exact ⟨rfl, h⟩
    | _ => cases hplain
  | .modified _ x m, n, _, _, hplain, hconventions => by
    cases n with
    | modified _ y n =>
      obtain ⟨rfl, hx, hm⟩ := TypeSig.modified.inj hplain
      simp only [TypeSig.conventions, List.append_assoc] at hconventions
      obtain ⟨rfl, hbase⟩ := NormalRef.ext_plain x y hx hconventions
      obtain ⟨rfl, h⟩ := TypeSig.ext_plain m n hm hbase
      exact ⟨rfl, h⟩
    | _ => cases hplain
  | .inst m ms, n, _, _, hplain, hconventions => by
    cases n with
    | inst n ns =>
      obtain ⟨hm, hms⟩ := TypeSig.inst.inj hplain
      simp only [TypeSig.conventions, List.append_assoc] at hconventions
      obtain ⟨rfl, hargs⟩ := TypeSig.ext_plain m n hm hconventions
      obtain ⟨rfl, h⟩ := TypeSig.ext_plainAll ms ns hms hargs
      exact ⟨rfl, h⟩
    | _ => cases hplain
  | .fnPtr a m ms vs, n, _, _, hplain, hconventions => by
    cases n with
    | fnPtr b n ns ws =>
      obtain ⟨hhead, hm, hms, hvs⟩ := TypeSig.fnPtr.inj hplain
      simp only [TypeSig.conventions, List.cons_append, List.append_assoc, List.cons.injEq]
        at hconventions
      obtain ⟨hconvention, hconventions⟩ := hconventions
      obtain rfl := MethodHead.ext_plain hhead hconvention
      obtain ⟨rfl, hparams⟩ := TypeSig.ext_plain m n hm hconventions
      obtain ⟨rfl, hvarargs⟩ := TypeSig.ext_plainAll ms ns hms hparams
      obtain ⟨rfl, h⟩ := TypeSig.ext_plainAll vs ws hvs hvarargs
      exact ⟨rfl, h⟩
    | _ => cases hplain

/-- So are several. -/
theorem TypeSig.ext_plainAll : ∀ (ms ns : List NormalSig) {cs ds : List CallConv},
    TypeSig.plainAll ms = TypeSig.plainAll ns →
    TypeSig.conventionsAll ms ++ cs = TypeSig.conventionsAll ns ++ ds → ms = ns ∧ cs = ds
  | [], [], _, _, _, hconventions => ⟨rfl, hconventions⟩
  | m :: ms, n :: ns, _, _, hplain, hconventions => by
    obtain ⟨hm, hms⟩ := List.cons.inj hplain
    simp only [TypeSig.conventionsAll, List.append_assoc] at hconventions
    obtain ⟨rfl, hrest⟩ := TypeSig.ext_plain m n hm hconventions
    obtain ⟨rfl, h⟩ := TypeSig.ext_plainAll ms ns hms hrest
    exact ⟨rfl, h⟩
  | [], _ :: _, _, _, hplain, _ | _ :: _, [], _, _, hplain, _ => by cases hplain

end

namespace Graph

variable {g : Graph}

/-! ## There is one normal form -/

theorem levels_le_all {n : NormalSig} : ∀ {ns : List NormalSig}, n ∈ ns →
    n.levels ≤ TypeSig.levelsAll ns
  | m :: ms, h => by
    rw [TypeSig.levelsAll]
    rcases List.mem_cons.mp h with rfl | h
    · exact Nat.le_max_left _ _
    · exact Nat.le_trans (levels_le_all h) (Nat.le_max_right _ _)

theorem forall₂_unique {F : Sig → NormalSig → Prop} {ts : List Sig} {ms ns : List NormalSig}
    (unique : ∀ m ∈ ms, ∀ t n, F t m → F t n → m = n) (hm : Forall₂ F ts ms)
    (hn : Forall₂ F ts ns) : ms = ns := by
  induction hm generalizing ns with
  | nil =>
    cases hn
    rfl
  | cons h _ ih =>
    cases hn with
    | cons h' hs' =>
      obtain ⟨hfirst, hrest⟩ := List.forall_mem_cons.mp unique
      rw [hfirst _ _ h h', ih hrest hs']

/-- Normal forms of at most a number of levels are the only ones. -/
theorem form_unique : ∀ k : Nat,
    (∀ {r : TypeDefOrRef} {x y : NormalRef}, x.levels ≤ k → g.RefForm r x → g.RefForm r y →
      x = y) ∧
    ∀ {t : Sig} {m n : NormalSig}, m.levels ≤ k → g.SigForm t m → g.SigForm t n → m = n
  | 0 => by
    refine ⟨fun {_ x _} hx => ?_, fun {_ m _} hm => ?_⟩
    · cases x <;> simp [NormalRef.levels] at hx
    · cases m <;> simp [TypeSig.levels] at hm
  | k + 1 => by
    obtain ⟨refs, sigs⟩ := form_unique k
    have lists : ∀ {ts : List Sig} {ms ns : List NormalSig}, TypeSig.levelsAll ms ≤ k →
        Forall₂ g.SigForm ts ms → Forall₂ g.SigForm ts ns → ms = ns := fun hk =>
      forall₂_unique fun m hm _ _ => sigs (Nat.le_trans (levels_le_all hm) hk)
    refine ⟨fun {r x y} hk hx hy => ?_, fun {t m n} hk hm hn => ?_⟩
    · cases hx with
      | path h =>
        cases hy with
        | path h' => rw [Option.some.inj (h.symm.trans h')]
        | spec _ _ => cases h
      | spec hs h =>
        cases hy with
        | path h' => cases h'
        | spec hs' h' =>
          obtain rfl := Option.some.inj (hs.symm.trans hs')
          rw [sigs (Nat.le_of_succ_le_succ hk) h h']
    · cases hm with
      | leaf l | param s i =>
        cases hn
        rfl
      | named k h =>
        cases hn with
        | named _ h' => rw [refs (Nat.le_of_succ_le_succ hk) h h']
      | wrap w h =>
        cases hn with
        | wrap _ h' => rw [sigs (Nat.le_of_succ_le_succ hk) h h']
      | modified k hx h =>
        cases hn with
        | modified _ hx' h' =>
          obtain ⟨hkx, hkm⟩ := Nat.max_le.mp (Nat.le_of_succ_le_succ hk)
          rw [refs hkx hx hx', sigs hkm h h']
      | inst h hs =>
        cases hn with
        | inst h' hs' =>
          obtain ⟨hkm, hkms⟩ := Nat.max_le.mp (Nat.le_of_succ_le_succ hk)
          rw [sigs hkm h h', lists hkms hs hs']
      | fnPtr hd h hp =>
        cases hn with
        | fnPtr _ h' hp' =>
          obtain ⟨hkm, hkps⟩ := Nat.max_le.mp (Nat.le_of_succ_le_succ hk)
          rw [sigs hkm h h', lists (Nat.max_le.mp hkps).1 hp hp']

/-- **A signature has no two normal forms.** -/
theorem SigForm.unique {t : Sig} {m n : NormalSig} (hm : g.SigForm t m) (hn : g.SigForm t n) :
    m = n :=
  (form_unique m.levels).2 (Nat.le_refl _) hm hn

mutual

/-- A signature has a normal form if the references in it have. -/
theorem hasForm_of_refs : ∀ t : Sig, (∀ r ∈ t.refs, ∃ x, g.RefForm r x) → ∃ n, g.SigForm t n
  | .leaf l, _ => ⟨_, .leaf l⟩
  | .param s i, _ => ⟨_, .param s i⟩
  | .named k r, h => by
    obtain ⟨x, hx⟩ := h r (List.mem_singleton.mpr rfl)
    exact ⟨_, .named k hx⟩
  | .wrap w next, h => by
    obtain ⟨n, hn⟩ := hasForm_of_refs next h
    exact ⟨_, .wrap w hn⟩
  | .modified k m base, h => by
    obtain ⟨hm, hbase⟩ := List.forall_mem_cons.mp h
    obtain ⟨x, hx⟩ := hm
    obtain ⟨n, hn⟩ := hasForm_of_refs base hbase
    exact ⟨_, .modified k hx hn⟩
  | .inst generic args, h => by
    obtain ⟨hgeneric, hargs⟩ := List.forall_mem_append.mp h
    obtain ⟨n, hn⟩ := hasForm_of_refs generic hgeneric
    obtain ⟨ns, hns⟩ := haveForms_of_refs args hargs
    exact ⟨_, .inst hn hns⟩
  | .fnPtr head returnType params _, h => by
    obtain ⟨hreturn, hrest⟩ := List.forall_mem_append.mp h
    obtain ⟨n, hn⟩ := hasForm_of_refs returnType hreturn
    obtain ⟨ns, hns⟩ := haveForms_of_refs params (List.forall_mem_append.mp hrest).1
    exact ⟨_, .fnPtr head hn hns⟩

/-- So have several. -/
theorem haveForms_of_refs : ∀ ts : List Sig, (∀ r ∈ TypeSig.refsAll ts, ∃ x, g.RefForm r x) →
    ∃ ns, Forall₂ g.SigForm ts ns
  | [], _ => ⟨_, .nil⟩
  | t :: ts, h => by
    obtain ⟨ht, hts⟩ := List.forall_mem_append.mp h
    obtain ⟨n, hn⟩ := hasForm_of_refs t ht
    obtain ⟨ns, hns⟩ := haveForms_of_refs ts hts
    exact ⟨_, .cons hn hns⟩

end

/-- The signature of one specification refers to another. -/
def Mentions (g : Graph) (s s' : TypeSpecId) : Prop :=
  ∃ t, g.specSig s = some t ∧ .typeSpec s' ∈ t.refs

/-- A reference occurs in a signature, or in that of a specification that occurs in it. -/
inductive Occurs (g : Graph) (t : Sig) : TypeDefOrRef → Prop
  | here {r : TypeDefOrRef} (h : r ∈ t.refs) : Occurs g t r
  | within {s : TypeSpecId} {u : Sig} {r : TypeDefOrRef} (hs : Occurs g t (.typeSpec s))
      (hu : g.specSig s = some u) (h : r ∈ u.refs) : Occurs g t r

/-- A signature over types whose enclosing chains are within the bound and specifications that
have signatures and do not go round in a cycle. -/
structure Regular (g : Graph) (t : Sig) : Prop where
  present : CompareOptions.HasRefs g t
  shallow : ∀ {r}, g.Occurs t r → CompareOptions.Shallow g r
  decoded : ∀ {s}, g.Occurs t (.typeSpec s) → (g.specSig s).isSome
  acyclic : ∀ {s}, g.Occurs t (.typeSpec s) → ¬TransGen g.Mentions s s

theorem Regular.present_of_occurs (hg : g.Intact) {t : Sig} (h : g.Regular t) {r : TypeDefOrRef}
    (hr : g.Occurs t r) : g.present r.node := by
  cases hr with
  | here hr => exact h.present r hr
  | @within s u _ _ hu hr =>
    have hvalue : TypeSpecId.lazySig.value g s = some u := hu
    exact TypeSpecId.lazySig.refs_value hg.spec s r (by rwa [hvalue])

/-- There are finitely many specifications with a signature, so steps without a cycle between
them end. -/
theorem Regular.wellFounded {t : Sig} (h : g.Regular t) :
    WellFounded fun x y : {s // g.Occurs t (.typeSpec s)} => TransGen g.Mentions y.1 x.1 := by
  have hfinite : Finite {s // g.Occurs t (.typeSpec s)} := by
    refine Set.Finite.subset (List.finite_toSet (g.entities.entries.flatMap specsOf)) ?_
    exact fun s hs => mem_specsOf (h.decoded hs)
  have htrans : IsTrans _ fun x y : {s // g.Occurs t (.typeSpec s)} => TransGen g.Mentions y.1 x.1 :=
    ⟨fun _ _ _ hxy hyz => hyz.trans hxy⟩
  have hirrefl : Std.Irrefl fun x y : {s // g.Occurs t (.typeSpec s)} => TransGen g.Mentions y.1 x.1 :=
    ⟨fun x => h.acyclic x.2⟩
  exact Finite.wellFounded_of_trans_of_irrefl _

/-- **A signature over specifications without a cycle has a normal form.** -/
theorem Regular.hasForm (hg : g.Intact) {t : Sig} (h : g.Regular t) : ∃ n, g.SigForm t n := by
  have hplain : ∀ {r}, g.Occurs t r → (∀ s, r ≠ .typeSpec s) → ∃ x, g.RefForm r x := by
    intro r hr hne
    obtain ⟨p, hp⟩ := Option.isSome_iff_exists.mp
      ((h.shallow hr).pathOf hg (h.present_of_occurs hg hr) hne)
    exact ⟨_, .path hp⟩
  have hspec : ∀ x : {s // g.Occurs t (.typeSpec s)}, ∃ y, g.RefForm (.typeSpec x.1) y := by
    intro x
    induction x using h.wellFounded.induction with
    | _ x ih =>
      obtain ⟨u, hu⟩ := Option.isSome_iff_exists.mp (h.decoded x.2)
      obtain ⟨n, hn⟩ := hasForm_of_refs u fun r hr => by
        have hoccurs := Occurs.within x.2 hu hr
        cases r with
        | typeSpec s => exact ih ⟨s, hoccurs⟩ (.single ⟨u, hu, hr⟩)
        | typeDef _ | typeRef _ => exact hplain hoccurs nofun
      exact ⟨_, .spec hu hn⟩
  refine hasForm_of_refs t fun r hr => ?_
  cases r with
  | typeSpec s => exact hspec ⟨s, .here hr⟩
  | typeDef _ | typeRef _ => exact hplain (.here hr) nofun

end Graph

/-! ## What is equal -/

namespace CompareOptions

variable {g : Graph}

theorem headsEqual_iff_plain {a b : MethodHead} : headsEqual a b = true ↔ a.plain = b.plain := by
  obtain ⟨_, _, _, _, _⟩ := a
  obtain ⟨_, _, _, _, _⟩ := b
  simp [headsEqual, MethodHead.plain, and_assoc]

section Lists

variable {R : Sig → Sig → Prop} {as bs : List Sig} {ms ns : List NormalSig}

theorem plainAll_of_forall₂
    (h : ∀ {a b m n}, R a b → g.SigForm a m → g.SigForm b n → TypeSig.plain m = TypeSig.plain n)
    (hR : Forall₂ R as bs) (has : Forall₂ g.SigForm as ms) (hbs : Forall₂ g.SigForm bs ns) :
    TypeSig.plainAll ms = TypeSig.plainAll ns := by
  induction hR generalizing ms ns with
  | nil =>
    cases has
    cases hbs
    rfl
  | cons hab _ ih =>
    cases has with
    | cons hm hms =>
      cases hbs with
      | cons hn hns => rw [TypeSig.plainAll, TypeSig.plainAll, h hab hm hn, ih hms hns]

theorem forall₂_of_plainAll
    (h : ∀ {a b m n}, m ∈ ms → g.SigForm a m → g.SigForm b n → TypeSig.plain m = TypeSig.plain n →
      R a b) (has : Forall₂ g.SigForm as ms) (hbs : Forall₂ g.SigForm bs ns)
    (hplain : TypeSig.plainAll ms = TypeSig.plainAll ns) : Forall₂ R as bs := by
  induction has generalizing bs ns with
  | nil =>
    cases hbs with
    | nil => exact .nil
    | cons _ _ => cases hplain
  | cons hm _ ih =>
    cases hbs with
    | nil => cases hplain
    | cons hn hns =>
      obtain ⟨hfirst, hrest⟩ := List.cons.inj hplain
      exact .cons (h List.mem_cons_self hm hn hfirst)
        (ih (fun hmem => h (List.mem_cons_of_mem _ hmem)) hns hrest)

end Lists

/-- **What is equal has the same normal form up to the conventions**, within any budget. -/
theorem plain_of_agree : ∀ d : Nat,
    (∀ {a b : TypeDefOrRef} {x y : NormalRef}, TypesAgree {} g d a b → g.RefForm a x →
      g.RefForm b y → x.plain = y.plain) ∧
    ∀ {a b : Sig} {m n : NormalSig}, SigsAgree {} g d a b → g.SigForm a m → g.SigForm b n →
      m.plain = n.plain
  | 0 => ⟨fun h => h.elim, fun h => h.elim⟩
  | d + 1 => by
    obtain ⟨types, sigs⟩ := plain_of_agree d
    refine ⟨fun {a b x y} hagree hx hy => ?_, fun {a b m n} hagree hm hn => ?_⟩
    · cases hagree with
      | path h =>
        obtain ⟨p, hp, hq, -⟩ := h
        cases hx with
        | spec _ _ => cases hp
        | path hp' =>
          cases hy with
          | spec _ _ => cases hq
          | path hq' =>
            rw [Option.some.inj (hp'.symm.trans hp), Option.some.inj (hq'.symm.trans hq)]
      | spec s => rw [(form_unique x.levels).1 (Nat.le_refl _) hx hy]
      | sig hs ht h =>
        cases hx with
        | path hp => cases hp
        | spec hs' hm =>
          cases hy with
          | path hq => cases hq
          | spec ht' hn =>
            obtain rfl := Option.some.inj (hs.symm.trans hs')
            obtain rfl := Option.some.inj (ht.symm.trans ht')
            exact congrArg NormalRef.spec (sigs h hm hn)
    · have hstep : SigStep {} (TypesAgree {} g d) (SigsAgree {} g d) a b := hagree
      cases hstep with
      | leaf l | param s i =>
        cases hm
        cases hn
        rfl
      | named k h =>
        cases hm with
        | named _ hx =>
          cases hn with
          | named _ hy => rw [TypeSig.plain, TypeSig.plain, types h hx hy]
      | wrap w h =>
        cases hm with
        | wrap _ hm =>
          cases hn with
          | wrap _ hn => rw [TypeSig.plain, TypeSig.plain, sigs h hm hn]
      | modified k hmodifier h =>
        cases hm with
        | modified _ hx hm =>
          cases hn with
          | modified _ hy hn =>
            rw [TypeSig.plain, TypeSig.plain, types hmodifier hx hy, sigs h hm hn]
      | inst h hs =>
        cases hm with
        | inst hm hms =>
          cases hn with
          | inst hn hns =>
            rw [TypeSig.plain, TypeSig.plain, sigs h hm hn, plainAll_of_forall₂ sigs hs hms hns]
      | fnPtr hh h hp _ =>
        cases hm with
        | fnPtr _ hm hms =>
          cases hn with
          | fnPtr _ hn hns =>
            rw [TypeSig.plain, TypeSig.plain, headsEqual_iff_plain.mp hh, sigs h hm hn,
              plainAll_of_forall₂ sigs hp hms hns]

/-- **What has the same normal form up to the conventions is equal** within a budget of its
levels. -/
theorem agree_of_plain : ∀ d : Nat,
    (∀ {a b : TypeDefOrRef} {x y : NormalRef}, x.levels ≤ d → g.RefForm a x → g.RefForm b y →
      x.plain = y.plain → TypesAgree {} g d a b) ∧
    ∀ {a b : Sig} {m n : NormalSig}, m.levels ≤ d → g.SigForm a m → g.SigForm b n →
      m.plain = n.plain → SigsAgree {} g d a b
  | 0 => by
    refine ⟨fun {_ _ x _} hx => ?_, fun {_ _ m _} hm => ?_⟩
    · cases x <;> simp [NormalRef.levels] at hx
    · cases m <;> simp [TypeSig.levels] at hm
  | d + 1 => by
    obtain ⟨types, sigs⟩ := agree_of_plain d
    have lists : ∀ {as bs : List Sig} {ms ns : List NormalSig}, TypeSig.levelsAll ms ≤ d →
        Forall₂ g.SigForm as ms → Forall₂ g.SigForm bs ns →
        TypeSig.plainAll ms = TypeSig.plainAll ns → Forall₂ (SigsAgree {} g d) as bs := fun hd =>
      forall₂_of_plainAll fun hmem => sigs (Nat.le_trans (levels_le_all hmem) hd)
    refine ⟨fun {a b x y} hd hx hy hplain => ?_, fun {a b m n} hd hm hn hplain => ?_⟩
    · cases hx with
      | path hp =>
        cases hy with
        | spec _ _ => cases hplain
        | path hq =>
          obtain rfl := NormalRef.path.inj hplain
          exact .path ⟨_, hp, hq, nofun⟩
      | spec hs hm =>
        cases hy with
        | path _ => cases hplain
        | spec ht hn =>
          exact .sig hs ht (sigs (Nat.le_of_succ_le_succ hd) hm hn (NormalRef.spec.inj hplain))
    · cases hm with
      | leaf l =>
        cases hn <;> cases hplain
        exact .leaf l
      | param s i =>
        cases hn <;> cases hplain
        exact .param s i
      | named k hx =>
        cases hn with
        | named _ hy =>
          obtain ⟨rfl, hxy⟩ := TypeSig.named.inj hplain
          exact .named k (types (Nat.le_of_succ_le_succ hd) hx hy hxy)
        | _ => cases hplain
      | wrap w hm =>
        cases hn with
        | wrap _ hn =>
          obtain ⟨rfl, hmn⟩ := TypeSig.wrap.inj hplain
          exact .wrap w (sigs (Nat.le_of_succ_le_succ hd) hm hn hmn)
        | _ => cases hplain
      | modified k hx hm =>
        cases hn with
        | modified _ hy hn =>
          obtain ⟨rfl, hmodifier, hbase⟩ := TypeSig.modified.inj hplain
          obtain ⟨hdx, hdm⟩ := Nat.max_le.mp (Nat.le_of_succ_le_succ hd)
          exact .modified k (types hdx hx hy hmodifier) (sigs hdm hm hn hbase)
        | _ => cases hplain
      | inst hm hms =>
        cases hn with
        | inst hn hns =>
          obtain ⟨hgeneric, hargs⟩ := TypeSig.inst.inj hplain
          obtain ⟨hdm, hdms⟩ := Nat.max_le.mp (Nat.le_of_succ_le_succ hd)
          exact .inst (sigs hdm hm hn hgeneric) (lists hdms hms hns hargs)
        | _ => cases hplain
      | fnPtr hd' hm hms =>
        cases hn with
        | fnPtr _ hn hns =>
          obtain ⟨hhead, hreturn, hparams, -⟩ := TypeSig.fnPtr.inj hplain
          obtain ⟨hdm, hdms⟩ := Nat.max_le.mp (Nat.le_of_succ_le_succ hd)
          exact .fnPtr (headsEqual_iff_plain.mpr hhead) (sigs hdm hm hn hreturn)
            (lists (Nat.max_le.mp hdms).1 hms hns hparams) nofun
        | _ => cases hplain

/-- A comparison looks at two normal forms: it says that they are the same up to the native
calling conventions, as far as it is not cut off.  So it misses these and nothing else. -/
structure ComparesForms (g : Graph) (bound : Nat) (equal : GraphM Bool) (m n : NormalSig) :
    Prop where
  sound : ∀ g', g.Consulted g' → (equal.run g').1 = true → m.plain = n.plain
  equal_iff : m.levels ≤ bound → ∀ g', g.Consulted g' →
    ((equal.run g').1 = true ↔ m.plain = n.plain)
  same_iff : m.levels ≤ bound → ∀ g', g.Consulted g' →
    (m = n ↔ (equal.run g').1 = true ∧ m.conventions = n.conventions)

/-- What decides whether signatures agree compares their normal forms. -/
theorem ComparesForms.of_decides {a b : Sig} {m n : NormalSig} {bound : Nat} {equal : GraphM Bool}
    (hm : g.SigForm a m) (hn : g.SigForm b n)
    (h : Decides g.Consulted equal (SigsAgree {} g bound a b)) :
    ComparesForms g bound equal m n := by
  have hagree : ∀ g', g.Consulted g' → ((equal.run g').1 = true ↔ SigsAgree {} g bound a b) :=
    fun g' hc => (h.value hc).2
  have hiff : m.levels ≤ bound → ∀ g', g.Consulted g' →
      ((equal.run g').1 = true ↔ m.plain = n.plain) := fun hlevels g' hc =>
    (hagree g' hc).trans ⟨fun h => (plain_of_agree bound).2 h hm hn,
      (agree_of_plain bound).2 hlevels hm hn⟩
  refine ⟨fun g' hc hequal => (plain_of_agree bound).2 ((hagree g' hc).mp hequal) hm hn, hiff, ?_⟩
  intro hlevels g' hc
  rw [hiff hlevels g' hc]
  constructor
  · rintro rfl
    exact ⟨rfl, rfl⟩
  · rintro ⟨hplain, hconventions⟩
    exact (TypeSig.ext_plain m n hplain (congrArg (· ++ []) hconventions)).1

/-- A graph of a type, a reference by its name, and a specification of arrays of each. -/
def arraysAlike : Graph :=
  ((do
    let m : ModuleId ← make .module ⟨0, .inMemory, .empty, Guid.zero, none, some [], some []⟩
    let t ← makeTypeDef .empty .empty 0
    let r ← makeTypeRef m .empty .empty (some (.module m))
    let _ ← makeTypeSpec (.wrap .szArray (.named .classType (.typeDef t)))
    let _ ← makeTypeSpec (.wrap .szArray (.named .classType (.typeRef r)))
    return ()
    : GraphM Unit).run Graph.empty).2

/-- A specification whose signature refers to types alone is a regular class. -/
theorem regular_class {s : TypeSpecId} {u : Sig} (hs : g.present s.node)
    (hu : g.specSig s = some u) (htypes : ∀ r ∈ u.refs, Shallow g r ∧ r.spec? = none) :
    g.Regular (.named .classType (.typeSpec s)) := by
  have hoccurs : ∀ {r}, g.Occurs (.named .classType (.typeSpec s)) r →
      r = .typeSpec s ∨ r ∈ u.refs := by
    intro r hr
    induction hr with
    | here h => exact .inl (List.mem_singleton.mp h)
    | within _ hu' h ih =>
      rcases ih with heq | hmem
      · obtain rfl := TypeDefOrRef.typeSpec.inj heq
        obtain rfl := Option.some.inj (hu.symm.trans hu')
        exact .inr h
      · cases (htypes _ hmem).2
  have hspec : ∀ {s'}, g.Occurs (.named .classType (.typeSpec s)) (.typeSpec s') → s' = s := by
    intro s' hs'
    rcases hoccurs hs' with heq | hmem
    · exact TypeDefOrRef.typeSpec.inj heq
    · cases (htypes _ hmem).2
  refine ⟨fun r hr => ?_, fun {r} hr => ?_, fun {s'} hs' => ?_, fun {s'} hs' hcycle => ?_⟩
  · rw [List.mem_singleton.mp hr]
    exact hs
  · rcases hoccurs hr with rfl | hmem
    · trivial
    · exact (htypes r hmem).1
  · rw [hspec hs', hu]
    rfl
  · obtain ⟨next, ⟨u', hu', hnext⟩, -⟩ := TransGen.head'_iff.mp hcycle
    rw [hspec hs'] at hu'
    obtain rfl := Option.some.inj (hu.symm.trans hu')
    cases (htypes _ hnext).2

/-- A signature that refers to nothing is regular. -/
theorem regular_of_refs {t : Sig} (h : t.refs = []) : g.Regular t := by
  have hnone : ∀ {r}, ¬g.Occurs t r := by
    intro r hr
    induction hr with
    | here hr =>
      rw [h] at hr
      cases hr
    | within _ _ _ ih => exact ih
  refine ⟨fun r hr => ?_, fun hr => absurd hr hnone, fun hs => absurd hs hnone,
    fun hs => absurd hs hnone⟩
  rw [h] at hr
  cases hr

end CompareOptions

end CliMetadata
