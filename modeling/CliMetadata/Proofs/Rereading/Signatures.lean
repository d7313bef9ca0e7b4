import CliMetadata.Proofs.Comparison.Equality
import CliMetadata.Proofs.Rereading.Lookups

/-!
# Signatures that stand for the same

A signature that takes the place of another one is made over references and specifications that are
made, and when it is made again these are others.  Two types **stand for the same**
(`TypeStands`) if they are one row, references that have been made alike, or specifications that have
been made of signatures that stand for the same; two signatures do if they are built alike from
types that do (`SigStands`).  A signature of rows stands for itself.

The signature of a specification and the type that it is about in the end stand for the same again.
-/

namespace CliMetadata

open CliMetadata.Graph Loading Stateful
open List (Forall₂)

/-! ## Standing for the same -/

/-- A specification that has been made of a signature. -/
structure Graph.Specifies (g : Graph) (s : TypeSpecId) (t : Sig) : Prop where
  known : g.Known s.key
  made : ¬s.key.IsRow
  sig : (g.get s).sig = some (some t)

mutual

/-- Two types that stand for the same, the second one in a graph of its own. -/
inductive TypeStands (g u : Graph) : TypeDefOrRef → TypeDefOrRef → Prop
  | row {r : TypeDefOrRef} (h : r.node.key.IsRow) : TypeStands g u r r
  | reference {r r' : TypeRefId} (h : (Fact.projected r r').holds g u) :
    TypeStands g u (.typeRef r) (.typeRef r')
  | specification {s s' : TypeSpecId} {t t' : Sig} (hs : g.Specifies s t) (hs' : u.Specifies s' t')
      (h : SigStands g u t t') : TypeStands g u (.typeSpec s) (.typeSpec s')

/-- Two signatures that are built alike from types that stand for the same. -/
inductive SigStands (g u : Graph) : Sig → Sig → Prop
  | leaf (l : Leaf) : SigStands g u (.leaf l) (.leaf l)
  | named (k : NamedKind) {a b : TypeDefOrRef} (h : TypeStands g u a b) :
    SigStands g u (.named k a) (.named k b)
  | param (s : ParamScope) (i : Nat) : SigStands g u (.param s i) (.param s i)
  | wrap (w : Wrapper) {a b : Sig} (h : SigStands g u a b) : SigStands g u (.wrap w a) (.wrap w b)
  | modified (k : ModifierKind) {m n : TypeDefOrRef} {a b : Sig} (hm : TypeStands g u m n)
      (h : SigStands g u a b) : SigStands g u (.modified k m a) (.modified k n b)
  | inst {a b : Sig} {as bs : List Sig} (h : SigStands g u a b) (hs : SigsStand g u as bs) :
    SigStands g u (.inst a as) (.inst b bs)
  | fnPtr (head : MethodHead) {a b : Sig} {ps qs vs ws : List Sig} (h : SigStands g u a b)
      (hp : SigsStand g u ps qs) (hv : SigsStand g u vs ws) :
    SigStands g u (.fnPtr head a ps vs) (.fnPtr head b qs ws)

/-- Two lists of signatures that stand for the same. -/
inductive SigsStand (g u : Graph) : List Sig → List Sig → Prop
  | nil : SigsStand g u [] []
  | cons {a b : Sig} {as bs : List Sig} (h : SigStands g u a b) (hs : SigsStand g u as bs) :
    SigsStand g u (a :: as) (b :: bs)

end

theorem mem_values_spec (s : TypeSpec) (v : Option Sig) :
    SlotValue.typeSig v ∈ (Recorded.pack .typeSpec s).values ↔ s.sig = some v := by
  simp [Recorded.pack, Entity.values]

theorem Graph.Specifies.perused {g g' : Graph} {s : TypeSpecId} {t : Sig} (h : g.Specifies s t)
    (k : g.Perused g') : g'.Specifies s t where
  known := h.known.mono k.built
  made := h.made
  sig := k.held mem_values_spec (.inl h.known) h.sig

section Stays

variable {g u g' u' : Graph}

mutual

/-- What stands for the same goes on doing so. -/
theorem TypeStands.stays (hg : g.Perused g') (hu : u.Rested u') :
    ∀ {a b : TypeDefOrRef}, TypeStands g u a b → TypeStands g' u' a b
  | _, _, .row h => .row h
  | _, _, .reference h => .reference ((Fact.projected _ _).stays h hg hu)
  | _, _, .specification hs hs' h =>
    .specification (hs.perused hg) (hs'.perused hu.toPerused) (SigStands.stays hg hu h)

theorem SigStands.stays (hg : g.Perused g') (hu : u.Rested u') :
    ∀ {a b : Sig}, SigStands g u a b → SigStands g' u' a b
  | _, _, .leaf l => .leaf l
  | _, _, .named k h => .named k (TypeStands.stays hg hu h)
  | _, _, .param s i => .param s i
  | _, _, .wrap w h => .wrap w (SigStands.stays hg hu h)
  | _, _, .modified k hm h => .modified k (TypeStands.stays hg hu hm) (SigStands.stays hg hu h)
  | _, _, .inst h hs => .inst (SigStands.stays hg hu h) (SigsStand.stays hg hu hs)
  | _, _, .fnPtr head h hp hv => .fnPtr head (SigStands.stays hg hu h) (SigsStand.stays hg hu hp)
    (SigsStand.stays hg hu hv)

theorem SigsStand.stays (hg : g.Perused g') (hu : u.Rested u') :
    ∀ {as bs : List Sig}, SigsStand g u as bs → SigsStand g' u' as bs
  | _, _, .nil => .nil
  | _, _, .cons h hs => .cons (SigStands.stays hg hu h) (SigsStand.stays hg hu hs)

end

end Stays

theorem sigsStand_iff {g u : Graph} : ∀ {as bs : List Sig},
    SigsStand g u as bs ↔ Forall₂ (SigStands g u) as bs
  | [], bs => by
    refine ⟨fun h => ?_, fun h => ?_⟩
    · cases h
      exact .nil
    · cases h
      exact .nil
  | a :: as, bs => by
    refine ⟨fun h => ?_, fun h => ?_⟩
    · cases h with
      | cons h hs => exact .cons h (sigsStand_iff.mp hs)
    · cases h with
      | cons h hs => exact .cons h (sigsStand_iff.mpr hs)

/-! ## What refers to rows -/

/-- Signatures, or what is made of them, that refer to rows alone. -/
def ReferToRows (rs : List TypeDefOrRef) : Prop := ∀ r ∈ rs, r.node.key.IsRow

theorem ReferToRows.append_iff {rs rs' : List TypeDefOrRef} :
    ReferToRows (rs ++ rs') ↔ ReferToRows rs ∧ ReferToRows rs' := List.forall_mem_append

theorem ReferToRows.cons_iff {r : TypeDefOrRef} {rs : List TypeDefOrRef} :
    ReferToRows (r :: rs) ↔ r.node.key.IsRow ∧ ReferToRows rs := List.forall_mem_cons

theorem ReferToRows.mem {ts : List Sig} (h : ReferToRows (TypeSig.refsAll ts)) :
    ∀ t ∈ ts, ReferToRows t.refs :=
  fun _ ht r hr => h r (TypeSig.refs_subset_all ht r hr)

section Rows

variable {g u : Graph}

mutual

/-- A signature of rows stands for itself. -/
theorem SigStands.of_rows : ∀ {t : Sig}, ReferToRows t.refs → SigStands g u t t
  | .leaf l, _ => .leaf l
  | .named k r, h => .named k (.row (h r (List.mem_singleton_self r)))
  | .param s i, _ => .param s i
  | .wrap w next, h => .wrap w (SigStands.of_rows (t := next) h)
  | .modified k m base, h => by
    obtain ⟨hm, hbase⟩ := ReferToRows.cons_iff.mp h
    exact .modified k (.row hm) (SigStands.of_rows hbase)
  | .inst generic args, h => by
    obtain ⟨hgeneric, hargs⟩ := ReferToRows.append_iff.mp h
    exact .inst (SigStands.of_rows hgeneric) (SigsStand.of_rows hargs)
  | .fnPtr head returnType params varargs, h => by
    obtain ⟨hreturn, hrest⟩ := ReferToRows.append_iff.mp h
    obtain ⟨hparams, hvarargs⟩ := ReferToRows.append_iff.mp hrest
    exact .fnPtr head (SigStands.of_rows hreturn) (SigsStand.of_rows hparams)
      (SigsStand.of_rows hvarargs)

theorem SigsStand.of_rows : ∀ {ts : List Sig}, ReferToRows (TypeSig.refsAll ts) → SigsStand g u ts ts
  | [], _ => .nil
  | t :: ts, h => by
    obtain ⟨ht, hts⟩ := ReferToRows.append_iff.mp h
    exact .cons (SigStands.of_rows ht) (SigsStand.of_rows hts)

end

end Rows

/-! ## As facts -/

namespace Fact

/-- **Two types that stand for the same.** -/
def types (a b : TypeDefOrRef) : Fact :=
  ⟨fun g u => TypeStands g u a b, fun h hg hu => h.stays hg hu⟩

/-- **Two signatures that stand for the same.** -/
def sigs (t t' : Sig) : Fact := ⟨fun g u => SigStands g u t t', fun h hg hu => h.stays hg hu⟩

/-- Two method signatures that stand for the same, but for the types after the sentinel. -/
def methodSigs (m m' : MethodSig TypeDefOrRef) : Fact :=
  ((of (m'.head = m.head)).and (sigs m.returnType m'.returnType)).and
    (forall₂ sigs m.params m'.params)

/-- **Two signatures of members that stand for the same.** -/
def signatures : Signature TypeDefOrRef → Signature TypeDefOrRef → Fact
  | .method m, .method m' => methodSigs m m'
  | .field t, .field t' => sigs t t'
  | s, s' => of (s' = s)

/-- Two specifications that have been made of signatures that stand for the same. -/
def specified (s s' : TypeSpecId) : Fact where
  holds g u := ∃ t t', g.Specifies s t ∧ u.Specifies s' t' ∧ SigStands g u t t'
  stays h hg hu := by
    obtain ⟨t, t', hs, hs', h⟩ := h
    exact ⟨t, t', hs.perused hg, hs'.perused hu.toPerused, h.stays hg hu⟩

variable {P : Fact}

theorem types_of_same {r r' : TypeRefId} (hP : P ≤ same r r') :
    P ≤ types (.typeRef r) (.typeRef r') := by
  intro g u h
  rcases hP g u h with ⟨rfl, h⟩ | h
  · exact .row h
  · exact .reference h

theorem types_typeSpec {s s' : TypeSpecId} (hP : P ≤ types (.typeSpec s) (.typeSpec s')) :
    P ≤ (of (s' = s ∧ s.key.IsRow)).or (specified s s') := by
  intro g u h
  cases hP g u h with
  | row h => exact .inl ⟨rfl, h⟩
  | specification hs hs' h => exact .inr ⟨_, _, hs, hs', h⟩

end Fact

section Cases

variable {σ α : Type} [Viewed σ] {P : Fact} {Q : α → α → Fact}

/-- Two types that stand for the same are one type, two references or two specifications. -/
theorem Again.types_elim {f f' : TypeDefOrRef → StateM σ α} (hkeeps : ∀ a, Keeps Viewed.Peruses (f a))
    (typeDef : ∀ t, t.key.IsRow → Again P (f (.typeDef t)) (f' (.typeDef t)) Q)
    (typeRef : ∀ r r', Again (P.and (.same r r')) (f (.typeRef r)) (f' (.typeRef r')) Q)
    (typeSpec : ∀ s s', Again (P.and (.types (.typeSpec s) (.typeSpec s'))) (f (.typeSpec s))
      (f' (.typeSpec s')) Q) (a b : TypeDefOrRef) : Again (P.and (.types a b)) (f a) (f' b) Q := by
  refine ⟨hkeeps a, fun ⟨hP, hab⟩ => ?_⟩
  have hab : TypeStands _ _ a b := hab
  cases hab with
  | row h =>
    cases a with
    | typeDef t => exact (typeDef t h).run hP
    | typeRef r => exact (typeRef r r).run ⟨hP, .inl ⟨rfl, h⟩⟩
    | typeSpec s => exact (typeSpec s s).run ⟨hP, .row h⟩
  | reference h => exact (typeRef _ _).run ⟨hP, .inr h⟩
  | specification hs hs' h => exact (typeSpec _ _).run ⟨hP, .specification hs hs' h⟩

/-- Two signatures that stand for the same are of one form. -/
theorem Again.sigs_elim {f f' : Sig → StateM σ α} (hkeeps : ∀ t, Keeps Viewed.Peruses (f t))
    (leaf : ∀ l, Again P (f (.leaf l)) (f' (.leaf l)) Q)
    (named : ∀ k a b, Again (P.and (.types a b)) (f (.named k a)) (f' (.named k b)) Q)
    (param : ∀ s i, Again P (f (.param s i)) (f' (.param s i)) Q)
    (wrap : ∀ w t t', Again (P.and (.sigs t t')) (f (.wrap w t)) (f' (.wrap w t')) Q)
    (modified : ∀ k m n t t', Again ((P.and (.types m n)).and (.sigs t t')) (f (.modified k m t))
      (f' (.modified k n t')) Q)
    (inst : ∀ t t' ts ts', Again ((P.and (.sigs t t')).and (.forall₂ .sigs ts ts')) (f (.inst t ts))
      (f' (.inst t' ts')) Q)
    (fnPtr : ∀ head t t' ps qs vs ws, Again (((P.and (.sigs t t')).and (.forall₂ .sigs ps qs)).and
      (.forall₂ .sigs vs ws)) (f (.fnPtr head t ps vs)) (f' (.fnPtr head t' qs ws)) Q)
    (t t' : Sig) : Again (P.and (.sigs t t')) (f t) (f' t') Q := by
  refine ⟨hkeeps t, fun ⟨hP, hsigs⟩ => ?_⟩
  have hsigs : SigStands _ _ t t' := hsigs
  cases hsigs with
  | leaf l => exact (leaf l).run hP
  | named k h => exact (named k _ _).run ⟨hP, h⟩
  | param s i => exact (param s i).run hP
  | wrap w h => exact (wrap w _ _).run ⟨hP, h⟩
  | modified k hm h => exact (modified k _ _ _ _).run ⟨⟨hP, hm⟩, h⟩
  | inst h hs => exact (inst _ _ _ _).run ⟨⟨hP, h⟩, sigsStand_iff.mp hs⟩
  | fnPtr head h hp hv =>
    exact (fnPtr head _ _ _ _ _ _).run
      ⟨⟨⟨hP, h⟩, sigsStand_iff.mp hp⟩, sigsStand_iff.mp hv⟩

end Cases

/-! ## Specifications -/

namespace TypeSpecId

variable {P : Fact} {s s' : TypeSpecId}

theorem sig_rereads (hrow : s.key.IsRow) :
    Rereads P s.sig s.sig fun t => .of (ReferToRows (optionRefs TypeSig.refs t)) :=
  (rereads_slot .typeSig (Fact.rooted_row (Fact.le_of hrow)) mem_values_spec
    (fun _ _ => rfl) s.sig_peruses).gives fun _ _ _ h _ hr => h _ (List.mem_map_of_mem hr)

/-- **The signatures of specifications that stand for the same do so, too.** -/
theorem sig_again (hP : P ≤ .types (.typeSpec s) (.typeSpec s')) :
    Again P s.sig s'.sig fun t t' => .both .sigs t t' := by
  refine .or_elim (Fact.types_typeSpec hP) (.of_fact s.sig_peruses Fact.and_right ?_) ?_
  · rintro ⟨rfl, hrow⟩
    refine Again.gives (sig_rereads hrow) fun t t' => ?_
    rintro g u ⟨rfl, hrows⟩
    cases t' with
    | none => exact .none
    | some t => exact .some (SigStands.of_rows hrows)
  · refine again_held s.sig_peruses fun h => ?_
    obtain ⟨t, t', hs, hs', h⟩ := h.2
    exact ⟨_, _, hs.sig, hs'.sig, .some h⟩

variable {g u : Graph} {t t' : Sig}

theorem next?_stands (h : SigStands g u t t') : Option.Rel (SigStands g u) t.next? t'.next? := by
  cases h with
  | leaf | param | named | fnPtr => exact .none
  | wrap w h => exact .some h
  | modified k hm h => exact .some h
  | inst h hs => exact .some h

theorem named?_stands (h : SigStands g u t t') : Option.Rel (TypeStands g u) t.named? t'.named? := by
  cases h with
  | named k h => exact .some h
  | leaf | param | wrap | modified | inst | fnPtr => exact .none

/-- What signatures that stand for the same are about behind others stands for the same. -/
theorem innermost?_stands : ∀ {n : Nat} {t t' : Sig}, SigStands g u t t' →
    Option.Rel (SigStands g u) (innermost? n t) (innermost? n t')
  | n, t, t', h => by
    have hnext := next?_stands h
    unfold innermost?
    generalize t.next? = o, t'.next? = o' at hnext
    cases hnext with
    | none => exact .some h
    | some hnext =>
      cases n with
      | zero => exact .none
      | succ n => exact innermost?_stands hnext

theorem about_stands (h : SigStands g u t t') : Option.Rel (TypeStands g u)
    ((innermost? recursionBound t).bind TypeSig.named?)
    ((innermost? recursionBound t').bind TypeSig.named?) := by
  have hinnermost := innermost?_stands (n := recursionBound) h
  generalize innermost? recursionBound t = o, innermost? recursionBound t' = o' at hinnermost
  cases hinnermost with
  | none => exact .none
  | some h => exact named?_stands h

theorem scopeTypeWithin_again : ∀ (n : Nat) {P : Fact} {t t' : Sig}, P ≤ .sigs t t' →
    Again P (scopeTypeWithin n t) (scopeTypeWithin n t') fun o o' => .both .types o o'
  | 0, _, _, _, _ => .pure Fact.both_none
  | n + 1, P, t, t', hP => by
    refine Again.under (P := P.and (.both .types
      ((innermost? recursionBound t).bind TypeSig.named?)
      ((innermost? recursionBound t').bind TypeSig.named?))) ?_
        fun g u h => ⟨h, about_stands (hP g u h)⟩
    unfold scopeTypeWithin
    generalize (innermost? recursionBound t).bind TypeSig.named? = o,
      (innermost? recursionBound t').bind TypeSig.named? = o'
    revert o o'
    refine Again.both_elim (.pure Fact.both_none) ?_
    refine Again.types_elim (fun a => ?_) (fun t ht => ?_) (fun r r' => ?_) (fun s s' => ?_)
    · cases a with
      | typeDef _ | typeRef _ => exact Keeps.pure _
      | typeSpec s =>
        refine s.sig_peruses.bind fun t => ?_
        cases t with
        | none => exact Keeps.pure _
        | some t => exact scopeTypeWithin_peruses n t
    · exact .pure (Fact.both_some fun _ _ _ => .row ht)
    · exact .pure (Fact.both_some (Fact.types_of_same Fact.and_right))
    · exact (sig_again Fact.and_right).bind_both (.pure Fact.both_none) fun _ _ =>
        scopeTypeWithin_again n Fact.and_right

theorem scopeType_again (hP : P ≤ .types (.typeSpec s) (.typeSpec s')) :
    Again P s.scopeType s'.scopeType fun o o' => .both .types o o' :=
  (sig_again hP).bind_both (.pure Fact.both_none) fun _ _ => scopeTypeWithin_again _ Fact.and_right

end TypeSpecId
end CliMetadata
