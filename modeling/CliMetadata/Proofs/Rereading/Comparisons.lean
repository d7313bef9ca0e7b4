import CliMetadata.Proofs.Rereading.Signatures

/-!
# Comparing again

Types are compared by path, and the path of a type is read off the types that enclose it.  It is the
same again **where no type that was nested in none has been taken over by one** (`Fact.calm`).  Then
a comparison of what refers to rows with something decides as before, and also if that has been made
anew: what has been made is never a row, and its signature is entered both times.
-/

namespace CliMetadata

open CliMetadata.Graph Loading Stateful

variable {P : Fact}

/-! ## Paths of types -/

namespace TypeDefId

variable {t : TypeDefId}

/-- The type that encloses a type is the same again. -/
theorem declaringType_rereads (ht : P ≤ .known t.key) (hcalm : P ≤ .calm) :
    Rereads P t.declaringType t.declaringType fun o => .maybe o fun t => .known t.key :=
  (owner_rereads fun h => ⟨.inl (ht _ _ h), hcalm _ _ h _⟩).put_into _ fun _ _ _ h t' ht' => by
    obtain ⟨o, ho, rfl⟩ := Option.map_eq_some_iff.mp (Option.mem_toList.mp ht')
    exact h o (Option.mem_toList.mpr ho)

/-- **So is the path of a type.** -/
theorem path?_rereads (ht : P ≤ .known t.key) (hcalm : P ≤ .calm) :
    Rereads P t.path? t.path? fun _ => .of True := by
  have hstep : ∀ {P : Fact} {x : TypeDefId}, P ≤ (Fact.known x.key).and .calm →
      Rereads P x.declaringType x.declaringType fun o =>
        .maybe o fun x => (Fact.known x.key).and .calm := fun hP =>
    (declaringType_rereads (fun g u h => (hP g u h).1) fun g u h => (hP g u h).2).also.gives
      fun _ g u h x hx => ⟨h.2 x hx, (hP g u h.1).2⟩
  refine (hstep fun g u h => ⟨ht g u h, hcalm g u h⟩).bind fun above => ?_
  refine (Rereads.ancestors hstep _ above Fact.and_right).bind fun walked => ?_
  refine Rereads.reads fun {g u} hP _ (hper : g.Perused u) => ⟨?_, trivial⟩
  have hlevels : (t :: walked.1).map (level u) = (t :: walked.1).map (level g) := by
    refine List.map_congr_left fun x hx => hper.typeDef_level ?_
    rcases List.mem_cons.mp hx with rfl | hx
    · exact ht _ _ hP.1.1
    · exact (hP.2 x hx).1
  exact congrArg (fun l => if walked.2 then some l.reverse else none) hlevels

end TypeDefId

namespace CompareOptions

/-! ## Comparisons -/

variable {a a' b b' : TypeDefOrRef}

theorem path?_rereads (h : P ≤ .types a a') (hcalm : P ≤ .calm) :
    Rereads P (path? a) (path? a') fun _ => .of True := by
  refine Again.under (P := (P.and .calm).and (.types a a')) ?_ fun g u hP => ⟨⟨hP, hcalm g u hP⟩, h g u hP⟩
  refine Again.types_elim within_peruses.path? (fun t ht => ?_) (fun r r' => ?_) (fun s s' => ?_) a a'
  · exact TypeDefId.path?_rereads (fun _ _ _ => ht.known) Fact.and_right
  · exact TypeRefId.path?_rereads Fact.and_right
  · exact Rereads.pure fun _ _ _ => trivial

theorem pathsEqual_rereads (ha : P ≤ .types a a') (hb : P ≤ .types b b') (hcalm : P ≤ .calm) :
    Rereads P (pathsEqual {} a b) (pathsEqual {} a' b') fun _ => .of True := by
  refine (path?_rereads ha hcalm).bind fun p => ?_
  refine (path?_rereads (Fact.before hb) (Fact.before hcalm)).bind fun q => ?_
  have hpure : ∀ {P : Fact} (b : Bool), Rereads P (pure b : GraphM Bool) (pure b) fun _ => .of True :=
    fun _ => Rereads.pure fun _ _ _ => trivial
  split
  · exact .ite (hpure _) (hpure _)
  · exact hpure _

/-- A specification of a row is another one whenever that is made anew. -/
theorem eq_iff_stands {g u : Graph} {s t t' : TypeSpecId} (hrow : s.key.IsRow)
    (h : TypeStands g u (.typeSpec t) (.typeSpec t')) : s = t ↔ s = t' := by
  cases h with
  | row _ => exact Iff.rfl
  | specification hs hs' _ =>
    constructor
    · rintro rfl
      exact absurd hrow hs.made
    · rintro rfl
      exact absurd hrow hs'.made

section Lists

variable {equal : Sig → Sig → GraphM Bool} (hkeeps : ∀ t t', Keeps Peruses (equal t t'))

/-- A signature is compared again as it was. -/
def Recompares (equal : Sig → Sig → GraphM Bool) (t : Sig) : Prop :=
  ∀ {P : Fact} {u u' : Sig}, P ≤ .calm → P ≤ .sigs u u' →
    Rereads P (equal t u) (equal t u') fun _ => .of True

/-- So are several, entry by entry. -/
theorem pairsEqual_rereads : ∀ {P : Fact} {ts : List Sig}, (∀ t ∈ ts, Recompares equal t) →
    P ≤ .calm → ∀ us us' : List Sig, Rereads (P.and (.forall₂ .sigs us us'))
      (pairsEqual equal ts us) (pairsEqual equal ts us') fun _ => .of True
  | _, [], _, _ => fun _ _ => Rereads.pure fun _ _ _ => trivial
  | P, t :: ts, h, hcalm => by
    refine Again.forall₂_elim _ _ (Rereads.pure fun _ _ _ => trivial) fun u us u' us' => ?_
    refine (h t List.mem_cons_self (Fact.before (Fact.before hcalm))
      (Fact.before Fact.and_right)).bind fun b => .ite ?_ (Rereads.pure fun _ _ _ => trivial)
    refine (pairsEqual_rereads (fun t' ht' => h t' (List.mem_cons_of_mem _ ht')) hcalm us us').under ?_
    exact fun _ _ hP => ⟨hP.1.1.1, hP.1.2⟩

include hkeeps

/-- So are lists. -/
theorem allEqual_rereads {ts us us' : List Sig} (h : ∀ t ∈ ts, Recompares equal t)
    (hcalm : P ≤ .calm) (hus : P ≤ .forall₂ .sigs us us') :
    Rereads P (allEqual equal ts us) (allEqual equal ts us') fun _ => .of True := by
  refine Again.of_fact (φ := us.length = us'.length) (within_peruses.allEqual hkeeps ts us)
    (fun g u hP => (hus g u hP).length_eq) fun hlength => ?_
  unfold allEqual
  rw [hlength]
  refine .ite ?_ (Rereads.pure fun _ _ _ => trivial)
  exact (pairsEqual_rereads h hcalm us us').under fun g u hP => ⟨hP, hus g u hP⟩

end Lists

section Steps

variable {d : Nat}

/-- A type of a row is compared again as it was, within a budget. -/
def TypesRecompare (d : Nat) : Prop :=
  ∀ {P : Fact} {a b b' : TypeDefOrRef}, a.node.key.IsRow → P ≤ .calm → P ≤ .types b b' →
    Rereads P (typesEqual {} d a b) (typesEqual {} d a b') fun _ => .of True

/-- So is a signature of rows. -/
def SigsRecompare (d : Nat) : Prop :=
  ∀ {s : Sig}, ReferToRows s.refs → Recompares (sigsEqual {} d) s

theorem rereads_bool {P : Fact} (b : Bool) :
    Rereads P (pure b : GraphM Bool) (pure b) fun _ => .of True := Rereads.pure fun _ _ _ => trivial

/-- Specifications are compared by what they specify, unless they are one. -/
theorem specsEqual_rereads (hsigs : SigsRecompare d) {t s s' : TypeSpecId} (hrow : t.key.IsRow)
    (hcalm : P ≤ .calm) (h : P ≤ .types (.typeSpec s) (.typeSpec s')) :
    Rereads P (typesEqual {} (d + 1) (.typeSpec t) (.typeSpec s))
      (typesEqual {} (d + 1) (.typeSpec t) (.typeSpec s')) fun _ => .of True := by
  refine Again.of_fact ((within_peruses.comparison {} _).1 _ _)
    (fun g u hP => eq_iff_stands hrow (h g u hP)) fun hiff => ?_
  rw [typesEqual, typesEqual]
  by_cases hs : t = s
  · rw [if_pos hs, if_pos (hiff.mp hs)]
    exact rereads_bool true
  · rw [if_neg hs, if_neg (mt hiff.mpr hs)]
    refine (TypeSpecId.sig_rereads hrow).bind fun sig => ?_
    refine (TypeSpecId.sig_again (Fact.before h)).bind_both ?_ fun u u' => ?_
    · cases sig with
      | none | some _ => exact rereads_bool false
    · cases sig with
      | none => exact rereads_bool false
      | some sig =>
        refine Again.of_fact (φ := ReferToRows sig.refs) ((within_peruses.comparison {} d).2 _ _)
          (fun g u hP => hP.1.2) fun hrows => ?_
        exact hsigs hrows (Fact.before (Fact.before hcalm)) Fact.and_right

theorem typesEqual_rereads (hsigs : SigsRecompare d) : TypesRecompare (d + 1) := by
  intro P a b b' hrow hcalm hb
  suffices hall : ∀ c c', Rereads (P.and (.types c c')) (typesEqual {} (d + 1) a c)
      (typesEqual {} (d + 1) a c') fun _ => .of True from
    (hall b b').under fun g u hP => ⟨hP, hb g u hP⟩
  refine Again.types_elim ((within_peruses.comparison {} _).1 _) (fun t ht => ?_) (fun r r' => ?_)
    fun s s' => ?_
  · cases a with
    | typeDef _ | typeRef _ =>
      exact pathsEqual_rereads (fun _ _ _ => .row hrow) (fun _ _ _ => .row ht) hcalm
    | typeSpec _ => exact rereads_bool false
  · cases a with
    | typeDef _ | typeRef _ =>
      exact pathsEqual_rereads (fun _ _ _ => .row hrow) (Fact.types_of_same Fact.and_right)
        (Fact.before hcalm)
    | typeSpec _ => exact rereads_bool false
  · cases a with
    | typeDef _ | typeRef _ => exact rereads_bool false
    | typeSpec t => exact specsEqual_rereads hsigs hrow (Fact.before hcalm) Fact.and_right

theorem sigsEqual_rereads (htypes : TypesRecompare d) (hsigs : SigsRecompare d) :
    SigsRecompare (d + 1) := by
  intro s hs P t t' hcalm ht
  have hall : ∀ {ts us us' : List Sig} {P : Fact}, ReferToRows (TypeSig.refsAll ts) → P ≤ .calm →
      P ≤ .forall₂ .sigs us us' → Rereads P (allEqual (sigsEqual {} d) ts us)
        (allEqual (sigsEqual {} d) ts us') fun _ => .of True := fun hts hcalm h =>
    allEqual_rereads (within_peruses.comparison {} d).2
      (fun t ht => hsigs (hts.mem t ht)) hcalm h
  refine Again.under (P := P.and (.sigs t t')) ?_ fun g u hP => ⟨hP, ht g u hP⟩
  refine Again.sigs_elim ((within_peruses.comparison {} _).2 _) (fun l => ?_) (fun k a b => ?_)
    (fun v i => ?_) (fun w u u' => ?_) (fun k m n u u' => ?_) (fun u u' us us' => ?_)
    (fun head u u' ps qs vs ws => ?_) t t'
  · cases s with
    | leaf m => exact rereads_bool _
    | named | param | wrap | modified | inst | fnPtr => exact rereads_bool false
  · cases s with
    | named l r =>
      have hr := hs r (List.mem_singleton_self r)
      exact .ite (htypes hr (Fact.before hcalm) Fact.and_right) (rereads_bool false)
    | leaf | param | wrap | modified | inst | fnPtr => exact rereads_bool false
  · cases s with
    | param m => exact rereads_bool _
    | leaf | named | wrap | modified | inst | fnPtr => exact rereads_bool false
  · cases s with
    | wrap v next =>
      exact .ite (hsigs (s := next) hs (Fact.before hcalm) Fact.and_right) (rereads_bool false)
    | leaf | named | param | modified | inst | fnPtr => exact rereads_bool false
  · cases s with
    | modified l r base =>
      obtain ⟨hm, hbase⟩ := ReferToRows.cons_iff.mp hs
      have hcalm' := Fact.before (Q := .sigs u u') (Fact.before (Q := .types m n) hcalm)
      refine .ite ((htypes hm hcalm' (Fact.before Fact.and_right)).bind fun _ => ?_) (rereads_bool false)
      exact .ite (hsigs hbase (Fact.before hcalm') (Fact.before Fact.and_right)) (rereads_bool false)
    | leaf | named | param | wrap | inst | fnPtr => exact rereads_bool false
  · cases s with
    | inst generic args =>
      obtain ⟨hgeneric, hargs⟩ := ReferToRows.append_iff.mp hs
      have hcalm' := Fact.before (Q := .forall₂ .sigs us us') (Fact.before (Q := .sigs u u') hcalm)
      refine (hsigs hgeneric hcalm' (Fact.before Fact.and_right)).bind fun _ => ?_
      exact .ite (hall hargs (Fact.before hcalm') (Fact.before Fact.and_right)) (rereads_bool false)
    | leaf | named | param | wrap | modified | fnPtr => exact rereads_bool false
  · cases s with
    | fnPtr h returnType params varargs =>
      obtain ⟨hreturn, hrest⟩ := ReferToRows.append_iff.mp hs
      obtain ⟨hparams, -⟩ := ReferToRows.append_iff.mp hrest
      have hcalm' := Fact.before (Q := .forall₂ .sigs vs ws) (Fact.before (Q := .forall₂ .sigs ps qs)
        (Fact.before (Q := .sigs u u') hcalm))
      refine .ite ((hsigs hreturn hcalm' (Fact.before (Fact.before Fact.and_right))).bind
        fun _ => .ite ?_ (rereads_bool false)) (rereads_bool false)
      exact (hall hparams (Fact.before hcalm') (Fact.before (Fact.before Fact.and_right))).bind
        fun _ => .ite (rereads_bool true) (rereads_bool false)
    | leaf | named | param | wrap | modified | inst => exact rereads_bool false

/-- **What refers to rows is compared again as it was**, with what is there or has been made anew. -/
theorem comparison_rereads : ∀ d : Nat, TypesRecompare d ∧ SigsRecompare d
  | 0 => ⟨fun _ _ _ => rereads_bool false, fun _ _ _ _ _ _ => rereads_bool false⟩
  | d + 1 => by
    obtain ⟨htypes, hsigs⟩ := comparison_rereads d
    exact ⟨typesEqual_rereads hsigs, sigsEqual_rereads htypes hsigs⟩

end Steps

theorem equalSigs_rereads {s t t' : Sig} (hs : ReferToRows s.refs) (hcalm : P ≤ .calm)
    (h : P ≤ .sigs t t') :
    Rereads P (equalSigs {} s t) (equalSigs {} s t') fun _ => .of True :=
  (comparison_rereads recursionBound).2 hs hcalm h

/-- **A method signature of rows is compared again as it was.** -/
theorem equalMethodSigs_rereads {m n n' : MethodSig TypeDefOrRef} (hm : ReferToRows m.refs)
    (hcalm : P ≤ .calm) (h : P ≤ .methodSigs n n') :
    Rereads P (equalMethodSigs {} m n) (equalMethodSigs {} m n') fun _ => .of True := by
  obtain ⟨hreturn, hrest⟩ := ReferToRows.append_iff.mp hm
  obtain ⟨hparams, -⟩ := ReferToRows.append_iff.mp hrest
  refine Again.of_fact (φ := n'.head = n.head) (within_peruses.equalMethodSigs _ _ _)
    (fun g u hP => (h g u hP).1.1) fun hhead => ?_
  unfold equalMethodSigs
  rw [hhead]
  refine .ite (rereads_bool false) ?_
  refine (equalSigs_rereads hreturn hcalm fun g u hP => (h g u hP).1.2).bind fun _ => ?_
  refine .ite (rereads_bool false) ?_
  refine (allEqual_rereads (within_peruses.equalSigs _) (fun t ht => ?_) (Fact.before hcalm)
    (Fact.before fun g u hP => (h g u hP).2)).bind fun _ => .ite (rereads_bool false) (rereads_bool true)
  exact fun hcalm h => equalSigs_rereads (hparams.mem t ht) hcalm h

end CompareOptions
end CliMetadata
