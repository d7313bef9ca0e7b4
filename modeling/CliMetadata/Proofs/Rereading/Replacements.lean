import CliMetadata.Proofs.Rereading.Signatures

/-!
# Replacing again

A reference is replaced by one that is made for the purpose, over an assembly reference that is made
for it, and a signature by one over specifications that are made.  When the same is replaced again,
**what takes its place stands for the same as what took its place before**
(`Projection.typeRef_again`, `Projection.sig_again`, `Projection.memberRef_again`): whether it is
replaced, and by what, is told from rows.
-/

namespace CliMetadata

open CliMetadata.Graph Loading Stateful
open List (Forall₂)

variable {P : Fact}

/-! ## Making -/

section Making

variable {k : Kind} {ρ : Type} [Recorded k ρ] [Recorded.Lawful k] {r r' : ρ}

/-- The kinds of what is made in the course of replacing. -/
abbrev Kind.Replacing (k : Kind) : Prop := k ∈ [Kind.typeRef, .typeSpec, .memberRef, .assemblyRef]

/-- An entity that has been made in memory. -/
structure Graph.Made (g : Graph) (id : Id k) (r : ρ) : Prop where
  known : g.Known id.key
  made : ¬id.key.IsRow
  get : g.get id = r

omit [Recorded.Lawful k] in
/-- What is in no container and contains nothing changes none of them when it settles. -/
theorem settle_eq (hk : k.Replacing) (id : Id k) (g : Graph) :
    (settle id.node g).entities = g.entities ∧ (settle id.node g).owners = g.owners ∧
      (settle id.node g).built = g.built := by
  simp only [Kind.Replacing, List.mem_cons, List.not_mem_nil, or_false] at hk
  rcases hk with rfl | rfl | rfl | rfl <;> exact ⟨rfl, rfl, rfl⟩

omit [Recorded.Lawful k] in
theorem make_made (hk : k.Replacing) (r : ρ) (g : Graph) :
    ((make k r).run g).2.Made ((make k r).run g).1 r := by
  let id : Id k := ⟨.built g.built⟩
  obtain ⟨hentities, -, hbuilt⟩ := settle_eq hk id (g.grow k r)
  refine ⟨?_, fun h => h, ?_⟩
  · show g.built < (settle id.node (g.grow k r)).built
    rw [hbuilt]
    exact Nat.lt_succ_self _
  · show (settle id.node (g.grow k r)).get id = r
    rw [get_congr id (by rw [hentities]) (loader?_of_eq hentities)]
    exact get_put id r

omit [Recorded.Lawful k] in
/-- Making takes nothing over. -/
theorem noted_make (hk : k.Replacing) (r : ρ) {g : Graph} {e : Edge} {c : Key} (hc : g.Certain e c) :
    ((make k r).run g).2.noted e c = g.noted e c := by
  let id : Id k := ⟨.built g.built⟩
  obtain ⟨hentities, howners, -⟩ := settle_eq hk id (g.grow k r)
  have hmodule : k ≠ .module := by
    rintro rfl
    simp [Kind.Replacing] at hk
  refine (noted_of_eq hentities howners e c).trans (noted_grow (loader?_put hmodule _ r) ?_)
  rintro ⟨⟩
  exact hc.elim (Nat.lt_irrefl _) fun he => hmodule (congrArg Edge.childKind he)

theorem make_rests (hk : k.Replacing) (r : ρ)
    (hvalues : k = .assemblyRef → (Recorded.pack k r).values = []) : Keeps Rests (make k r) :=
  fun g hg => ⟨(make_peruses hk r hvalues g hg).1, (make_peruses hk r hvalues g hg).2,
    noted_make hk r⟩

/-- **What is made of two things is related by what is told from them.** -/
theorem again_make (hk : k.Replacing)
    (hvalues : ∀ r : ρ, k = .assemblyRef → (Recorded.pack k r).values = []) {Q : Id k → Id k → Fact}
    (h : ∀ {g u : Graph} {id id'}, P.holds g u → g.Made id r → u.Made id' r' → (Q id id').holds g u) :
    Again P (make k r) (make k r') Q := by
  refine .of_runs (make_peruses hk r (hvalues r)) fun {g u} hP hg hu _ => ?_
  have hrests := make_rests hk r' (hvalues r') u hu
  exact ⟨hrests, h (P.stays hP (make_peruses hk r (hvalues r) g hg).2 hrests.2) (make_made hk r g)
    (make_made hk r' u)⟩

end Making

theorem makeAssemblyRef_again (identity : AssemblyIdentity) :
    Again P (makeAssemblyRef identity 0) (makeAssemblyRef identity 0) .contract := by
  have hplain : ∀ key : Bool, (AssemblyFlags.withKey key 0 &&& AssemblyFlags.contentMask ==
      AssemblyFlags.windowsRuntime) = false := by decide
  refine again_make (by decide) (fun _ _ => rfl) fun _ ha ha' =>
    ⟨_, ⟨ha.known, rfl, ?_⟩, ha'.known, ?_, ?_⟩
  · rw [ha.get]
    exact hplain _
  · rw [ha'.get, ha.get]
  · rw [ha'.get]
    exact hplain _

theorem makeTypeRef_again {m : ModuleId} (hm : P ≤ .alive m.node) (space name : Name)
    {a a' : AssemblyRefId} (ha : P ≤ .contract a a') :
    Again P (makeTypeRef m space name (some (.assemblyRef a)))
      (makeTypeRef m space name (some (.assemblyRef a'))) .projected := by
  refine again_make (k := .typeRef) (by decide) (fun _ h => by cases h) fun {g u r r'} hP hr hr' => ?_
  obtain ⟨i, hi, hi'⟩ := ha g u hP
  refine ⟨⟨m, (space, name), i⟩, hm g u hP, ⟨hr.known, ?_, ?_, a, ?_, hi⟩, hr'.known, ?_, ?_, a', ?_, hi'⟩
  · rw [hr.get]
  · rw [TypeRefId.level, hr.get]
  · rw [hr.get]
  · rw [hr'.get]
  · rw [TypeRefId.level, hr'.get]
  · rw [hr'.get]

theorem makeTypeSpec_again {t t' : Sig} (h : P ≤ .sigs t t') :
    Again P (makeTypeSpec t) (makeTypeSpec t') fun s s' => .types (.typeSpec s) (.typeSpec s') := by
  refine again_make (k := .typeSpec) (by decide) (fun _ h => by cases h) fun {g u s s'} hP hs hs' => ?_
  refine .specification ⟨hs.known, hs.made, ?_⟩ ⟨hs'.known, hs'.made, ?_⟩ (h g u hP)
  · rw [hs.get]
  · rw [hs'.get]

/-! ## Types -/

namespace Projection

/-- What a reference to an assembly is to be replaced by, told from the two. -/
def mappingIn (r : TypeRefId) (a : AssemblyRefId) : GraphM (Option Mapping) := get >>= fun g =>
  if (g.get a).isWindowsRuntime then pure (Mapping.find? (g.get r).space (g.get r).name)
  else pure none

theorem mappingIn_peruses (r : TypeRefId) (a : AssemblyRefId) : Keeps Peruses (mappingIn r a) :=
  Keeps.get.bind fun _ => Keeps.ite (Keeps.pure _) (Keeps.pure _)

theorem mappingIn_rereads {r r' : TypeRefId} {a a' : AssemblyRefId} (hr : P ≤ .same r r')
    (ha : ∀ {g u : Graph}, P.holds g u → g.Perused u →
      (u.get a').isWindowsRuntime = (g.get a).isWindowsRuntime) :
    Rereads P (mappingIn r a) (mappingIn r' a') fun _ => .of True := by
  refine Rereads.look (R := fun _ => .of True) (fun g => ((g.get a).isWindowsRuntime, r.level g))
    (fun g => ((g.get a').isWindowsRuntime, r'.level g))
    (fun b => if b.1 then pure (Mapping.find? b.2.1 b.2.2) else pure none)
    (fun b => if b.1 then pure (Mapping.find? b.2.1 b.2.2) else pure none)
    (fun {g u} hP _ (hper : g.Perused u) => ⟨?_, trivial⟩) fun b => ?_
  · exact congrArg₂ Prod.mk (ha hP hper) (hper.same_level (hr _ _ hP))
  · exact .ite (Rereads.pure fun _ _ _ => trivial) (Rereads.pure fun _ _ _ => trivial)

/-- What a reference of a scope is to be replaced by. -/
def mappingAt (r : TypeRefId) : Option ResolutionScope → GraphM (Option Mapping)
  | some (.assemblyRef a) => mappingIn r a
  | _ => return none

theorem mappingOf_eq (r : TypeRefId) : mappingOf r = r.scope >>= mappingAt r := by
  refine bind_congr fun v => ?_
  rcases v with _ | (_ | _ | _ | _) <;> rfl

theorem mappingAt_peruses (r : TypeRefId) (v : Option ResolutionScope) :
    Keeps Peruses (mappingAt r v) := by
  unfold mappingAt
  split
  · exact mappingIn_peruses r _
  · exact Keeps.pure _

/-- **What a reference is to be replaced by is the same again.** -/
theorem mappingOf_rereads {r r' : TypeRefId} (hr : P ≤ .same r r') :
    Rereads P (mappingOf r) (mappingOf r') fun _ => .of True := by
  rw [mappingOf_eq, mappingOf_eq]
  refine (TypeRefId.scope_again hr).bind fun v v' => ?_
  have hkeeps := mappingAt_peruses r v
  refine .or_elim Fact.and_right (.of_fact hkeeps (fun _ _ h => h.2.1.2) ?_) (.of_fact hkeeps
    (φ := ∃ a a', v = some (.assemblyRef a) ∧ v' = some (.assemblyRef a')) ?_ ?_)
  · rintro rfl
    rcases v' with _ | (_ | _ | a | _)
    · exact Rereads.pure fun _ _ _ => trivial
    · exact Rereads.pure fun _ _ _ => trivial
    · exact Rereads.pure fun _ _ _ => trivial
    · refine mappingIn_rereads (Fact.before (Fact.before hr)) fun hP hper => ?_
      have hrow : a.key.IsRow := hP.2.2.1 _ List.mem_cons_self
      rw [hper.assemblyRef hrow.known]
    · exact Rereads.pure fun _ _ _ => trivial
  · rintro g u ⟨_, a, a', hv, hv', _⟩
    exact ⟨a, a', hv, hv'⟩
  · rintro ⟨a, a', rfl, rfl⟩
    refine mappingIn_rereads (Fact.before (Fact.before hr)) fun hP _ => ?_
    obtain ⟨_, _, ha, ha', i, h, h'⟩ := hP.2
    cases ha
    cases ha'
    exact h'.plain.trans h.plain.symm

/-- **What takes the place of a reference is made alike again.** -/
theorem typeRef_again {r r' : TypeRefId} (hP : P ≤ .same r r') :
    Again P (typeRef r) (typeRef r') fun o o' => .both .projected o o' := by
  refine (mappingOf_rereads hP).bind fun m => ?_
  cases m with
  | none => exact .pure Fact.both_none
  | some m =>
    refine (TypeRefId.module_rereads (Fact.before hP)).bind_some (.pure Fact.both_none)
      fun module => ?_
    refine (makeAssemblyRef_again m.assembly.identity).bind fun a a' => ?_
    refine Again.map ?_ fun r r' => Fact.both_some (Fact.le_refl (.projected r r'))
    exact makeTypeRef_again (Fact.before Fact.and_right) _ _ Fact.and_right

/-! ## Signatures -/

theorem getD_stands {α : Type} {R : α → α → Prop} {o o' : Option α} (h : Option.Rel R o o')
    {x y : α} (hxy : R x y) : R (o.getD x) (o'.getD y) := by
  cases h with
  | none => exact hxy
  | some h => exact h

theorem isNone_rel {α : Type} {R : α → α → Prop} {o o' : Option α} (h : Option.Rel R o o') :
    o'.isNone = o.isNone := by
  cases h <;> rfl

section Lists

variable {α : Type} {S : α → α → Prop} {os os' : List (Option α)} {xs : List α}

theorem all_isNone (h : Forall₂ (Option.Rel S) os os') :
    os'.all Option.isNone = os.all Option.isNone := by
  induction h with
  | nil => rfl
  | cons h _ ih => rw [List.all_cons, List.all_cons, isNone_rel h, ih]

/-- Lists that are replaced where something takes the place of an entry. -/
theorem replaced_stands (h : Forall₂ (Option.Rel S) os os') (hxs : ∀ x ∈ xs, S x x) :
    Forall₂ S ((os.zip xs).map fun p => p.1.getD p.2) ((os'.zip xs).map fun p => p.1.getD p.2) := by
  induction h generalizing xs with
  | nil => exact .nil
  | cons h _ ih =>
    cases xs with
    | nil => exact .nil
    | cons x xs =>
      obtain ⟨hx, hxs⟩ := List.forall_mem_cons.mp hxs
      exact .cons (getD_stands h hx) (ih hxs)

end Lists

/-- What takes the place of the entries of a list stands for the same again. -/
theorem all_again {replace : Sig → GraphM (Option Sig)} {ts : List Sig}
    (hts : ReferToRows (TypeSig.refsAll ts))
    (h : ∀ t ∈ ts, Again P (replace t) (replace t) fun o o' => .both .sigs o o') :
    Again P (all replace ts) (all replace ts) fun o o' => .both (.forall₂ .sigs) o o' := by
  refine (Again.mapM h).bind fun os os' => ?_
  refine Again.of_fact (φ := os'.all Option.isNone = os.all Option.isNone)
    (Keeps.ite (Keeps.pure _) (Keeps.pure _)) (fun g u hP => all_isNone hP.2) fun hnone => ?_
  rw [hnone]
  refine .ite (.pure Fact.both_none) (.pure (Fact.both_some fun g u hP => ?_))
  exact replaced_stands hP.2 fun t ht => .of_rows (hts.mem t ht)

/-- What takes the place of a type of a row stands for the same again. -/
theorem typeWith_again {replace : Sig → GraphM (Option Sig)} {r : TypeDefOrRef}
    (hrow : r.node.key.IsRow) (h : ∀ {P : Fact} {t : Sig}, P ≤ .of (ReferToRows t.refs) →
      Again P (replace t) (replace t) fun o o' => .both .sigs o o') :
    Again P (typeWith replace r) (typeWith replace r) fun o o' => .both .types o o' := by
  cases r with
  | typeDef t => exact .pure Fact.both_none
  | typeRef r =>
    have hreference : ∀ r r', Fact.projected r r' ≤ .types (.typeRef r) (.typeRef r') :=
      fun _ _ _ _ h => .reference h
    exact (typeRef_again fun _ _ _ => .inl ⟨rfl, hrow⟩).put_into _ (Fact.both_map hreference)
  | typeSpec s =>
    refine (TypeSpecId.sig_rereads hrow).bind fun t => ?_
    cases t with
    | none => exact .pure Fact.both_none
    | some t =>
      refine (h Fact.and_right).bind_both (.pure Fact.both_none) fun t t' => ?_
      exact (makeTypeSpec_again Fact.and_right).put_into _ fun _ _ => Fact.both_some (Fact.le_refl _)

/-- Two parts are put together from what takes their places, if anything does. -/
theorem either_again {α β γ : Type} {A : α → α → Fact} {B : β → β → Fact} {C : γ → γ → Fact}
    {x : GraphM (Option α)} {y : GraphM (Option β)} {a₀ : α} {b₀ : β} (f : α → β → γ)
    (hx : Again P x x fun o o' => .both A o o')
    (hy : ∀ {P : Fact}, Again P y y fun o o' => .both B o o') (ha : P ≤ A a₀ a₀) (hb : P ≤ B b₀ b₀)
    (hf : ∀ a a' b b', (A a a').and (B b b') ≤ C (f a b) (f a' b')) :
    Again P
      (do
        let a ← x
        let b ← y
        if a.isNone && b.isNone then return none else return some (f (a.getD a₀) (b.getD b₀)))
      (do
        let a ← x
        let b ← y
        if a.isNone && b.isNone then return none else return some (f (a.getD a₀) (b.getD b₀)))
      fun o o' => .both C o o' := by
  refine hx.bind fun a a' => hy.bind fun b b' => ?_
  refine Again.of_fact (φ := (a'.isNone && b'.isNone) = (a.isNone && b.isNone))
    (Keeps.ite (Keeps.pure _) (Keeps.pure _))
    (fun g u hP => congrArg₂ _ (isNone_rel hP.1.2) (isNone_rel hP.2)) fun hnone => ?_
  rw [hnone]
  refine .ite (.pure Fact.both_none) (.pure (Fact.both_some fun g u hP => hf _ _ _ _ g u ⟨?_, ?_⟩))
  · exact getD_stands (R := fun a a' => (A a a').holds g u) hP.1.2 (ha g u hP.1.1)
  · exact getD_stands (R := fun b b' => (B b b').holds g u) hP.2 (hb g u hP.1.1)

/-- **What takes the place of a signature of rows stands for the same again.** -/
theorem sig_again : ∀ (d : Nat) {P : Fact} {t : Sig}, P ≤ .of (ReferToRows t.refs) →
    Again P (sig d t) (sig d t) fun o o' => .both .sigs o o'
  | 0, _, _, _ => .pure Fact.both_none
  | d + 1, P, t, ht => by
    refine .of_fact (sig_peruses (d + 1) t) ht fun hrows => ?_
    have hnext : ∀ {P : Fact} {t : Sig}, ReferToRows t.refs →
        Again P (sig d t) (sig d t) fun o o' => .both .sigs o o' := fun h => sig_again d (Fact.le_of h)
    have hall : ∀ {P : Fact} {ts : List Sig}, ReferToRows (TypeSig.refsAll ts) →
        Again P (all (sig d) ts) (all (sig d) ts) fun o o' => .both (.forall₂ .sigs) o o' :=
      fun h => all_again h fun t ht => hnext (h.mem t ht)
    cases t with
    | leaf l => exact .pure Fact.both_none
    | param s i => exact .pure Fact.both_none
    | named k r =>
      have hnamed : ∀ r r', Fact.types r r' ≤ .sigs (.named k r) (.named k r') :=
        fun _ _ _ _ h => .named k h
      exact (typeWith_again (hrows r (List.mem_singleton_self r)) (sig_again d)).put_into _
        (Fact.both_map hnamed)
    | wrap w next =>
      have hwrap : ∀ w t t', Fact.sigs t t' ≤ .sigs (.wrap w t) (.wrap w t') :=
        fun w _ _ _ _ h => .wrap w h
      cases w with
      | valueArray _ | module _ => exact .pure Fact.both_none
      | ptr | byRef | szArray | pinned | array _ _ =>
        exact (hnext (t := next) hrows).put_into _ (Fact.both_map (hwrap _))
    | modified k m base =>
      obtain ⟨hm, hbase⟩ := ReferToRows.cons_iff.mp hrows
      have hmodified : ∀ t t', Fact.sigs t t' ≤ .sigs (.modified k m t) (.modified k m t') :=
        fun _ _ _ _ h => .modified k (.row hm) h
      exact (hnext hbase).put_into _ (Fact.both_map hmodified)
    | inst generic args =>
      obtain ⟨hgeneric, hargs⟩ := ReferToRows.append_iff.mp hrows
      refine either_again (C := .sigs) TypeSig.inst (hnext hgeneric) (hall hargs)
        (fun _ _ _ => .of_rows hgeneric) (fun _ _ _ => sigsStand_iff.mp (.of_rows hargs))
        fun t t' ts ts' g u h => ?_
      exact SigStands.inst h.1 (sigsStand_iff.mpr h.2)
    | fnPtr head returnType params varargs =>
      obtain ⟨hreturn, hrest⟩ := ReferToRows.append_iff.mp hrows
      obtain ⟨hparams, hvarargs⟩ := ReferToRows.append_iff.mp hrest
      refine either_again (C := .sigs) (fun t ts => TypeSig.fnPtr head t ts varargs)
        (hnext hreturn) (hall hparams) (fun _ _ _ => .of_rows hreturn) (fun _ _ _ => sigsStand_iff.mp (.of_rows hparams))
        fun t t' ts ts' g u h => ?_
      exact SigStands.fnPtr head h.1 (sigsStand_iff.mpr h.2) (.of_rows hvarargs)

/-- So does what takes the place of a method signature. -/
theorem methodSig_again (d : Nat) {m : MethodSig TypeDefOrRef} (hm : ReferToRows m.refs) :
    Again P (methodSig d m) (methodSig d m) fun o o' => .both .methodSigs o o' := by
  obtain ⟨hreturn, hrest⟩ := ReferToRows.append_iff.mp hm
  obtain ⟨hparams, -⟩ := ReferToRows.append_iff.mp hrest
  refine either_again (C := .methodSigs) (fun t ts => MethodSig.mk m.head t ts m.varargs)
    (sig_again d (Fact.le_of hreturn))
    (all_again hparams fun t ht => sig_again d (Fact.le_of (hparams.mem t ht)))
    (fun _ _ _ => .of_rows hreturn) (fun _ _ _ => sigsStand_iff.mp (.of_rows hparams))
    fun t t' ts ts' g u h => ?_
  exact ⟨⟨rfl, h.1⟩, h.2⟩

theorem signature_again {s : Signature TypeDefOrRef} (hs : ReferToRows s.refs) :
    Again P (signature s) (signature s) fun o o' => .both .signatures o o' := by
  cases s with
  | method m =>
    have hmethod : ∀ m m', Fact.methodSigs m m' ≤ .signatures (.method m) (.method m') :=
      fun _ _ => Fact.le_refl _
    exact (methodSig_again _ hs).put_into _ (Fact.both_map hmethod)
  | field t =>
    have hfield : ∀ t t', Fact.sigs t t' ≤ .signatures (.field t) (.field t') :=
      fun _ _ => Fact.le_refl _
    exact (sig_again _ (Fact.le_of hs)).put_into _ (Fact.both_map hfield)
  | property _ | locals _ | instantiation _ => exact .pure Fact.both_none

end Projection

/-! ## References to members -/

/-- A reference to a member that has been made. -/
structure Graph.Recalls (g : Graph) (m : MemberRefId) (module : ModuleId) (name : Name)
    (p : Option MemberParent) (s : Option (Signature TypeDefOrRef)) : Prop where
  known : g.Known m.key
  module : (g.get m).module = module
  name : (g.get m).name = name
  parent : (g.get m).parent = some p
  sig : (g.get m).sig = some s

namespace MemberRefId

theorem mem_values_parent (r : MemberRef) (v : Option MemberParent) :
    SlotValue.parent v ∈ (Recorded.pack .memberRef r).values ↔ r.parent = some v := by
  simp [Recorded.pack, Entity.values]

theorem mem_values_sig (r : MemberRef) (v : Option (Signature TypeDefOrRef)) :
    SlotValue.signature v ∈ (Recorded.pack .memberRef r).values ↔ r.sig = some v := by
  simp [Recorded.pack, Entity.values]

end MemberRefId

namespace Graph

variable {g g' : Graph} {m : MemberRefId}

theorem Perused.memberRef_module (h : g.Perused g') (hm : g.Known m.key) :
    (g'.get m).module = (g.get m).module :=
  h.column (f := MemberRef.module) (.inl hm) fun r r' hr => by
    cases r; cases r'; simp_all [Recorded.pack, Entity.bare]

theorem Perused.memberRef_name (h : g.Perused g') (hm : g.Known m.key) :
    (g'.get m).name = (g.get m).name :=
  h.column (f := MemberRef.name) (.inl hm) fun r r' hr => by
    cases r; cases r'; simp_all [Recorded.pack, Entity.bare]

theorem Recalls.perused {module : ModuleId} {name : Name} {p : Option MemberParent}
    {s : Option (Signature TypeDefOrRef)} (h : g.Recalls m module name p s) (k : g.Perused g') :
    g'.Recalls m module name p s where
  known := h.known.mono k.built
  module := (k.memberRef_module h.known).trans h.module
  name := (k.memberRef_name h.known).trans h.name
  parent := k.held MemberRefId.mem_values_parent (.inl h.known) h.parent
  sig := k.held MemberRefId.mem_values_sig (.inl h.known) h.sig

end Graph

namespace Fact

/-- Two parents of members that stand for the same. -/
def parents : MemberParent → MemberParent → Fact
  | .typeRef r, .typeRef r' => same r r'
  | .typeSpec s, .typeSpec s' => types (.typeSpec s) (.typeSpec s')
  | p, p' => of (p' = p ∧ p.node.key.IsRow)

theorem parents_row {P : Fact} {p : MemberParent} (h : p.node.key.IsRow) : P ≤ parents p p := by
  cases p with
  | typeRef r => exact fun _ _ _ => .inl ⟨rfl, h⟩
  | typeSpec s => exact fun _ _ _ => .row h
  | typeDef _ | moduleRef _ | methodDef _ => exact fun _ _ _ => ⟨rfl, h⟩

theorem signatures_row {P : Fact} {s : Signature TypeDefOrRef} (h : ReferToRows s.refs) :
    P ≤ signatures s s := by
  cases s with
  | method m =>
    obtain ⟨hreturn, hrest⟩ := ReferToRows.append_iff.mp h
    obtain ⟨hparams, -⟩ := ReferToRows.append_iff.mp hrest
    exact fun _ _ _ => ⟨⟨rfl, .of_rows hreturn⟩, sigsStand_iff.mp (.of_rows hparams)⟩
  | field t => exact fun _ _ _ => SigStands.of_rows h
  | property _ | locals _ | instantiation _ => exact fun _ _ _ => rfl

/-- **Two references to members that have been made alike**, for a module that exists. -/
def recalled (m m' : MemberRefId) : Fact where
  holds g u := ∃ module name p p' s s', g.alive module.node ∧ g.Recalls m module name p s ∧
    u.Recalls m' module name p' s' ∧ (both parents p p').holds g u ∧ (both signatures s s').holds g u
  stays h hg hu := by
    obtain ⟨module, name, p, p', s, s', halive, hm, hm', hp, hs⟩ := h
    exact ⟨module, name, p, p', s, s', hg.alive halive, hm.perused hg, hm'.perused hu.toPerused,
      (both parents p p').stays hp hg hu, (both signatures s s').stays hs hg hu⟩

/-- **Two references to members that stand for the same**: one row, or two that have been made
alike. -/
def sameMember (m m' : MemberRefId) : Fact := (of (m' = m ∧ m.key.IsRow)).or (recalled m m')

end Fact

theorem makeMemberRef_again {m : ModuleId} (hm : P ≤ .alive m.node) (name : Name)
    {p p' : Option MemberParent} {s s' : Option (Signature TypeDefOrRef)} (hp : P ≤ .both .parents p p')
    (hs : P ≤ .both .signatures s s') :
    Again P (makeMemberRef m name p s) (makeMemberRef m name p' s') .recalled := by
  refine again_make (k := .memberRef) (by decide) (fun _ h => by cases h) fun {g u r r'} hP hr hr' => ?_
  refine ⟨m, name, p, p', s, s', hm g u hP, ⟨hr.known, ?_, ?_, ?_, ?_⟩, ⟨hr'.known, ?_, ?_, ?_, ?_⟩,
    hp g u hP, hs g u hP⟩
  all_goals first | rw [hr.get] | rw [hr'.get]

namespace Graph.Perused

variable {g u : Graph} (h : g.Perused u) {m m' : MemberRefId}

include h

/-- References to members that stand for the same have one name. -/
theorem sameMember_name (hm : (Fact.sameMember m m').holds g u) :
    (u.get m').name = (g.get m).name := by
  rcases hm with ⟨rfl, hrow⟩ | ⟨_, _, _, _, _, _, -, hm, hm', -, -⟩
  · exact h.memberRef_name hrow.known
  · exact hm'.name.trans hm.name.symm

/-- Each belongs to the module that the other one belongs to. -/
theorem sameMember_module (hg : g.Grounded) (hm : (Fact.sameMember m m').holds g u) :
    u.upgrade (u.get m').module = g.upgrade (g.get m).module := by
  rcases hm with ⟨rfl, hrow⟩ | ⟨_, _, _, _, _, _, halive, hm, hm', -, -⟩
  · rw [h.memberRef_module hrow.known]
    exact h.upgrade (hg.housed (n := m'.node) hrow _ (List.mem_singleton_self _))
  · rw [hm.module, hm'.module]
    exact h.upgrade halive

end Graph.Perused

namespace MemberRefId

variable {m m' : MemberRefId}

theorem module_rereads (hP : P ≤ .sameMember m m') :
    Rereads P m.module m'.module fun m => .maybe m fun m => .alive m.node :=
  Rereads.reads fun hP' hg (hper : Graph.Perused _ _) =>
    ⟨hper.sameMember_module hg (hP _ _ hP'), fun _ hm => alive_of_upgrade (Option.mem_toList.mp hm)⟩

theorem parent_rereads (hrow : m.key.IsRow) :
    Rereads P m.parent m.parent fun p => .of (SlotValue.parent p).OfRows :=
  rereads_slot .parent (Fact.rooted_row (Fact.le_of hrow)) mem_values_parent (fun _ _ => rfl) m.parent_peruses

theorem sig_rereads (hrow : m.key.IsRow) :
    Rereads P m.sig m.sig fun s => .of (ReferToRows (optionRefs Signature.refs s)) :=
  (rereads_slot .signature (Fact.rooted_row (Fact.le_of hrow)) mem_values_sig
    (fun _ _ => rfl) m.sig_peruses).gives fun _ _ _ h _ hr => h _ (List.mem_map_of_mem hr)

/-- **The parents of references to members that stand for the same do so, too.** -/
theorem parent_again (hP : P ≤ .sameMember m m') :
    Again P m.parent m'.parent fun p p' => .both .parents p p' := by
  refine .or_elim hP (.of_fact m.parent_peruses Fact.and_right ?_) ?_
  · rintro ⟨rfl, hrow⟩
    refine Again.gives (parent_rereads hrow) fun p p' => ?_
    rintro g u ⟨rfl, hrows⟩
    cases p' with
    | none => exact .none
    | some p => exact .some (Fact.parents_row (hrows _ List.mem_cons_self) g u hrows)
  · refine again_held m.parent_peruses fun h => ?_
    obtain ⟨_, _, p, p', _, _, -, hm, hm', hp, -⟩ := h.2
    exact ⟨_, _, hm.parent, hm'.parent, hp⟩

/-- **So do their signatures.** -/
theorem sig_again (hP : P ≤ .sameMember m m') :
    Again P m.sig m'.sig fun s s' => .both .signatures s s' := by
  refine .or_elim hP (.of_fact m.sig_peruses Fact.and_right ?_) ?_
  · rintro ⟨rfl, hrow⟩
    refine Again.gives (sig_rereads hrow) fun s s' => ?_
    rintro g u ⟨rfl, hrows⟩
    cases s' with
    | none => exact .none
    | some s => exact .some (Fact.signatures_row hrows g u hrows)
  · refine again_held m.sig_peruses fun h => ?_
    obtain ⟨_, _, _, _, s, s', -, hm, hm', -, hs⟩ := h.2
    exact ⟨_, _, hm.sig, hm'.sig, hs⟩

end MemberRefId

namespace Projection

/-- What takes the place of a parent stands for the same again, and the member's name is the same. -/
theorem parent_again (name : Name) {p : Option MemberParent} (hp : (SlotValue.parent p).OfRows) :
    Again P (parent name p) (parent name p) fun q q' =>
      (Fact.both .parents q.1 q'.1).and (.of (q'.2 = q.2)) := by
  have hnone : ∀ {P : Fact}, P ≤ (Fact.both .parents none none).and (.of (name = name)) :=
    fun _ _ _ => ⟨.none, rfl⟩
  cases p with
  | none => exact .pure hnone
  | some p =>
    have hrow : p.node.key.IsRow := hp _ List.mem_cons_self
    cases p with
    | typeDef _ | moduleRef _ | methodDef _ => exact .pure hnone
    | typeRef owner =>
      have howner : ∀ {P : Fact}, P ≤ .same owner owner := fun _ _ _ => .inl ⟨rfl, hrow⟩
      refine (typeRef_again howner).bind_both (.pure hnone) fun r r' => ?_
      refine Again.reads fun {g u} hP _ (hper : g.Perused u) => ⟨.some (.inr hP.2), ?_⟩
      have hlevel : (u.get owner).space = (g.get owner).space ∧ (u.get owner).name = (g.get owner).name :=
        Prod.mk.injEq .. ▸ hper.typeRef_level (r := owner) hrow.known
      show renamedMember (u.get owner).space (u.get owner).name name =
        renamedMember (g.get owner).space (g.get owner).name name
      rw [hlevel.1, hlevel.2]
    | typeSpec s =>
      refine (TypeSpecId.sig_rereads hrow).bind fun t => ?_
      cases t with
      | none => exact .pure hnone
      | some t =>
        refine (sig_again _ Fact.and_right).bind_both (.pure hnone) fun t t' => ?_
        refine (makeTypeSpec_again Fact.and_right).bind fun s s' => .pure fun g u hP => ?_
        exact ⟨.some hP.2, rfl⟩

/-- The reference that takes the place of one with a parent, a signature and a name. -/
def assemble (module : ModuleId) (p : Option MemberParent) (s : Option (Signature TypeDefOrRef))
    (name : Name) : GraphM (Option MemberRefId) :=
  parent name p >>= fun q => s.elim (pure none) signature >>= fun s' =>
    if q.1.isNone && s'.isNone then pure none
    else some <$> makeMemberRef module q.2 (q.1.or p) (s'.or s)

theorem memberRef_eq (m : MemberRefId) :
    memberRef m = m.module >>= fun module => module.elim (pure none) fun module =>
      m.parent >>= fun p => m.sig >>= fun s => get >>= fun g =>
        assemble module p s (g.get m).name := by
  refine bind_congr fun module => ?_
  cases module with
  | none => rfl
  | some module =>
    refine bind_congr fun p => bind_congr fun s => bind_congr fun g => bind_congr fun q => ?_
    cases s <;> rfl

theorem assemble_peruses (module : ModuleId) (p : Option MemberParent)
    (s : Option (Signature TypeDefOrRef)) (name : Name) :
    Keeps Peruses (assemble module p s name) := by
  refine (parent_peruses name p).bind fun q => Keeps.bind ?_ fun s' =>
    Keeps.ite (Keeps.pure _) (makeMemberRef_peruses _ _ _ _).map
  cases s with
  | none => exact Keeps.pure _
  | some s => exact signature_peruses s

theorem or_stands {α : Type} {R : α → α → Prop} {o o' p : Option α} (h : Option.Rel R o o')
    (hp : Option.Rel R p p) : Option.Rel R (o.or p) (o'.or p) := by
  cases h with
  | none => exact hp
  | some h => exact .some h

theorem assemble_again {module : ModuleId} {p : Option MemberParent}
    {s : Option (Signature TypeDefOrRef)} (name : Name) (hmodule : P ≤ .alive module.node)
    (hp : (SlotValue.parent p).OfRows) (hs : ReferToRows (optionRefs Signature.refs s)) :
    Again P (assemble module p s name) (assemble module p s name) fun o o' =>
      .both .recalled o o' := by
  have hsignature : ∀ {P : Fact}, Again P (s.elim (pure none) signature) (s.elim (pure none) signature)
      fun o o' => .both .signatures o o' := by
    intro P
    cases s with
    | none => exact .pure Fact.both_none
    | some s => exact signature_again hs
  refine (parent_again name hp).bind fun q q' => hsignature.bind fun t t' => ?_
  refine Again.of_fact (φ := q'.2 = q.2 ∧ (q'.1.isNone && t'.isNone) = (q.1.isNone && t.isNone))
    (Keeps.ite (Keeps.pure _) (makeMemberRef_peruses _ _ _ _).map)
    (fun g u hP => ⟨hP.1.2.2, congrArg₂ _ (isNone_rel hP.1.2.1) (isNone_rel hP.2)⟩) ?_
  rintro ⟨hname, hnone⟩
  rw [hname, hnone]
  refine .ite (.pure Fact.both_none) ?_
  refine Again.map ?_ fun m m' => Fact.both_some (Fact.le_refl (.recalled m m'))
  refine makeMemberRef_again (Fact.before (Fact.before hmodule)) _ (fun g u hP => ?_) fun g u hP => ?_
  · refine or_stands hP.1.2.1 ?_
    cases p with
    | none => exact .none
    | some p => exact .some (Fact.parents_row (hp _ List.mem_cons_self) g u hP)
  · refine or_stands hP.2 ?_
    cases s with
    | none => exact .none
    | some s => exact .some (Fact.signatures_row hs g u hP)

/-- **What takes the place of a reference to a member is made alike again.** -/
theorem memberRef_again {m : MemberRefId} (hrow : m.key.IsRow) :
    Again P (memberRef m) (memberRef m) fun o o' => .both .recalled o o' := by
  rw [memberRef_eq]
  refine (MemberRefId.module_rereads fun _ _ _ => .inl ⟨rfl, hrow⟩).bind_some (.pure Fact.both_none)
    fun module => ?_
  refine (MemberRefId.parent_rereads hrow).bind fun p => (MemberRefId.sig_rereads hrow).bind fun s => ?_
  refine Again.of_fact (φ := (SlotValue.parent p).OfRows ∧ ReferToRows (optionRefs Signature.refs s))
    (Keeps.get.bind fun g => assemble_peruses _ _ _ _) (fun g u hP => ⟨hP.1.2, hP.2⟩) ?_
  rintro ⟨hp, hs⟩
  have hname : ∀ {P : Fact}, Rereads P (do return ((← get).get m).name : GraphM Name)
      (do return ((← get).get m).name) fun _ => .of True := by
    intro P
    exact Rereads.reads fun _ _ (hper : Graph.Perused _ _) =>
      ⟨hper.memberRef_name hrow.known, trivial⟩
  refine hname.bind fun name => ?_
  refine assemble_again name ?_ hp hs
  exact Fact.before (Fact.before (Fact.before Fact.and_right))

end Projection
end CliMetadata
