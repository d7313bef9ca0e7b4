import CliMetadata.Proofs.Rereading.Comparisons
import CliMetadata.Proofs.Rereading.Replacements

/-!
# Members that are looked up again

The members of a type are listed as they were, with the names and signatures that they had, and so
the first that answers to a name and a signature is the one that it was, **where comparing is as it
was** (`Fact.calm`): that is what `TypeDefId.ownMember_rereads` says.
-/

namespace CliMetadata

open CliMetadata.Graph Loading Stateful

variable {P : Fact}

/-! ## Signatures of members -/

theorem mem_values_base (r : TypeDef) (v : Option TypeDefOrRef) :
    SlotValue.type v ∈ (Recorded.pack .typeDef r).values ↔ r.base = some v := by
  simp [Recorded.pack, Entity.values]

theorem mem_values_method (r : MethodDef) (v : Option (MethodSig TypeDefOrRef)) :
    SlotValue.methodSig v ∈ (Recorded.pack .methodDef r).values ↔ r.sig = some v := by
  simp [Recorded.pack, Entity.values]

theorem mem_values_field (r : Field) (v : Option Sig) :
    SlotValue.typeSig v ∈ (Recorded.pack .field r).values ↔ r.sig = some v := by
  simp [Recorded.pack, Entity.values]

/-- The base of a type is the same again. -/
theorem TypeDefId.base_rereads {t : TypeDefId} (ht : P ≤ .known t.key) :
    Rereads P t.base t.base fun b => .maybe b fun b => .of b.node.key.IsRow :=
  (rereads_slot .type (Fact.rooted_known (by decide) ht) mem_values_base (fun _ _ => rfl)
    t.base_peruses).gives fun _ _ _ h b hb => h b.node (List.mem_map_of_mem hb)

/-- So is the signature of a method. -/
theorem MethodDefId.sig_rereads {m : MethodDefId} (hm : P ≤ .known m.key) :
    Rereads P m.sig m.sig fun s => .maybe s fun s => .of (ReferToRows s.refs) :=
  (rereads_slot .methodSig (Fact.rooted_known (by decide) hm) mem_values_method (fun _ _ => rfl)
    m.sig_peruses).gives fun o g u h s hs r hr => by
      cases Option.mem_toList.mp hs
      exact h _ (List.mem_map_of_mem hr)

/-- So is the type of a field. -/
theorem FieldId.sig_rereads {f : FieldId} (hf : P ≤ .known f.key) :
    Rereads P f.sig f.sig fun s => .maybe s fun s => .of (ReferToRows s.refs) :=
  (rereads_slot .typeSig (Fact.rooted_known (by decide) hf) mem_values_field (fun _ _ => rfl)
    f.sig_peruses).gives fun o g u h s hs r hr => by
      cases Option.mem_toList.mp hs
      exact h _ (List.mem_map_of_mem hr)

/-! ## Searches for a name and a signature -/

section Searches

variable {α : Type} {C : Fact}

/-- The first entry that passes a test is the same again. -/
theorem firstThat_rereads {test test' : α → GraphM Bool} {G : α → Fact}
    (h : ∀ a, Rereads (C.and (G a)) (test a) (test' a) fun _ => .of True) :
    ∀ {P : Fact} {xs : List α}, P ≤ C → P ≤ .all xs G →
      Rereads P (firstThat test xs) (firstThat test' xs) fun _ => .of True
  | _, [], _, _ => Rereads.pure fun _ _ _ => trivial
  | P, x :: xs, hC, hxs => by
    have hx : P ≤ C.and (G x) := fun g u hP => ⟨hC g u hP, hxs g u hP x List.mem_cons_self⟩
    refine ((h x).under hx).bind fun b => .ite (Rereads.pure fun _ _ _ => trivial) ?_
    refine firstThat_rereads h (Fact.before hC) (Fact.before fun g u hP y hy => ?_)
    exact hxs g u hP y (List.mem_cons_of_mem _ hy)

/-- Whether a member has a name is told as before, and then whether it answers in other ways. -/
theorem named_rereads {k : Kind} {ρ : Type} [Recorded k ρ] [Recorded.Lawful k] {c : Id k}
    (name : ρ → Name) (hc : P ≤ .known c.key)
    (hname : ∀ r r', (Recorded.pack k r').bare = (Recorded.pack k r).bare → name r' = name r)
    {x y : GraphM Bool} (h : ∀ {P' : Fact}, P' ≤ P → Rereads P' x y fun _ => .of True)
    (text : String) :
    Rereads P (get >>= fun g => if (name (g.get c)).isText text then x else pure false)
      (get >>= fun g => if (name (g.get c)).isText text then y else pure false)
      fun _ => .of True := by
  refine Rereads.look (R := fun _ => .of True) (fun g => name (g.get c)) (fun g => name (g.get c))
    (fun b => if b.isText text then x else pure false)
    (fun b => if b.isText text then y else pure false)
    (fun hP _ (hper : Graph.Perused _ _) => ⟨?_, trivial⟩)
    fun b => .ite (h Fact.and_left) (CompareOptions.rereads_bool false)
  exact hper.column (.inl (hc _ _ hP)) hname

namespace TypeDefId

/-- Whether a member has a signature is told as before. -/
theorem answersSig_rereads {equal : α → α → GraphM Bool} {x : GraphM (Option α)} {G : α → Fact}
    {e e' : α} (hx : Rereads P x x fun o => .maybe o G)
    (h : ∀ a, Rereads (P.and (G a)) (equal a e) (equal a e') fun _ => .of True) :
    Rereads P (answersSig equal x (some e)) (answersSig equal x (some e')) fun _ => .of True :=
  hx.bind_some (CompareOptions.rereads_bool false) h

theorem findMethod_rereads (t : TypeDefId) (name : String) {m m' : MethodSig TypeDefOrRef}
    (hcalm : P ≤ .calm) (hm : P ≤ .methodSigs m m') :
    Rereads P (t.findMethod name (some m)) (t.findMethod name (some m')) fun _ => .of True := by
  refine (children_rereads .methods t).bind fun ms => ?_
  refine firstThat_rereads (C := P) (G := fun c : MethodDefId => .known c.key) (fun c => ?_)
    Fact.and_left Fact.and_right
  refine named_rereads MethodDef.name Fact.and_right ?_ (fun hP => ?_) name
  · intro r r' hr
    cases r; cases r'; simp_all [Recorded.pack, Entity.bare]
  · refine answersSig_rereads (MethodDefId.sig_rereads fun g u h => (hP g u h).2) fun s => ?_
    refine Again.of_fact (within_peruses.equalMethodSigs _ _ _) Fact.and_right fun hs => ?_
    exact CompareOptions.equalMethodSigs_rereads hs (fun g u h => hcalm g u (hP g u h.1).1)
      fun g u h => hm g u (hP g u h.1).1

theorem findField_rereads (t : TypeDefId) (name : String) {s s' : Sig}
    (hcalm : P ≤ .calm) (hs : P ≤ .sigs s s') :
    Rereads P (t.findField name (some s)) (t.findField name (some s')) fun _ => .of True := by
  refine (children_rereads .fields t).bind fun fs => ?_
  refine firstThat_rereads (C := P) (G := fun c : FieldId => .known c.key) (fun c => ?_)
    Fact.and_left Fact.and_right
  refine named_rereads Field.name Fact.and_right ?_ (fun hP => ?_) name
  · intro r r' hr
    cases r; cases r'; simp_all [Recorded.pack, Entity.bare]
  · refine answersSig_rereads (FieldId.sig_rereads fun g u h => (hP g u h).2) fun t => ?_
    refine Again.of_fact (within_peruses.equalSigs _ _ _) Fact.and_right fun ht => ?_
    exact CompareOptions.equalSigs_rereads ht (fun g u h => hcalm g u (hP g u h.1).1)
      fun g u h => hs g u (hP g u h.1).1

end TypeDefId
end Searches

/-- Two signatures of members that stand for the same are both looked for, or none is. -/
theorem Fact.signatures_form {s s' : Signature TypeDefOrRef} (hP : P ≤ .signatures s s') :
    P ≤ .of ((s'.method?.isNone && s'.field?.isNone) = (s.method?.isNone && s.field?.isNone)) := by
  intro g u h
  have hs := hP g u h
  cases s with
  | method m =>
    cases s' with
    | method _ => rfl
    | field _ | property _ | locals _ | instantiation _ => cases hs
  | field t =>
    cases s' with
    | field _ => rfl
    | method _ | property _ | locals _ | instantiation _ => cases hs
  | property _ | locals _ | instantiation _ =>
    obtain rfl : s' = _ := hs
    rfl

section Cases

variable {σ α : Type} [Viewed σ] {Q : α → α → Fact}

/-- Two signatures of members that stand for the same are of one form. -/
theorem Again.signatures_elim {f f' : Signature TypeDefOrRef → StateM σ α}
    (hkeeps : ∀ s, Keeps Viewed.Peruses (f s))
    (method : ∀ m m', Again (P.and (.methodSigs m m')) (f (.method m)) (f' (.method m')) Q)
    (field : ∀ t t', Again (P.and (.sigs t t')) (f (.field t)) (f' (.field t')) Q)
    (other : ∀ s, s.method? = none → s.field? = none → Again P (f s) (f' s) Q)
    (s s' : Signature TypeDefOrRef) : Again (P.and (.signatures s s')) (f s) (f' s') Q := by
  refine ⟨hkeeps s, fun ⟨hP, hs⟩ => ?_⟩
  have hsame : ∀ {s s' : Signature TypeDefOrRef}, s' = s → s.method? = none → s.field? = none →
      Again P (f s) (f' s') Q := by
    rintro s _ rfl
    exact other _
  cases s with
  | method m =>
    cases s' with
    | method m' => exact (method m m').run ⟨hP, hs⟩
    | field _ | property _ | locals _ | instantiation _ => cases hs
  | field t =>
    cases s' with
    | field t' => exact (field t t').run ⟨hP, hs⟩
    | method _ | property _ | locals _ | instantiation _ => cases hs
  | property _ | locals _ | instantiation _ => exact (hsame hs rfl rfl).run hP

/-- Two parents of members that stand for the same are two references, two specifications or one
row. -/
theorem Again.parents_elim {f f' : MemberParent → StateM σ α}
    (hkeeps : ∀ p, Keeps Viewed.Peruses (f p))
    (typeRef : ∀ r r', Again (P.and (.same r r')) (f (.typeRef r)) (f' (.typeRef r')) Q)
    (typeSpec : ∀ s s', Again (P.and (.types (.typeSpec s) (.typeSpec s'))) (f (.typeSpec s))
      (f' (.typeSpec s')) Q)
    (row : ∀ p, p.node.key.IsRow → Again P (f p) (f' p) Q)
    (p p' : MemberParent) : Again (P.and (.parents p p')) (f p) (f' p') Q := by
  refine ⟨hkeeps p, fun ⟨hP, hp⟩ => ?_⟩
  have hsame : ∀ {p p' : MemberParent}, p' = p ∧ p.node.key.IsRow → Again P (f p) (f' p') Q := by
    rintro p _ ⟨rfl, hrow⟩
    exact row _ hrow
  cases p with
  | typeRef r =>
    cases p' with
    | typeRef r' => exact (typeRef r r').run ⟨hP, hp⟩
    | typeDef _ | typeSpec _ | moduleRef _ | methodDef _ => exact (hsame hp).run hP
  | typeSpec s =>
    cases p' with
    | typeSpec s' => exact (typeSpec s s').run ⟨hP, hp⟩
    | typeDef _ | typeRef _ | moduleRef _ | methodDef _ => exact (hsame hp).run hP
  | typeDef _ | moduleRef _ | methodDef _ => exact (hsame hp).run hP

end Cases

namespace TypeDefId

/-- Looking for the module of a type takes nothing over. -/
theorem module_rests (t : TypeDefId) : Keeps Rests t.module :=
  Keeps.sequential.moduleWithin (fun e c _ => owner_rests e c) _ t

/-- **The member of a type that has a name and a signature is the same again.** -/
theorem ownMember_rereads (t : TypeDefId) (name : String) {s s' : Signature TypeDefOrRef}
    (hcalm : P ≤ .calm) (hs : P ≤ .signatures s s') :
    Rereads P (t.ownMember name s) (t.ownMember name s') fun _ => .of True := by
  have hany : ∀ s s', Rereads (P.and (.signatures s s')) (t.ownMember name s) (t.ownMember name s')
      fun _ => .of True := by
    refine Again.signatures_elim (t.ownMember_peruses name) (fun m m' => ?_) (fun u u' => ?_)
      fun s hm hf => ?_
    · exact (t.findMethod_rereads name (Fact.before hcalm) Fact.and_right).put_into _
        fun _ _ _ _ => trivial
    · exact (t.findField_rereads name (Fact.before hcalm) Fact.and_right).put_into _
        fun _ _ _ _ => trivial
    · cases s with
      | method _ => cases hm
      | field _ => cases hf
      | property _ | locals _ | instantiation _ => exact Rereads.pure fun _ _ _ => trivial
  exact (hany s s').under fun g u h => ⟨h, hs g u h⟩

end TypeDefId
end CliMetadata
