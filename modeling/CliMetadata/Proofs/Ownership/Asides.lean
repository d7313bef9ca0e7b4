import CliMetadata.Proofs.Comparison.Columns

/-!
# Asking where types are

In which module or type a type is gets recorded when it is first asked for, and the type that
encloses it may be made of its row then.  `Graph.Beside g g'` says that two graphs differ in no more
than that.  It is what is left when one computation asks for the modules of types on its way and
another one does not.

**Nothing else depends on it**: reading a slot, comparing signatures or reading a list of members
gives the same in both graphs, and leads to graphs that are beside each other again (`Agrees`).  The
private copies that are made on the way take the same numbers, and so do the attributes.  So whether
one computation finds what the other does can be told step by step.
-/

namespace CliMetadata

open CliMetadata.Graph Loading Stateful

/-! ## Computations in two states -/

/-- In states that are related, a computation gives the same and leads to states that are. -/
def Agrees {σ α : Type} (R : σ → σ → Prop) (x : StateM σ α) : Prop :=
  ∀ s s', R s s' → (x.run s').1 = (x.run s).1 ∧ R (x.run s).2 (x.run s').2

namespace Agrees

variable {σ α β : Type} {R : σ → σ → Prop} {x : StateM σ α}

theorem result (hx : Agrees R x) {s s' s₁ : σ} {a : α} (h : R s s') (hrun : x.run s = (a, s₁)) :
    ∃ s₁', x.run s' = (a, s₁') ∧ R s₁ s₁' := by
  obtain ⟨hvalue, hafter⟩ := hx s s' h
  rw [hrun] at hvalue hafter
  exact ⟨(x.run s').2, Prod.ext hvalue rfl, hafter⟩

theorem pure (a : α) : Agrees R (Pure.pure a : StateM σ α) := fun _ _ h => ⟨rfl, h⟩

theorem bind {f : α → StateM σ β} (hx : Agrees R x) (hf : ∀ a, Agrees R (f a)) :
    Agrees R (x >>= f) := by
  intro s s' h
  obtain ⟨hvalue, hafter⟩ := hx s s' h
  rw [run_bind, run_bind, hvalue]
  exact hf _ _ _ hafter

/-- What is looked up in the state may decide how to go on, where it is the same in both. -/
theorem look {f : σ → StateM σ α} (hsame : ∀ s s', R s s' → f s' = f s)
    (hf : ∀ s, Agrees R (f s)) : Agrees R (MonadState.get >>= f) := by
  intro s s' h
  rw [run_get_bind, run_get_bind, hsame s s' h]
  exact hf s s s' h

theorem update {f : σ → σ} (hf : ∀ s s', R s s' → R (f s) (f s')) :
    Agrees R (modify f : StateM σ Unit) := fun s s' h => ⟨rfl, hf s s' h⟩

/-- A slot that holds the same in both states, and is filled with the same. -/
theorem getRelaxed {slot : SlotIn σ α} {compute : StateM σ α}
    (hpeek : ∀ s s', R s s' → slot.peek s' = slot.peek s)
    (hpublish : ∀ v s s', R s s' → R (slot.publish v s) (slot.publish v s'))
    (hcompute : Agrees R compute) : Agrees R (slot.getRelaxed compute) := by
  have hfirst : ∀ v, Agrees R (slot.publishFirst v) := by
    intro v s s' h
    cases hs : slot.peek s with
    | some held =>
      rw [publishFirst_held hs, publishFirst_held ((hpeek s s' h).trans hs)]
      exact ⟨rfl, h⟩
    | none =>
      rw [publishFirst_empty hs, publishFirst_empty ((hpeek s s' h).trans hs)]
      exact ⟨rfl, hpublish v s s' h⟩
  refine look (fun s s' h => by rw [hpeek s s' h]) fun s => ?_
  cases slot.peek s with
  | some held => exact pure held
  | none => exact hcompute.bind hfirst

end Agrees

theorem Agrees.sequential {R : Graph → Graph → Prop} : Sequential fun _ x => Agrees R x :=
  ⟨Agrees.pure, Agrees.bind⟩

/-! ## Graphs beside each other -/

namespace Graph

variable {g g' g'' : Graph}

/-- Nothing has been made but types. -/
def TypesMade (g g' : Graph) : Prop :=
  ∀ n : Node, n.kind ≠ .typeDef → g'.entities.get? n = g.entities.get? n

instance : IsPreorder Graph TypesMade where
  refl _ _ _ := rfl
  trans _ _ _ h k n hn := (k n hn).trans (h n hn)

/-- **Two graphs that differ in what has been asked of where types are**, and in nothing else. -/
structure Beside (g g' : Graph) : Prop where
  built : g'.built = g.built
  lists : g'.lists = g.lists
  entities : ∀ {n}, n.kind ≠ .typeDef → g'.entities.get? n = g.entities.get? n
  types : ∀ {n}, n.kind = .typeDef → g'.entity n = g.entity n ∧ g'.present n = g.present n
  owners : ∀ {e c}, e.childKind ≠ .typeDef → g'.owners.get? (e, c) = g.owners.get? (e, c)
  noted : ∀ {e c}, e.childKind = .typeDef → g'.noted e c = g.noted e c

namespace Beside

theorem refl (g : Graph) : g.Beside g where
  built := rfl
  lists := rfl
  entities _ := rfl
  types _ := ⟨rfl, rfl⟩
  owners _ := rfl
  noted _ := rfl

theorem symm (h : g.Beside g') : g'.Beside g where
  built := h.built.symm
  lists := h.lists.symm
  entities hn := (h.entities hn).symm
  types hn := ⟨(h.types hn).1.symm, (h.types hn).2.symm⟩
  owners he := (h.owners he).symm
  noted he := (h.noted he).symm

theorem trans (h : g.Beside g') (k : g'.Beside g'') : g.Beside g'' where
  built := k.built.trans h.built
  lists := k.lists.trans h.lists
  entities hn := (k.entities hn).trans (h.entities hn)
  types hn := ⟨(k.types hn).1.trans (h.types hn).1, (k.types hn).2.trans (h.types hn).2⟩
  owners he := (k.owners he).trans (h.owners he)
  noted he := (k.noted he).trans (h.noted he)

instance : IsPreorder Graph Beside where
  refl := refl
  trans _ _ _ := trans

/-! ### What reads the same -/

section Same

variable (h : g.Beside g')

include h

theorem loader (l : Nat) : g'.loader? l = g.loader? l := by
  unfold Graph.loader?
  rw [h.entities (by rintro ⟨⟩)]

theorem store? (l : Nat) : g'.store? l = g.store? l := store?_congr h.loader l

theorem contains {n : Node} (hn : n.kind ≠ .typeDef) :
    g'.entities.contains n = g.entities.contains n := by
  unfold Index.contains
  rw [h.entities hn]

theorem present (n : Node) : g'.present n = g.present n := by
  by_cases hn : n.kind = .typeDef
  · exact (h.types hn).2
  · rw [Graph.present, Graph.present, h.contains hn, hasRow_congr h.loader]

theorem entity (n : Node) : g'.entity n = g.entity n := by
  by_cases hn : n.kind = .typeDef
  · exact (h.types hn).1
  · exact entity_congr (h.entities hn) h.loader

theorem looksAlike : g.LooksAlike g' where
  entity := h.entity
  alive n := by
    rw [alive_eq_present, alive_eq_present, h.present]
    simp only [h.loader]

theorem origin (n : Node) : g'.origin n = g.origin n :=
  congrArg (fun e => (Entity.origin? e).getD .inMemory) (h.entity n)

theorem reader? (o : Origin) : g'.reader? o = g.reader? o := by
  unfold Graph.reader?
  simp only [h.loader]

end Same

/-! ### What leads from one to the other -/

/-- Types are asked where they are. -/
theorem of_asked {children : Node → Prop} (h : g.Asked children g')
    (hchildren : ∀ n, children n → n.kind = .typeDef) (hmade : g.TypesMade g') : g.Beside g' where
  built := h.built
  lists := h.lists
  entities := hmade _
  types {n} _ := ⟨h.entity n, h.present n⟩
  owners he := h.others fun hc => he (hchildren _ hc)
  noted _ := h.noted _ _

/-- A change of nothing that is looked at here. -/
theorem of_eq (hbuilt : g'.built = g.built) (hentities : g'.entities = g.entities)
    (howners : g'.owners = g.owners) (hlists : g'.lists = g.lists) : g.Beside g' := by
  have hquiet : g.Quiet g' := .of_eq hentities howners hlists
  refine ⟨hbuilt, hlists, fun _ => by rw [hentities], fun {n} hn => ?_, fun _ => by rw [howners],
    fun {e c} he => ?_⟩
  · have hkind : n.kind ≠ .customAttribute := by
      rw [hn]
      decide
    exact ⟨hquiet.entity hkind, hquiet.present hkind⟩
  · exact (Consulted.of_quiet hquiet).noted e c

end Beside

/-! ### Changes on both sides -/

section Put

variable {k : Kind} {ρ : Type} [Recorded k ρ]

namespace Beside

/-- Something that is no type is written. -/
theorem put (hk : k ≠ .typeDef) (hm : k ≠ .module) (h : g.Beside g') (id : Id k) (r : ρ) :
    (g.put id r).Beside (g'.put id r) := by
  have hne : ∀ {n : Node}, n.kind = .typeDef → id.node ≠ n := by
    rintro _ hn rfl
    exact hk hn
  have hl : ∀ {g : Graph} l, (g.put id r).loader? l = g.loader? l := fun l => loader?_put hm id r l
  have hnoted : ∀ {g : Graph} {e : Edge} {c : Key}, e.childKind = .typeDef →
      (g.put id r).noted e c = g.noted e c := by
    intro g e c he
    have htype : ∀ i ∈ e.ownerKinds, i ≠ .module → i = .typeDef := by
      cases e with
      | moduleTypes | nestedTypes => decide
      | _ => cases he
    unfold Graph.noted
    rw [stored_congr hl fun i hi hm l p => present_put_of_ne hl (hne (htype i hi hm))]
    · rfl
    · exact congrArg (fun e => (Entity.origin? e).getD .inMemory) (entity_put_of_ne hl (hne he))
  refine ⟨h.built, h.lists, fun {n} hn => ?_, fun hn => ?_, h.owners, fun he => ?_⟩
  · rw [Graph.put, Graph.put, Index.get?_set, Index.get?_set, h.entities hn]
  · rw [entity_put_of_ne hl (hne hn), entity_put_of_ne hl (hne hn),
      present_put_of_ne hl (hne hn), present_put_of_ne hl (hne hn)]
    exact h.types hn
  · rw [hnoted he, hnoted he]
    exact h.noted he

/-- Something about a type that is there is written, but not from which row it is. -/
theorem putType (h : g.Beside g') {t : TypeDefId} {r : TypeDef} (ht : g.present t.node)
    (hr : r.origin = (g.get t).origin) : (g.put t r).Beside (g'.put t r) := by
  have hl : ∀ {g : Graph} l, (g.put t r).loader? l = g.loader? l := fun l =>
    loader?_put (by decide) t r l
  have ht' : g'.present t.node := (h.present _).trans ht
  have hnoted : ∀ {g : Graph} {e : Edge} {c : Key}, g.present t.node →
      r.origin = (g.get t).origin → (g.put t r).noted e c = g.noted e c := by
    intro g e c ht hr
    have horigin : ∀ n, (g.put t r).origin n = g.origin n := by
      intro n
      by_cases hn : t.node = n
      · subst hn
        unfold Graph.origin
        rw [entity_put]
        exact congrArg (fun o => (some o).getD .inMemory) hr
      · exact congrArg (fun e => (Entity.origin? e).getD .inMemory) (entity_put_of_ne hl hn)
    unfold Graph.noted
    rw [(Alike.of_put hl ht).stored (horigin _)]
    rfl
  refine ⟨h.built, h.lists, fun {n} hn => ?_, fun {n} hn => ⟨?_, ?_⟩, h.owners, fun he => ?_⟩
  · rw [Graph.put, Graph.put, Index.get?_set, Index.get?_set, h.entities hn]
  · by_cases hid : t.node = n
    · rw [← hid, entity_put, entity_put]
    · rw [entity_put_of_ne hl hid, entity_put_of_ne hl hid]
      exact (h.types hn).1
  · rw [present_put hl ht, present_put hl ht']
    exact (h.types hn).2
  · rw [hnoted ht hr, hnoted ht' (by rw [h.looksAlike.get]; exact hr)]
    exact h.noted he

end Beside
end Put

namespace Beside

/-- Where something that is no type is gets recorded. -/
theorem setOwner {e : Edge} (he : e.childKind ≠ .typeDef) (h : g.Beside g') (c : Key)
    (o : Option Node) : ((ownerSlot e c).publish o g).Beside ((ownerSlot e c).publish o g') := by
  have hnoted : ∀ {g : Graph} {e' : Edge} {c' : Key}, e'.childKind = .typeDef →
      ((ownerSlot e c).publish o g).noted e' c' = g.noted e' c' := by
    intro g e' c' he'
    have hne : (e, c) ≠ (e', c') := by
      rintro ⟨⟩
      exact he he'
    have halike : g.Alike ((ownerSlot e c).publish o g) := ⟨fun _ => rfl, fun _ _ _ => rfl⟩
    unfold Graph.noted
    rw [halike.stored rfl]
    exact congrArg (Option.getD · _) (Index.get?_set_other _ _ hne)
  refine ⟨h.built, h.lists, h.entities, h.types, fun {e' c'} he' => ?_, fun he' => ?_⟩
  · show (g'.owners.set _ _).get? _ = (g.owners.set _ _).get? _
    rw [Index.get?_set, Index.get?_set, h.owners he']
  · rw [hnoted he', hnoted he']
    exact h.noted he'

/-- Numbers are given out. -/
theorem count (h : g.Beside g') (n : Nat) : Beside { g with built := n } { g' with built := n } := by
  have hnoted : ∀ (g : Graph) e c, Graph.noted { g with built := n } e c = g.noted e c := fun g =>
    (Consulted.of_quiet (.of_eq rfl rfl rfl : g.Quiet { g with built := n })).noted
  refine ⟨rfl, h.lists, h.entities, h.types, h.owners, fun he => ?_⟩
  rw [hnoted, hnoted]
  exact h.noted he

/-- A list is recorded. -/
theorem setList (h : g.Beside g') (e : Edge) (o : Node) (cs : List Key) :
    ((listSlot e o).publish cs g).Beside ((listSlot e o).publish cs g') := by
  have hnoted : ∀ {g : Graph} {e' : Edge} {c' : Key},
      ((listSlot e o).publish cs g).noted e' c' = g.noted e' c' := by
    intro g e' c'
    have halike : g.Alike ((listSlot e o).publish cs g) := ⟨fun _ => rfl, fun _ _ _ => rfl⟩
    unfold Graph.noted
    rw [halike.stored rfl]
    rfl
  refine ⟨h.built, ?_, h.entities, h.types, h.owners, fun he => ?_⟩
  · show g'.lists.set _ _ = g.lists.set _ _
    rw [h.lists]
  · rw [hnoted, hnoted]
    exact h.noted he

end Beside

end Graph

/-! ## What agrees -/

section Aside

variable {α : Type}

/-- A computation that leads aside agrees if it gives the same. -/
theorem Agrees.aside {x : GraphM α} (hx : Keeps Beside x)
    (hvalue : ∀ g g', Beside g g' → (x.run g').1 = (x.run g).1) : Agrees Beside x :=
  fun g g' h => ⟨hvalue g g' h, (hx g).symm.trans (h.trans (hx g'))⟩

/-- So does a change of nothing that is looked at. -/
theorem Agrees.change {f : Graph → Graph} (hf : ∀ g, Beside g (f g)) :
    Agrees Beside (modify f : GraphM Unit) := .aside hf fun _ _ _ => rfl

/-! ### Rows -/

theorem typesMade_shared {ρ : Type} {k : Kind} [Recorded k ρ] (hk : k = .typeDef)
    (loader place : Nat) : Keeps TypesMade (shared k loader place) := by
  intro g n hn
  rw [shared_run]
  split
  · rfl
  · split
    · rfl
    · refine Index.get?_set_other _ _ ?_
      rintro rfl
      exact hn hk

/-- The entity of a row is made in the graph in which it has not been made yet. -/
theorem agrees_shared (k : Kind) {ρ : Type} [Recorded k ρ] [Recorded.Rowed k] (loader place : Nat) :
    Agrees Beside (shared k loader place) := by
  by_cases hk : k = .typeDef
  · refine .aside (fun g => ?_) fun g g' h => ?_
    · have hasked : g.Asked (fun _ => False) ((shared k loader place).run g).2 :=
        keepsAsked_shared loader place g
      exact .of_asked hasked nofun (typesMade_shared hk loader place g)
    · rw [shared_value, shared_value, h.present]
  · refine .look (fun g g' h => ?_) fun g => ?_
    · have hn : (⟨.row loader place⟩ : Id k).node.kind ≠ .typeDef := hk
      dsimp only
      rw [h.contains hn, h.store?]
    · dsimp only
      split
      · exact .pure _
      · split
        · exact .pure _
        · exact (Agrees.update fun _ _ h => h.put hk (Recorded.Rowed.ne_module (ρ := ρ)) _ _).bind
            fun _ => .pure _

theorem agrees_rowAt (table : Store → List α) (loader rid : Nat) :
    Agrees Beside (rowAt table loader rid) :=
  .look (fun _ _ h => by rw [h.store?]) fun _ => .pure _

theorem agrees_parent? (loader : Nat) (relation : Relation) (child : Token) :
    Agrees Beside (parent? loader relation child) :=
  .look (fun _ _ h => by rw [h.store?]) fun _ => .pure _

theorem agrees_children (loader : Nat) (relation : Relation) (owner : Token) :
    Agrees Beside (children loader relation owner) := by
  refine Agrees.bind (.change fun g => ?_) fun _ => ?_
  · exact .of_eq rfl rfl rfl rfl
  · exact .look (fun _ _ h => by rw [h.store?]) fun _ => .pure _

/-- What is made takes the same number. -/
theorem agrees_makeUnread {k : Kind} {ρ : Type} [Recorded k ρ] (hk : k ≠ .typeDef)
    (hm : k ≠ .module) (r : ρ) : Agrees Beside (makeUnread k r) := by
  refine .look (fun _ _ h => by rw [h.built]) fun g => ?_
  refine (Agrees.update fun g g' h => ?_).bind fun _ => .pure _
  rw [h.built]
  exact (h.put hk hm _ r).count _

theorem agrees_fromStore {absent : α} {origin : Origin} {compute : Nat → Nat → GraphM α}
    (hc : ∀ loader rid, Agrees Beside (compute loader rid)) :
    Agrees Beside (fromStore origin absent compute) := by
  refine .look (fun _ _ h => by rw [h.reader?]) fun g => ?_
  split
  · exact hc _ _
  · exact .pure _

/-! ### Coded indices and what is carried -/

theorem agrees_methodOf (kind : CodedKind) (loader : Nat) (index : CodedIndex) :
    Agrees Beside (methodOf kind loader index) := by
  unfold methodOf
  split
  · split
    · exact (agrees_shared .methodDef _ _).bind fun _ => .pure _
    · exact (agrees_shared .memberRef _ _).bind fun _ => .pure _
    · exact .pure _
  · exact .pure _

theorem agrees_attributes (loader : Nat) (parent : Token) :
    Agrees Beside (attributes loader parent) := by
  refine (agrees_children _ _ _).bind fun rids => Agrees.sequential.collect (fun rid => ?_) rids
  refine (agrees_rowAt _ _ _).bind fun row => ?_
  cases row with
  | none => exact .pure _
  | some row =>
    refine (agrees_methodOf _ _ _).bind fun constructor => ?_
    refine .look (fun _ _ h => by rw [h.store?]) fun g => ?_
    rw [map_eq_pure_bind]
    exact (agrees_makeUnread (by decide) (by decide) _).bind fun _ => .pure _

/-- What carries attributes has been made in both graphs or in neither. -/
theorem agrees_sharedWithAttributes {k : Kind} {ρ : Type} [Recorded k ρ] (hk : k ≠ .typeDef)
    (hm : k ≠ .module) (token : ρ → Token) (loader place : Nat) :
    Agrees Beside (sharedWithAttributes k token loader place) := by
  refine .look (fun g g' h => ?_) fun g => ?_
  · have hn : (⟨.row loader place⟩ : Id k).node.kind ≠ .typeDef := hk
    dsimp only
    rw [h.contains hn, h.store?]
  · dsimp only
    split
    · exact .pure _
    · split
      · exact .pure _
      · refine (agrees_attributes _ _).bind fun carried => Agrees.bind ?_ fun _ => .pure _
        refine .update fun g g' h => ?_
        have hcarried : ∀ g : Graph,
            g.Beside ((attributeSlot (⟨.row loader place⟩ : Id k).node).publish carried g) :=
          fun _ => .of_eq rfl rfl rfl rfl
        exact (hcarried _).symm.trans ((h.put hk hm _ _).trans (hcarried _))

theorem agrees_typeDefOrRef (loader : Nat) (index : CodedIndex) :
    Agrees Beside (typeDefOrRef loader index) := by
  unfold typeDefOrRef
  split
  · split
    · exact (agrees_shared .typeDef _ _).bind fun _ => .pure _
    · exact (agrees_shared .typeRef _ _).bind fun _ => .pure _
    · exact (agrees_shared .typeSpec _ _).bind fun _ => .pure _
    · exact .pure _
  · exact .pure _

theorem agrees_resolutionScope (loader : Nat) (index : CodedIndex) :
    Agrees Beside (resolutionScope loader index) := by
  unfold resolutionScope
  split
  · split
    · exact .pure _
    · exact (agrees_sharedWithAttributes (by decide) (by decide) _ _ _).bind fun _ => .pure _
    · exact (agrees_sharedWithAttributes (by decide) (by decide) _ _ _).bind fun _ => .pure _
    · exact (agrees_shared .typeRef _ _).bind fun _ => .pure _
    · exact .pure _
  · exact .pure _

theorem agrees_typeOrMethod (loader : Nat) (index : CodedIndex) :
    Agrees Beside (typeOrMethod loader index) := by
  unfold typeOrMethod
  split
  · split
    · exact (agrees_shared .typeDef _ _).bind fun _ => .pure _
    · exact (agrees_shared .methodDef _ _).bind fun _ => .pure _
    · exact .pure _
  · exact .pure _

/-! ### Signatures -/

theorem agrees_countSignature (loader : Nat) : Agrees Beside (countSignature loader) :=
  .change fun _ => .of_eq rfl rfl rfl rfl

theorem agrees_signature (loader index : Nat) : Agrees Beside (signature loader index) := by
  refine (agrees_countSignature _).bind fun _ => .look (fun _ _ h => by rw [h.store?]) fun g => ?_
  split
  · exact Agrees.sequential.signatureTraverse
      (fun token => agrees_typeDefOrRef loader (.ofToken token)) _
  · exact .pure _

theorem agrees_typeSig (loader index : Nat) : Agrees Beside (typeSig loader index) := by
  refine (agrees_countSignature _).bind fun _ => .look (fun _ _ h => by rw [h.store?]) fun g => ?_
  split
  · exact Agrees.sequential.traverse (fun token => agrees_typeDefOrRef loader (.ofToken token)) _
  · exact .pure _

theorem agrees_signatureOf {β : Type} (table : Store → List α) (index : α → Nat)
    (part : Signature TypeDefOrRef → Option β) (loader rid : Nat) :
    Agrees Beside (signatureOf table index part loader rid) := by
  refine (agrees_rowAt _ _ _).bind fun row => ?_
  cases row with
  | none => exact .pure _
  | some row => exact (agrees_signature _ _).bind fun _ => .pure _

/-! ### Slots -/

/-- A slot of something that is no type. -/
theorem agrees_readSlot {k : Kind} {ρ : Type} [Recorded k ρ] [Recorded.Lawful k]
    (hk : k ≠ .typeDef) (hm : k ≠ .module) {id : Id k} {get : ρ → Slot α} {set : Slot α → ρ → ρ}
    {absent : α} {compute : Nat → Nat → GraphM α}
    (hc : ∀ loader rid, Agrees Beside (compute loader rid)) :
    Agrees Beside (readSlot id (Graph.slot id get set) absent compute) := by
  refine .look (fun _ _ h => by rw [h.origin]) fun g => ?_
  refine .getRelaxed (fun g g' h => ?_) (fun v g g' h => ?_) (agrees_fromStore hc)
  · exact congrArg get (h.looksAlike.get id)
  · show (g.put id _).Beside (g'.put id _)
    rw [h.looksAlike.get]
    exact h.put hk hm _ _

theorem agrees_scope (r : TypeRefId) : Agrees Beside r.scope := by
  refine agrees_readSlot (by decide) (by decide) fun loader rid => ?_
  refine (agrees_rowAt _ _ _).bind fun row => ?_
  cases row with
  | none => exact .pure _
  | some row => exact agrees_resolutionScope _ _

theorem agrees_specSig (s : TypeSpecId) : Agrees Beside s.sig := by
  refine agrees_readSlot (by decide) (by decide) fun loader rid => ?_
  refine (agrees_rowAt _ _ _).bind fun row => ?_
  cases row with
  | none => exact .pure _
  | some row => exact agrees_typeSig _ _

theorem agrees_methodSig (m : MethodDefId) : Agrees Beside m.sig :=
  agrees_readSlot (by decide) (by decide) (agrees_signatureOf _ _ _)

theorem agrees_fieldSig (f : FieldId) : Agrees Beside f.sig :=
  agrees_readSlot (by decide) (by decide) (agrees_signatureOf _ _ _)

/-! ### Where things are -/

/-- **Asking where a type is leads aside.** -/
theorem aside_owner {e : Edge} (he : e.childKind = .typeDef) (c : Key) :
    Keeps Beside (Ownership.owner e c) := by
  have hstored : ∀ l rid, Keeps TypesMade (Ownership.storedOwner e l rid) := by
    intro l rid
    unfold Ownership.storedOwner
    cases e with
    | moduleTypes => exact fun _ _ _ => rfl
    | nestedTypes =>
      refine Keeps.bind (fun _ _ _ => rfl) fun owner => ?_
      cases owner with
      | none => exact Keeps.pure _
      | some owner =>
        exact Keeps.ite ((typesMade_shared rfl _ _).bind fun _ => Keeps.pure _) (Keeps.pure _)
    | _ => cases he
  have hmade : Keeps TypesMade (Ownership.owner e c) := by
    refine Keeps.get.bind fun g => Keeps.bind ?_ fun held => Keeps.get.bind fun _ => Keeps.pure _
    exact keeps_getRelaxed (keeps_fromStore hstored) fun _ _ _ _ => rfl
  intro g
  exact .of_asked (owner_run g e c).1 (by rintro _ rfl; exact he) (hmade g)

theorem agrees_owner (e : Edge) (c : Key) : Agrees Beside (Ownership.owner e c) := by
  by_cases he : e.childKind = .typeDef
  · refine .aside (aside_owner he c) fun g g' h => ?_
    rw [(owner_run g e c).2.1, (owner_run g' e c).2.1, h.noted he]
    exact congrArg (Option.filter · _) (funext h.looksAlike.alive)
  · have hstored : ∀ l rid, Agrees Beside (Ownership.storedOwner e l rid) := by
      intro l rid
      unfold Ownership.storedOwner
      cases e with
      | moduleTypes | nestedTypes => exact absurd rfl he
      | fields | methods | properties | events | params =>
        refine (agrees_parent? _ _ _).bind fun owner => ?_
        cases owner with
        | none => exact .pure _
        | some owner =>
          dsimp only
          split
          · exact (agrees_shared _ _ _).bind fun _ => .pure _
          · exact .pure _
      | genericParams =>
        refine (agrees_rowAt _ _ _).bind fun row => ?_
        cases row with
        | none => exact .pure _
        | some row => exact agrees_typeOrMethod _ _
      | assemblyModules => exact .pure _
    refine .look (fun _ _ h => by rw [h.origin]) fun g => ?_
    refine Agrees.bind ?_ fun held => .look (fun _ _ h => ?_) fun _ => .pure _
    · exact .getRelaxed (fun _ _ h => h.owners he) (fun _ _ _ h => h.setOwner he _ _)
        (agrees_fromStore hstored)
    · rw [funext h.looksAlike.alive]

/-- **So do comparisons**, as they read nothing else. -/
theorem readsWithin_beside : ReadsWithin fun _ x => Agrees Beside x where
  toSequential := Agrees.sequential
  owner := agrees_owner
  scope := agrees_scope
  spec := agrees_specSig
  look hsame hf := .look (fun g g' h => hsame g g' h.looksAlike) hf

/-! ### Lists -/

section Lists

variable {e : Edge} (he : e.childKind ≠ .typeDef)

include he

theorem agrees_copyChild (loader place : Nat) :
    Agrees Beside (Ownership.copyChild e loader place) := by
  have copied : ∀ (k : Kind) {ρ : Type} [Recorded k ρ], k ≠ .typeDef → k ≠ .module →
      Agrees Beside (do return (← copy k loader place).map (·.key) : GraphM (Option Key)) := by
    intro k ρ _ hk hm
    refine Agrees.bind (.look (fun _ _ h => by rw [h.store?]) fun g => ?_) fun _ => .pure _
    split
    · exact .pure _
    · rw [map_eq_pure_bind]
      exact (agrees_makeUnread hk hm _).bind fun _ => .pure _
  cases e with
  | moduleTypes | nestedTypes => exact absurd rfl he
  | assemblyModules => exact .pure _
  | fields | methods | properties | events | params | genericParams =>
    exact copied _ (by decide) (by decide)

theorem agrees_takeOver (loader : Nat) (container : Node) (child : Key) :
    Agrees Beside (Ownership.takeOver e loader container child) := by
  have owned : ∀ c, Agrees Beside (Ownership.setOwner e c (some container)) := fun c =>
    .update fun _ _ h => h.setOwner he c _
  have hclaimed : Agrees Beside (Ownership.claimed e child) := by
    unfold Ownership.claimed
    split
    · exact .pure _
    · exact (agrees_owner _ _).bind fun _ => .pure _
  have hfree : Agrees Beside (Ownership.free e container child) := by
    refine hclaimed.bind fun claimed => ?_
    split
    · exact .pure _
    · refine (agrees_owner e child).bind fun owner => ?_
      cases owner <;> exact .pure _
  refine hfree.bind fun free => ?_
  split
  · exact (owned child).bind fun _ => .pure _
  · refine .look (fun _ _ h => by rw [h.origin]) fun g => ?_
    split
    · exact .pure _
    · refine (agrees_copyChild he _ _).bind fun copied => ?_
      cases copied with
      | none => exact .pure _
      | some copied => exact (owned copied).bind fun _ => .pure _

theorem agrees_storedItems (container : Node) (loader rid : Nat) :
    Agrees Beside (Ownership.storedItems e container loader rid) := by
  have hshared : ∀ place, Agrees Beside (Ownership.sharedChild e loader place) := by
    intro place
    cases e with
    | assemblyModules => exact .pure _
    | moduleTypes | nestedTypes | fields | methods | properties | events | params
    | genericParams => exact (agrees_shared _ _ _).bind fun _ => .pure _
  refine (agrees_children _ _ _).bind fun rids => ?_
  refine (Agrees.sequential.collect hshared _).bind fun candidates => ?_
  refine .look (fun g g' h => ?_) fun g => ?_
  · have hordered : Ownership.ordered g' e candidates = Ownership.ordered g e candidates := by
      unfold Ownership.ordered Ownership.orderKey?
      cases e <;> simp only [h.looksAlike.get]
    rw [hordered]
  · exact Agrees.sequential.collect (agrees_takeOver he loader container) _

/-- **Reading a list of what are no types agrees.** -/
theorem agrees_items (container : Node) : Agrees Beside (Ownership.items e container) := by
  refine .look (fun _ _ h => by rw [h.origin]) fun g => ?_
  refine .getRelaxed (fun g g' h => ?_) (fun cs g g' h => h.setList e container cs)
    (agrees_fromStore (agrees_storedItems he container))
  show g'.lists.get? _ = g.lists.get? _
  rw [h.lists]

end Lists

end Aside
end CliMetadata
