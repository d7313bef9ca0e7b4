import CliMetadata.Comparison
import CliMetadata.Proofs.Graph.Consulting
import CliMetadata.Proofs.Graph.References

/-!
# Comparing changes no columns

A comparison reads containers, scopes of references and signatures of specifications, and
nothing else: whatever relation these three keep, it keeps (`Graph.ReadsKeep`).  One such
relation is that **every entity has the same columns**, that is, the same but for the slots
that comparisons read (`Graph.SameColumns`).  In contrast to `Graph.Consulted` it asks
nothing of the graph, so it holds of comparisons in any graph at all.
-/

namespace CliMetadata

open CliMetadata.Graph Loading Stateful

/-! ## What comparisons read -/

/-- A relation that reading what comparisons read keeps. -/
structure Graph.ReadsKeep (R : Graph → Graph → Prop) : Prop where
  owner : ∀ e c, Keeps R (Ownership.owner e c)
  scope : ∀ r : TypeRefId, Keeps R r.scope
  spec : ∀ s : TypeSpecId, Keeps R s.sig

/-- Two graphs that are looked at alike: every entity reads the same, and the same exist. -/
structure Graph.LooksAlike (g g' : Graph) : Prop where
  entity : ∀ n, g'.entity n = g.entity n
  alive : ∀ n, g'.alive n = g.alive n

/-- What asking where types are is of, looking for the module of a type is of. -/
theorem Sequential.moduleWithin {C : (α : Type) → GraphM α → Prop} (hC : Sequential C)
    (howner : ∀ (e : Edge) c, e.childKind = .typeDef → C _ (Ownership.owner e c)) :
    ∀ (bound : Nat) (t : TypeDefId), C _ (t.moduleWithin bound)
  | bound, t => by
    unfold TypeDefId.moduleWithin
    have hdeclaring : C _ t.declaringType :=
      hC.bind (howner .nestedTypes t.key rfl) fun _ => hC.pure _
    refine hC.bind hdeclaring fun above => ?_
    cases above with
    | none => exact hC.bind (howner .moduleTypes t.key rfl) fun _ => hC.pure _
    | some above =>
      cases bound with
      | zero => exact hC.pure _
      | succ n => exact Sequential.moduleWithin hC howner n above

/-- A sort of computations that reading what comparisons read is of. -/
structure Graph.ReadsWithin (C : (α : Type) → GraphM α → Prop) : Prop extends Sequential C where
  owner : ∀ e c, C _ (Ownership.owner e c)
  scope : ∀ r : TypeRefId, C _ r.scope
  spec : ∀ s : TypeSpecId, C _ s.sig
  /-- What is looked up in the graph may decide how to go on. -/
  look : ∀ {α : Type} {f : Graph → GraphM α}, (∀ g g', LooksAlike g g' → f g' = f g) →
    (∀ g, C _ (f g)) → C _ (MonadState.get >>= f)

theorem Graph.ReadsKeep.within {R : Graph → Graph → Prop} [IsPreorder Graph R] (h : ReadsKeep R) :
    ReadsWithin fun _ x => Keeps R x where
  toSequential := Keeps.sequential
  owner := h.owner
  scope := h.scope
  spec := h.spec
  look _ hf := Keeps.get.bind hf

namespace Graph.LooksAlike

variable {g g' : Graph} (h : g.LooksAlike g')

include h

theorem get {k : Kind} {ρ : Type} [Recorded k ρ] [Recorded.Lawful k] (id : Id k) :
    g'.get id = g.get id := LazySlot.get_of_entity (h.entity id.node)

theorem typeDef_level : TypeDefId.level g' = TypeDefId.level g := by
  funext t
  unfold TypeDefId.level
  rw [h.get]

theorem typeRef_level : TypeRefId.level g' = TypeRefId.level g := by
  funext r
  unfold TypeRefId.level
  rw [h.get]

theorem upgrade {k : Kind} (id : Id k) : g'.upgrade id = g.upgrade id := by
  unfold Graph.upgrade
  rw [h.alive]

end Graph.LooksAlike

namespace Graph.ReadsWithin

variable {C : (α : Type) → GraphM α → Prop} (h : ReadsWithin C)

include h

theorem declaringType (t : TypeDefId) : C _ t.declaringType :=
  h.bind (h.owner _ _) fun _ => h.pure _

theorem enclosing (r : TypeRefId) : C _ r.declaringType := by
  refine h.bind (h.scope r) fun scope => ?_
  split
  · exact h.pure _
  · exact h.pure _

theorem path? (t : TypeDefOrRef) : C _ (CompareOptions.path? t) := by
  cases t with
  | typeDef t =>
    refine h.bind (h.declaringType t) fun above => ?_
    refine h.bind (h.toSequential.ancestors h.declaringType _ above) fun enclosing => ?_
    refine h.look (fun g g' hg => ?_) fun _ => h.pure _
    rw [hg.typeDef_level]
  | typeRef r =>
    have hchain : C _ r.nestingChain :=
      h.bind (h.toSequential.chain h.enclosing _ r) fun _ => h.pure _
    refine h.bind hchain fun chain? => h.look (fun g g' hg => ?_) fun _ => h.pure _
    rw [hg.typeRef_level]
  | typeSpec _ => exact h.pure _

theorem moduleWithin (bound : Nat) (t : TypeDefId) : C _ (t.moduleWithin bound) :=
  h.toSequential.moduleWithin (fun e c _ => h.owner e c) bound t

theorem moduleScope (m : ModuleId) : C _ (CompareOptions.moduleScope m) := by
  have hassembly : C _ m.assembly := h.bind (h.owner _ _) fun _ => h.pure _
  refine h.bind hassembly fun a => ?_
  cases a with
  | none => exact h.look (fun g g' hg => by rw [hg.get]) fun _ => h.pure _
  | some a => exact h.look (fun g g' hg => by rw [hg.get]) fun _ => h.pure _

theorem someModuleScope (m : ModuleId) : C _ (some <$> CompareOptions.moduleScope m) := by
  rw [map_eq_pure_bind]
  exact h.bind (h.moduleScope m) fun _ => h.pure _

theorem scopeName? (t : TypeDefOrRef) : C _ (CompareOptions.scopeName? t) := by
  cases t with
  | typeDef t =>
    refine h.bind (h.moduleWithin _ t) fun m => ?_
    cases m with
    | none => exact h.pure _
    | some m => exact h.someModuleScope m
  | typeSpec _ => exact h.pure _
  | typeRef r =>
    refine h.bind (h.toSequential.outermost h.enclosing _ r) fun outermost => ?_
    cases outermost with
    | none => exact h.pure _
    | some outermost =>
      refine h.bind (h.scope outermost) fun scope => ?_
      split
      · exact h.look (fun g g' hg => by rw [hg.get]) fun _ => h.pure _
      · refine h.look (fun g g' hg => by rw [hg.upgrade]) fun g => ?_
        split
        · exact h.someModuleScope _
        · exact h.pure _
      · have hmodule : C _ r.module :=
          h.look (fun g g' hg => by rw [hg.get, hg.upgrade]) fun _ => h.pure _
        refine h.bind hmodule fun m => ?_
        cases m with
        | none => exact h.pure _
        | some m => exact h.someModuleScope m
      · exact h.pure _

omit h in
theorem ite {α : Type} {c : Prop} [Decidable c] {x y : GraphM α} (hx : C _ x) (hy : C _ y) :
    C _ (if c then x else y) := by
  split
  · exact hx
  · exact hy

theorem pathsEqual (o : CompareOptions) (a b : TypeDefOrRef) : C _ (o.pathsEqual a b) := by
  unfold CompareOptions.pathsEqual
  refine h.bind (h.path? a) fun p => h.bind (h.path? b) fun q => ?_
  split
  · refine ite (h.pure _) (ite ?_ (h.pure _))
    refine h.bind (h.scopeName? a) fun s => h.bind (h.scopeName? b) fun t => ?_
    split <;> exact h.pure _
  · exact h.pure _

theorem pairsEqual {α : Type} {equal : α → α → GraphM Bool} (hequal : ∀ a b, C _ (equal a b)) :
    ∀ as bs, C _ (CliMetadata.pairsEqual equal as bs)
  | [], _ | _ :: _, [] => by
    unfold CliMetadata.pairsEqual
    exact h.pure _
  | a :: as, b :: bs => by
    unfold CliMetadata.pairsEqual
    exact h.bind (hequal a b) fun _ => ite (pairsEqual hequal as bs) (h.pure _)

theorem allEqual {α : Type} {equal : α → α → GraphM Bool} (hequal : ∀ a b, C _ (equal a b))
    (as bs : List α) : C _ (CliMetadata.allEqual equal as bs) :=
  ite (h.pairsEqual hequal as bs) (h.pure _)

/-- **Comparisons are of the sort that their reads are of**, under every budget. -/
theorem comparison (o : CompareOptions) : ∀ d,
    (∀ a b, C _ (o.typesEqual d a b)) ∧ ∀ s t, C _ (o.sigsEqual d s t)
  | 0 => ⟨fun _ _ => h.pure _, fun _ _ => h.pure _⟩
  | d + 1 => by
    obtain ⟨types, sigs⟩ := comparison o d
    refine ⟨fun a b => ?_, fun s t => ?_⟩
    · cases a with
      | typeDef _ | typeRef _ =>
        cases b with
        | typeDef _ | typeRef _ => exact h.pathsEqual o _ _
        | typeSpec _ => exact h.pure _
      | typeSpec a =>
        cases b with
        | typeDef _ | typeRef _ => exact h.pure _
        | typeSpec b =>
          rw [CompareOptions.typesEqual]
          refine ite (h.pure _) (h.bind (h.spec a) fun s => h.bind (h.spec b) fun t => ?_)
          split
          · exact sigs _ _
          · exact h.pure _
    · rw [CompareOptions.sigsEqual]
      dsimp only
      split
      · exact h.pure _
      · exact ite (types _ _) (h.pure _)
      · exact h.pure _
      · exact ite (sigs _ _) (h.pure _)
      · refine ite (h.bind (types _ _) fun _ => ?_) (h.pure _)
        exact ite (sigs _ _) (h.pure _)
      · exact h.bind (sigs _ _) fun _ => ite (h.allEqual sigs _ _) (h.pure _)
      · refine ite (h.bind (sigs _ _) fun _ => ite ?_ (h.pure _)) (h.pure _)
        refine h.bind (h.allEqual sigs _ _) fun _ => ite ?_ (h.pure _)
        exact ite (h.allEqual sigs _ _) (h.pure _)
      · exact h.pure _

theorem equalSigs (o : CompareOptions) (s t : Sig) : C _ (o.equalSigs s t) :=
  (h.comparison o _).2 s t

theorem equalMethodSigs (o : CompareOptions) (s t : MethodSig TypeDefOrRef) :
    C _ (o.equalMethodSigs s t) := by
  unfold CompareOptions.equalMethodSigs
  refine ite (h.pure _) (h.bind (h.equalSigs o _ _) fun _ => ?_)
  refine ite (h.pure _) (h.bind (h.allEqual (h.equalSigs o) _ _) fun _ => ?_)
  exact ite (h.pure _) (ite (h.allEqual (h.equalSigs o) _ _) (h.pure _))

end Graph.ReadsWithin

/-! ## Columns -/

/-- An entity without what is in the slots that comparisons read. -/
def Entity.columns : Entity → Entity
  | .typeRef e => .typeRef { e with scope := none }
  | .typeSpec e => .typeSpec { e with sig := none }
  | .methodDef e => .methodDef { e with sig := none }
  | .field e => .field { e with sig := none }
  | e => e

namespace Graph

/-- **Every entity has the same columns.** -/
def SameColumns (g g' : Graph) : Prop :=
  ∀ n : Node, n.kind ≠ .customAttribute → (g'.entity n).columns = (g.entity n).columns

instance : IsPreorder Graph SameColumns where
  refl _ _ _ := rfl
  trans _ _ _ h k n hn := (k n hn).trans (h n hn)

variable {g g' : Graph}

theorem SameColumns.of_asked {children : Node → Prop} (h : g.Asked children g') :
    g.SameColumns g' := fun n _ => congrArg Entity.columns (h.entity n)

/-- Reading a slot that does not count among the columns changes none of them. -/
theorem SameColumns.of_read {k : Kind} {ρ : Type} [Recorded k ρ] [Recorded.Lawful k] {α : Type}
    {z : LazySlot k α} (hz : ∀ v r, (Recorded.pack k (z.set v r)).columns =
      (Recorded.pack k r).columns) (id : Id k) : Keeps SameColumns (z.read id) := by
  intro g n hn
  cases hv : z.get (g.get id) with
  | some v => rw [z.run_held hv]
  | none =>
    obtain ⟨v, htold, -⟩ := z.told_stored g id
    rw [z.run_empty hv, ← htold.quiet.entity hn]
    generalize ((z.stored g id).run g).2 = g₁
    by_cases hid : id.node = n
    · rw [← hid, update, entity_put, hz, Recorded.Lawful.entity_node (ρ := ρ)]
    · exact congrArg Entity.columns (entity_put_of_ne (loader?_put z.ne_module id _) hid)

/-- **Comparing changes no columns.** -/
theorem readsKeep_columns : ReadsKeep SameColumns where
  owner e c g := .of_asked (owner_run g e c).1
  scope := SameColumns.of_read (z := TypeRefId.lazyScope) fun _ _ => rfl
  spec := SameColumns.of_read (z := TypeSpecId.lazySig) fun _ _ => rfl

/-- What has been consulted has the columns that it had. -/
theorem Consulted.sameColumns {g g' : Graph} (h : g.Consulted g') : g.SameColumns g' := by
  have hfilled : ∀ (g : Graph) (n : Node), (g.filled n).columns = (g.entity n).columns := by
    rintro g ⟨kind, key⟩
    cases kind <;> rfl
  intro n hn
  rw [← hfilled, ← hfilled, h.filled hn]

/-- Tokens are told by columns. -/
theorem Consulted.token (h : g.Consulted g') {n : Node} (hn : n.kind ≠ .customAttribute) :
    g'.token n = g.token n := by
  have htoken : ∀ e : Entity, e.columns.fixedToken? = e.fixedToken? ∧ e.columns.rid = e.rid := by
    intro e
    cases e <;> exact ⟨rfl, rfl⟩
  unfold Graph.token
  dsimp only
  rw [← (htoken (g'.entity n)).1, ← (htoken (g'.entity n)).2, h.sameColumns n hn,
    (htoken (g.entity n)).1, (htoken (g.entity n)).2]

end Graph
end CliMetadata
