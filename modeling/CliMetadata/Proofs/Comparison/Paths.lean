import CliMetadata.Comparison
import CliMetadata.Proofs.Graph.Consulting
import CliMetadata.Proofs.Resolution.Paths

/-!
# Paths and scopes read alike

Types are compared by path and, where that counts, by the name of the assembly or module
that they are looked for in.  In an intact graph **the path and the scope name of a type
do not depend on what has been consulted before** (`Graph.Intact.settles_path?`,
`Graph.Intact.settles_scopeName?`), and so `pathsEqual` decides a relation that the graph
has from the start (`PathsAgree`).
-/

namespace CliMetadata

open CliMetadata.Graph Loading Stateful

/-! ## Walks -/

section Walks

variable {α : Type} {S : Graph → Prop} {P : α → Prop} {up : α → GraphM (Option α)}

theorem settles_ancestors (h : ∀ x, P x → Settles S (up x) fun y => ∀ z ∈ y, P z) :
    ∀ (bound : Nat) (start : Option α), (∀ x ∈ start, P x) →
      Settles S (Chain.ancestors up bound start) fun _ => True
  | 0, _, _ => .pure trivial
  | _ + 1, none, _ => .pure trivial
  | n + 1, some x, hx =>
    (h x (hx x rfl)).bind fun y hy => (settles_ancestors h n y hy).bind fun _ _ => .pure trivial

theorem settles_chain (h : ∀ x, P x → Settles S (up x) fun y => ∀ z ∈ y, P z) :
    ∀ (bound : Nat) (x : α), P x → Settles S (Chain.chain up bound x) fun _ => True
  | 0, _, _ => .pure trivial
  | n + 1, x, hx => by
    refine (h x hx).bind fun y hy => ?_
    cases y with
    | none => exact .pure trivial
    | some y => exact (settles_chain h n y (hy y rfl)).bind fun _ _ => .pure trivial

theorem settles_outermost (h : ∀ x, P x → Settles S (up x) fun y => ∀ z ∈ y, P z) :
    ∀ (bound : Nat) (x : α), P x →
      Settles S (Chain.outermost up bound x) fun y => ∀ z ∈ y, P z
  | 0, _, _ => .pure (by simp)
  | n + 1, x, hx => by
    refine (h x hx).bind fun y hy => ?_
    cases y with
    | none => exact .pure (by simpa using hx)
    | some y => exact settles_outermost h n y (hy y rfl)

end Walks

/-! ## Columns -/

namespace Graph.Consulted

variable {g g' : Graph}

/-- The columns of an entity without slots that comparisons read. -/
theorem get {k : Kind} {ρ : Type} [Recorded k ρ] [Recorded.Lawful k] (h : g.Consulted g')
    (hk : k ≠ .customAttribute) (hplain : ∀ (g : Graph) (id : Id k), g.filled id.node = g.entity id.node)
    (id : Id k) : g'.get id = g.get id := by
  have hfilled := h.filled (n := id.node) hk
  rw [hplain, hplain] at hfilled
  exact LazySlot.get_of_entity hfilled

/-- A reference differs by its scope at most. -/
theorem typeRef (h : g.Consulted g') (r : TypeRefId) :
    g'.get r = { g.get r with scope := (g'.get r).scope } := by
  have hfilled := h.filled (n := r.node) (by rintro ⟨⟩)
  exact congrArg (fun e : TypeRef => { e with scope := (g'.get r).scope })
    (Recorded.pack_inj (k := .typeRef) hfilled)

theorem typeRef_level (h : g.Consulted g') (r : TypeRefId) : r.level g' = r.level g := by
  unfold TypeRefId.level
  rw [h.typeRef r]

theorem typeDef_level (h : g.Consulted g') (t : TypeDefId) : t.level g' = t.level g := by
  unfold TypeDefId.level
  rw [h.get (by decide) (fun _ _ => rfl) t]

end Graph.Consulted

namespace Graph.Intact

variable {g : Graph} (hg : g.Intact)

include hg

/-! ## Types -/

theorem settles_owner (e : Edge) (c : Key) :
    Settles g.Consulted (Ownership.owner e c) fun _ => True := ⟨_, hg.yields_owner e c, trivial⟩

theorem settles_declaringType (t : TypeDefId) :
    Settles g.Consulted t.declaringType fun y => ∀ z ∈ y, True :=
  (hg.settles_owner _ _).bind fun _ _ => .pure (by simp)

theorem settles_typeDefPath (t : TypeDefId) : Settles g.Consulted t.path? fun _ => True := by
  refine (hg.settles_declaringType t).bind fun _ _ => ?_
  refine (settles_ancestors (fun x _ => hg.settles_declaringType x) _ _ (by simp)).bind fun a _ => ?_
  refine .reads (a := if a.2 then some ((t :: a.1).map (TypeDefId.level g)).reverse else none)
    (fun g' h => ?_) trivial
  rw [show TypeDefId.level g' = TypeDefId.level g from funext h.typeDef_level]

theorem settles_moduleWithin : ∀ (bound : Nat) (t : TypeDefId),
    Settles g.Consulted (t.moduleWithin bound) fun _ => True
  | bound, t => by
    unfold TypeDefId.moduleWithin
    refine (hg.settles_declaringType t).bind fun enclosing _ => ?_
    cases enclosing with
    | none => exact (hg.settles_owner _ _).bind fun _ _ => .pure trivial
    | some enclosing =>
      cases bound with
      | zero => exact .pure trivial
      | succ n => exact settles_moduleWithin n enclosing

theorem settles_moduleScope (m : ModuleId) :
    Settles g.Consulted (CompareOptions.moduleScope m) fun _ => True := by
  have hassembly : Settles g.Consulted m.assembly fun _ => True :=
    (hg.settles_owner _ _).bind fun _ _ => .pure trivial
  refine hassembly.bind fun a _ => ?_
  cases a with
  | none =>
    refine .reads (a := (g.get m).name.lossy) (fun g' h => ?_) trivial
    rw [h.get (by decide) (fun _ _ => rfl) m]
  | some a =>
    refine .reads (a := (g.get a).identity.name) (fun g' h => ?_) trivial
    rw [h.get (by decide) (fun _ _ => rfl) a]

/-! ## References -/

/-- The scope of a reference that is there reads alike, and so does what encloses it, which
is there too. -/
theorem settles_scope {r : TypeRefId} (hr : g.present r.node) :
    Settles g.Consulted r.scope fun v => ∀ x, v = some (.typeRef x) → g.present x.node := by
  refine ⟨_, LazySlot.yields (z := TypeRefId.lazyScope) (fun _ _ => rfl) hr, fun x hx => ?_⟩
  have hmem : .typeRef x ∈ TypeRefId.lazyScope.refs (TypeRefId.lazyScope.value g r) := by
    rw [hx]
    exact List.mem_singleton.mpr rfl
  exact TypeRefId.lazyScope.refs_value hg.scope r (.typeRef x) hmem

theorem settles_enclosing {r : TypeRefId} (hr : g.present r.node) :
    Settles g.Consulted r.declaringType fun y => ∀ x ∈ y, g.present x.node := by
  refine (hg.settles_scope hr).bind fun v hv => ?_
  split
  · exact .pure (by simpa using hv _ rfl)
  · exact .pure (by simp)

theorem settles_typeRefPath {r : TypeRefId} (hr : g.present r.node) :
    Settles g.Consulted r.path? fun _ => True := by
  have hchain : Settles g.Consulted r.nestingChain fun _ => True :=
    (settles_chain (fun _ => hg.settles_enclosing) _ r hr).bind fun _ _ => .pure trivial
  refine hchain.bind fun chain? _ => ?_
  refine .reads (a := chain?.map fun chain => chain.map (TypeRefId.level g)) (fun g' h => ?_) trivial
  rw [show TypeRefId.level g' = TypeRefId.level g from funext h.typeRef_level]

omit hg in
theorem settles_typeRefModule (r : TypeRefId) : Settles g.Consulted r.module fun _ => True := by
  refine .reads (f := fun g' : Graph => g'.upgrade (g'.get r).module)
    (a := g.upgrade (g.get r).module) (fun g' h => ?_) trivial
  rw [h.typeRef r]
  unfold upgrade
  rw [h.alive (by rintro ⟨⟩)]

/-! ## What types are compared by -/

/-- **The path of a type reads alike.** -/
theorem settles_path? {t : TypeDefOrRef} (ht : g.present t.node) :
    Settles g.Consulted (CompareOptions.path? t) fun _ => True := by
  cases t with
  | typeDef t => exact hg.settles_typeDefPath t
  | typeRef r => exact hg.settles_typeRefPath ht
  | typeSpec _ => exact .pure trivial

/-- **So does the name of its scope.** -/
theorem settles_scopeName? {t : TypeDefOrRef} (ht : g.present t.node) :
    Settles g.Consulted (CompareOptions.scopeName? t) fun _ => True := by
  have hscope : ∀ m : ModuleId, Settles g.Consulted
      (some <$> CompareOptions.moduleScope m) fun _ => True := fun m =>
    (hg.settles_moduleScope m).map fun _ _ => trivial
  cases t with
  | typeDef t =>
    refine (hg.settles_moduleWithin _ t).bind fun m _ => ?_
    cases m with
    | none => exact .pure trivial
    | some m => exact hscope m
  | typeSpec _ => exact .pure trivial
  | typeRef r =>
    refine (settles_outermost (fun _ => hg.settles_enclosing) _ r ht).bind fun outermost hx => ?_
    cases outermost with
    | none => exact .pure trivial
    | some outermost =>
      refine (hg.settles_scope (hx outermost rfl)).bind fun scope _ => ?_
      cases scope with
      | none => exact .pure trivial
      | some scope =>
        cases scope with
        | assemblyRef a =>
          refine .reads (a := some (g.get a).name.lossy) (fun g' h => ?_) trivial
          rw [h.get (by decide) (fun _ _ => rfl) a]
        | module m =>
          -- whether the module exists is the same in all of the graphs
          have hmodule : ∀ g', g.Consulted g' → g'.upgrade m = g.upgrade m := by
            intro g' h
            unfold upgrade
            rw [h.alive (by rintro ⟨⟩)]
          cases hm : g.upgrade m with
          | none =>
            refine ⟨none, fun g' h => ?_, trivial⟩
            rw [run_get_bind, hmodule g' h, hm]
            exact ⟨rfl, h⟩
          | some m' =>
            obtain ⟨v, hv, -⟩ := hscope m'
            refine ⟨v, fun g' h => ?_, trivial⟩
            rw [run_get_bind, hmodule g' h, hm]
            exact hv g' h
        | moduleRef _ =>
          refine (settles_typeRefModule r).bind fun m _ => ?_
          cases m with
          | none => exact .pure trivial
          | some m => exact hscope m
        | typeRef _ => exact .pure trivial

end Graph.Intact

/-! ## Whether paths are equal -/

namespace Graph

/-- The path that a type is compared by. -/
def pathOf (g : Graph) (t : TypeDefOrRef) : Option TypePath := ((CompareOptions.path? t).run g).1

/-- The name of the scope that a type is looked for in. -/
def scopeOf (g : Graph) (t : TypeDefOrRef) : Option String :=
  ((CompareOptions.scopeName? t).run g).1

end Graph

namespace CompareOptions

variable {g : Graph} {o : CompareOptions} {a b c : TypeDefOrRef}

/-- Two types are looked for in scopes of the same name, up to case. -/
def ScopesAgree (g : Graph) (a b : TypeDefOrRef) : Prop :=
  ∃ s t, g.scopeOf a = some s ∧ g.scopeOf b = some t ∧ Text.Ascii.sameText s t = true

/-- Two types have the same path and, where that counts, scopes of the same name. -/
def PathsAgree (o : CompareOptions) (g : Graph) (a b : TypeDefOrRef) : Prop :=
  ∃ p, g.pathOf a = some p ∧ g.pathOf b = some p ∧ (o.scope = true → ScopesAgree g a b)

theorem ScopesAgree.symm (h : ScopesAgree g a b) : ScopesAgree g b a := by
  obtain ⟨s, t, hs, ht, hsame⟩ := h
  refine ⟨t, s, ht, hs, ?_⟩
  simp only [Text.Ascii.sameText, beq_iff_eq] at hsame ⊢
  exact hsame.symm

theorem ScopesAgree.trans (h : ScopesAgree g a b) (k : ScopesAgree g b c) : ScopesAgree g a c := by
  obtain ⟨s, t, hs, ht, hst⟩ := h
  obtain ⟨t', u, ht', hu, htu⟩ := k
  obtain rfl : t = t' := Option.some.inj (ht.symm.trans ht')
  refine ⟨s, u, hs, hu, ?_⟩
  simp only [Text.Ascii.sameText, beq_iff_eq] at hst htu ⊢
  exact hst.trans htu

theorem PathsAgree.symm (h : PathsAgree o g a b) : PathsAgree o g b a := by
  obtain ⟨p, ha, hb, hscope⟩ := h
  exact ⟨p, hb, ha, fun ho => (hscope ho).symm⟩

theorem PathsAgree.trans (h : PathsAgree o g a b) (k : PathsAgree o g b c) :
    PathsAgree o g a c := by
  obtain ⟨p, ha, hb, hab⟩ := h
  obtain ⟨q, hb', hc, hbc⟩ := k
  obtain rfl : p = q := Option.some.inj (hb.symm.trans hb')
  exact ⟨p, ha, hc, fun ho => (hab ho).trans (hbc ho)⟩

/-- Where two paths are read, and the names of two scopes, comparing the paths decides whether
they agree. -/
theorem decides_pathsAgree {S : Graph → Prop} (hpa : Yields S (path? a) (g.pathOf a))
    (hpb : Yields S (path? b) (g.pathOf b)) (hsa : Yields S (scopeName? a) (g.scopeOf a))
    (hsb : Yields S (scopeName? b) (g.scopeOf b)) :
    Decides S (pathsEqual o a b) (PathsAgree o g a b) := by
  refine Settles.after hpa (Settles.after hpb ?_)
  cases hp : g.pathOf a with
  | none => exact Decides.refute (by simp [PathsAgree, hp])
  | some p =>
    cases hq : g.pathOf b with
    | none => exact Decides.refute (by simp [PathsAgree, hq])
    | some q =>
      by_cases hpq : p = q
      · subst hpq
        have hagree : PathsAgree o g a b ↔ (o.scope = true → ScopesAgree g a b) := by
          simp [PathsAgree, hp, hq]
        simp only [bne_self_eq_false, Bool.false_eq_true, if_false]
        cases ho : o.scope with
        | false => exact .pure (by simp [hagree, ho])
        | true =>
          refine Decides.congr (p := ScopesAgree g a b) ?_ (by simp [hagree, ho])
          refine Settles.after hsa (Settles.after hsb ?_)
          cases hs : g.scopeOf a with
          | none => exact Decides.refute (by simp [ScopesAgree, hs])
          | some s =>
            cases ht : g.scopeOf b with
            | none => exact Decides.refute (by simp [ScopesAgree, ht])
            | some t => exact .pure (by simp [ScopesAgree, hs, ht])
      · have hne : (p != q) = true := bne_iff_ne.mpr hpq
        simp only [hne, if_true]
        exact Decides.refute (by simp [PathsAgree, hp, hq, Ne.symm hpq])

/-- **Comparing paths decides whether they agree.** -/
theorem decides_pathsEqual (hg : g.Intact) (ha : g.present a.node) (hb : g.present b.node) :
    Decides g.Consulted (pathsEqual o a b) (PathsAgree o g a b) :=
  decides_pathsAgree ((hg.settles_path? ha).value (.refl g)).1
    ((hg.settles_path? hb).value (.refl g)).1 ((hg.settles_scopeName? ha).value (.refl g)).1
    ((hg.settles_scopeName? hb).value (.refl g)).1

end CompareOptions
end CliMetadata
