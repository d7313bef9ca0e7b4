import CliMetadata.Graph.Modules
import CliMetadata.Proofs.Graph.Reading

/-!
# Reading references leads to later graphs

What a reference is scoped to, and where an exported type is kept, is read on demand,
and reading it may make entities that carry attributes.  All of this keeps the relation
`Graph.Later`, and so do the walks along enclosing entities.

**A scope that has been read is held from then on** (`TypeRefId.scope_run`,
`Graph.Later.scope_held`).  So the enclosing reference that was found once is the one
that every later graph holds (`TypeRefId.enclosing`), and there is nothing left to be
read of it.
-/

namespace CliMetadata

open CliMetadata.Graph Loading Stateful

/-! ## Entities with attributes -/

theorem keeps_methodOf (kind : CodedKind) (loader : Nat) (index : CodedIndex) :
    Keeps Later (methodOf kind loader index) := by
  unfold methodOf
  split
  · split
    · exact (keeps_shared (by decide) _ _).bind fun _ => Keeps.pure _
    · exact (keeps_shared (by decide) _ _).bind fun _ => Keeps.pure _
    · exact Keeps.pure _
  · exact Keeps.pure _

theorem keeps_attributes (loader : Nat) (parent : Token) :
    Keeps Later (attributes loader parent) := by
  refine (keeps_children _ _ _).bind fun rids => keeps_collect (fun rid => ?_) rids
  refine (keeps_rowAt _ _ _).bind fun row => ?_
  cases row with
  | none => exact Keeps.pure _
  | some row =>
    refine (keeps_methodOf _ _ _).bind fun constructor => Keeps.get.bind fun g => ?_
    exact Keeps.map (keeps_makeUnread (by decide) (by decide) _)

section Carrying

variable {k : Kind} {ρ : Type} [Recorded k ρ] [Recorded.Lawful k]

/-- An entity without slots of its own is made with the attributes it carries. -/
theorem keeps_sharedWithAttributes (hk : k ≠ .module)
    (hsame : ∀ (r : ρ) e', (Recorded.pack k r).Le e' → e' = Recorded.pack k r)
    (token : ρ → Token) (loader place : Nat) :
    Keeps Later (sharedWithAttributes k token loader place) := by
  let id : Id k := ⟨.row loader place⟩
  intro g
  unfold sharedWithAttributes
  rw [run_get_bind]
  by_cases hc : g.entities.contains id.node
  · rw [if_pos hc]
    exact Later.refl g
  · rw [if_neg hc]
    cases hr : (g.store? loader).bind fun s => Recorded.ofRow? k s loader place with
    | none => exact Later.refl g
    | some r =>
      let g₁ := ((attributes loader (token r)).run g).2
      have hread : g.Later g₁ := keeps_attributes loader (token r) g
      -- the columns have not changed while the attributes were read
      have hcolumns : g₁.entity id.node = Recorded.pack k r := by
        have hentity := hread.entity (n := id.node) (Or.inl trivial)
        rw [Recorded.Lawful.entity_node (ρ := ρ), get_of_not_contains hc hr] at hentity
        exact hsame r _ hentity
      have hput : g₁.Later (g₁.put id r) := Later.of_put_same (loader?_put hk id r) hcolumns
      exact hread.trans (hput.trans (Later.of_eq rfl rfl rfl rfl))

end Carrying

theorem keeps_assemblyRef (loader place : Nat) : Keeps Later (assemblyRef loader place) :=
  keeps_sharedWithAttributes (by decide) (by rintro _ _ ⟨⟩; rfl) _ _ _

theorem keeps_moduleRef (loader place : Nat) : Keeps Later (moduleRef loader place) :=
  keeps_sharedWithAttributes (by decide) (by rintro _ _ ⟨⟩; rfl) _ _ _

theorem keeps_file (loader place : Nat) : Keeps Later (file loader place) :=
  keeps_sharedWithAttributes (by decide) (by rintro _ _ ⟨⟩; rfl) _ _ _

theorem keeps_resolutionScope (loader : Nat) (index : CodedIndex) :
    Keeps Later (resolutionScope loader index) := by
  unfold resolutionScope
  split
  · split
    · exact Keeps.pure _
    · exact (keeps_moduleRef _ _).bind fun _ => Keeps.pure _
    · exact (keeps_assemblyRef _ _).bind fun _ => Keeps.pure _
    · exact (keeps_shared (by decide) _ _).bind fun _ => Keeps.pure _
    · exact Keeps.pure _
  · exact Keeps.pure _

theorem keeps_implementation (loader : Nat) (index : CodedIndex) :
    Keeps Later (implementation loader index) := by
  unfold implementation
  split
  · split
    · exact (keeps_file _ _).bind fun _ => Keeps.pure _
    · exact (keeps_assemblyRef _ _).bind fun _ => Keeps.pure _
    · exact (keeps_shared (by decide) _ _).bind fun _ => Keeps.pure _
    · exact Keeps.pure _
  · exact Keeps.pure _

/-! ## Walks -/

section Walks

variable {α : Type} {up : α → GraphM (Option α)}

namespace Sequential

variable {C : (α : Type) → GraphM α → Prop} (hC : Sequential C)

include hC

/-- A walk is of the sort that its steps are of. -/
theorem ancestors (h : ∀ x, C _ (up x)) : ∀ (bound : Nat) (start : Option α),
    C _ (Chain.ancestors up bound start)
  | 0, _ => hC.pure _
  | _ + 1, none => hC.pure _
  | n + 1, some x => hC.bind (h x) fun next => hC.bind (ancestors h n next) fun _ => hC.pure _

theorem chain (h : ∀ x, C _ (up x)) : ∀ (bound : Nat) (x : α), C _ (Chain.chain up bound x)
  | 0, _ => hC.pure _
  | n + 1, x => by
    refine hC.bind (h x) fun next => ?_
    cases next with
    | none => exact hC.pure _
    | some y => exact hC.bind (chain h n y) fun _ => hC.pure _

theorem outermost (h : ∀ x, C _ (up x)) : ∀ (bound : Nat) (x : α),
    C _ (Chain.outermost up bound x)
  | 0, _ => hC.pure _
  | n + 1, x => by
    refine hC.bind (h x) fun next => ?_
    cases next with
    | none => exact hC.pure _
    | some y => exact outermost h n y

end Sequential

variable {R : Graph → Graph → Prop} [IsPreorder Graph R]

theorem keeps_ancestors (h : ∀ x, Keeps R (up x)) (bound : Nat) (start : Option α) :
    Keeps R (Chain.ancestors up bound start) := Keeps.sequential.ancestors h bound start

theorem keeps_chain (h : ∀ x, Keeps R (up x)) (bound : Nat) (x : α) :
    Keeps R (Chain.chain up bound x) := Keeps.sequential.chain h bound x

theorem keeps_outermost (h : ∀ x, Keeps R (up x)) (bound : Nat) (x : α) :
    Keeps R (Chain.outermost up bound x) := Keeps.sequential.outermost h bound x

end Walks

/-! ## Type references -/

namespace TypeRefId

variable {g g' : Graph} {r : TypeRefId}

/-- What a reference is scoped to, as its row has it. -/
def storedScope (g : Graph) (r : TypeRefId) : GraphM (Option ResolutionScope) :=
  fromStore (g.origin r.node) none fun loader rid => do
    match ← rowAt (·.typeRefs) loader rid with
    | none => return none
    | some row => resolutionScope loader row.scope

theorem keeps_storedScope (g : Graph) (r : TypeRefId) : Keeps Later (storedScope g r) := by
  refine keeps_fromStore fun loader rid => (keeps_rowAt _ _ _).bind fun row => ?_
  cases row with
  | none => exact Keeps.pure _
  | some row => exact keeps_resolutionScope _ _

theorem scope_eq (g : Graph) (r : TypeRefId) :
    r.scope.run g = (r.scopeSlot.getRelaxed (storedScope g r)).run g := rfl

theorem keeps_scope (r : TypeRefId) : Keeps Later r.scope := by
  intro g
  rw [scope_eq]
  refine keeps_getRelaxed (keeps_storedScope g r) (fun g' hempty => ?_) g
  generalize ((storedScope g r).run g').1 = v
  generalize ((storedScope g r).run g').2 = g' at *
  show g'.Later (g'.update r fun e => { e with scope := some v })
  exact Later.of_update (loader?_put (k := .typeRef) (by decide) _ _)
    (.typeRef (Slot.Le.fill hempty v) rfl)

/-- A scope that is held is read as it is. -/
theorem scope_run {v : Option ResolutionScope} (h : (g.get r).scope = some v) :
    r.scope.run g = (v, g) := by
  rw [scope_eq]
  exact getRelaxed_held h

/-- Once a scope has been read, it is held. -/
theorem scope_read (g : Graph) (r : TypeRefId) :
    ((r.scope.run g).2.get r).scope = some (r.scope.run g).1 := by
  rw [scope_eq]
  have hslot : ∀ v g', r.scopeSlot.peek (r.scopeSlot.publish v g') = some v :=
    fun v g' => congrArg TypeRef.scope (get_put (g := g') r _)
  exact getRelaxed_read hslot

/-- The enclosing reference that a scope is. -/
def enclosing? : Option ResolutionScope → Option TypeRefId
  | some (.typeRef enclosing) => some enclosing
  | _ => none

theorem declaringType_eq (g : Graph) (r : TypeRefId) :
    r.declaringType.run g = (enclosing? (r.scope.run g).1, (r.scope.run g).2) := by
  unfold declaringType
  rw [run_bind]
  split
  · next h => rw [h]; rfl
  · next h =>
    unfold enclosing?
    split
    · next henclosing => exact absurd henclosing (h _)
    · rfl

theorem keeps_declaringType (r : TypeRefId) : Keeps Later r.declaringType := by
  intro g
  rw [declaringType_eq]
  exact keeps_scope r g

theorem keeps_nonNested (r : TypeRefId) : Keeps Later r.nonNested :=
  keeps_outermost keeps_declaringType _ _

theorem keeps_nestingChain (r : TypeRefId) : Keeps Later r.nestingChain :=
  (keeps_chain keeps_declaringType _ _).bind fun _ => Keeps.pure _

theorem keeps_path? (r : TypeRefId) : Keeps Later r.path? :=
  (keeps_nestingChain r).bind fun _ => Keeps.get.bind fun _ => Keeps.pure _

theorem keeps_module (r : TypeRefId) : Keeps Later r.module := Keeps.get.bind fun _ => Keeps.pure _

end TypeRefId

namespace Graph.Later

variable {g g' : Graph}

/-- A scope that is held stays. -/
theorem scope_held (h : g.Later g') {r : TypeRefId} {v : Option ResolutionScope}
    (hv : (g.get r).scope = some v) : (g'.get r).scope = some v :=
  (Entity.Le.of_typeRef (h.entity (n := r.node) (Or.inr rfl))).1.held hv

/-- The namespace and name of a reference do not change. -/
theorem typeRef_level (h : g.Later g') (r : TypeRefId) : r.level g' = r.level g := by
  have hcolumns : g'.get r = { g.get r with scope := (g'.get r).scope } :=
    (Entity.Le.of_typeRef (h.entity (n := r.node) (Or.inr rfl))).2
  unfold TypeRefId.level
  rw [hcolumns]

/-- The namespace and name of a type do not change. -/
theorem typeDef_level (h : g.Later g') {t : TypeDefId} (ht : g.Known t.key) :
    t.level g' = t.level g := by
  have hsame : g'.get t = g.get t := Entity.Le.of_typeDef (h.entity (n := t.node) (Or.inl ht))
  unfold TypeDefId.level
  rw [hsame]

end Graph.Later

/-! ## Exported types -/

namespace ExportedTypeId

theorem keeps_implementation (e : ExportedTypeId) : Keeps Later e.implementation := by
  refine keeps_readSlot (fun loader rid => (keeps_rowAt _ _ _).bind fun row => ?_) ?_
  · cases row with
    | none => exact Keeps.pure _
    | some row => exact CliMetadata.keeps_implementation _ _
  · intro g v hempty
    show g.Later (g.update e fun x => { x with implementation := some v })
    exact Later.of_update (loader?_put (k := .exportedType) (by decide) _ _)
      (.exportedType (Slot.Le.fill hempty v) rfl)

theorem keeps_declaringType (e : ExportedTypeId) : Keeps Later e.declaringType := by
  refine (keeps_implementation e).bind fun i => ?_
  split
  · exact Keeps.pure _
  · exact Keeps.pure _

theorem keeps_path? (e : ExportedTypeId) : Keeps Later e.path? := by
  refine (keeps_declaringType e).bind fun enclosing => ?_
  exact (keeps_ancestors keeps_declaringType _ _).bind fun _ => Keeps.get.bind fun _ => Keeps.pure _

theorem keeps_answers (e : ExportedTypeId) (r : TypeRefId) : Keeps Later (e.answers r) := by
  refine r.keeps_path?.bind fun expected => ?_
  cases expected with
  | none => exact Keeps.pure _
  | some expected => exact (keeps_path? e).bind fun _ => Keeps.pure _

theorem keeps_module (e : ExportedTypeId) : Keeps Later e.module :=
  Keeps.get.bind fun _ => Keeps.pure _

end ExportedTypeId
end CliMetadata
