import CliMetadata.Proofs.Graph.Perusing
import CliMetadata.Proofs.Ownership.Stored

/-!
# Stores that have just been opened

Nothing has been read of a module that has just been opened, so **reading can rely on the graph**
(`openModule_grounded`, `Store.loaded_grounded`), whatever its store holds: a row that nothing has
been written down for reads with nothing in its slots, and belongs to the module that it is read
through (`Entity.Unread`).
-/

namespace CliMetadata

open CliMetadata.Graph Loading Stateful

/-- An entity of which nothing has been read, and which belongs to an open module. -/
structure Entity.Unread (g : Graph) (e : Entity) : Prop where
  values : e.values = []
  housed : ∀ m ∈ e.modules, m = ⟨.built 0⟩ ∨ ∃ l, (g.loader? l).isSome ∧ m = ⟨.built l⟩

namespace Graph

variable {g g' : Graph}

/-- What is read of an entity in a graph that has the same written down for it: the same, or what
there is before anything is. -/
theorem get_alike {k : Kind} {ρ : Type} [Recorded k ρ] (id : Id k)
    (h : g'.entities.get? id.node = g.entities.get? id.node) :
    g'.get id = g.get id ∨ g'.get id = Recorded.blank k ∨
      ∃ s l p, g'.store? l = some s ∧ Recorded.ofRow? k s l p = some (g'.get id) := by
  cases hmade : (g.entities.get? id.node).bind (Recorded.unpack? k) with
  | some r =>
    refine .inl ?_
    unfold Graph.get
    rw [h, hmade]
  | none =>
    refine .inr ?_
    unfold Graph.get
    rw [h, hmade]
    cases id.key with
    | built number => exact .inl rfl
    | row l p =>
      dsimp only
      cases hrow : (g'.store? l).bind fun s => Recorded.ofRow? k s l p with
      | none => exact .inl rfl
      | some r =>
        obtain ⟨s, hs, hr⟩ := Option.bind_eq_some_iff.mp hrow
        exact .inr ⟨s, l, p, hs, hr⟩

/-- An entity reads as it does, or as nothing has been read of it. -/
theorem entity_alike {n : Node} (h : g'.entities.get? n = g.entities.get? n) :
    g'.entity n = g.entity n ∨ (g'.entity n).Unread g' := by
  have opened : ∀ {l s}, g'.store? l = some s → ∀ m ∈ [(⟨.built l⟩ : ModuleId)],
      m = ⟨.built 0⟩ ∨ ∃ l, (g'.loader? l).isSome ∧ m = ⟨.built l⟩ :=
    fun hs m hm => .inr ⟨_, loader?_of_store? hs, List.mem_singleton.mp hm⟩
  have first : ∀ m ∈ [(⟨.built 0⟩ : ModuleId)],
      m = ⟨.built 0⟩ ∨ ∃ l, (g'.loader? l).isSome ∧ m = ⟨.built l⟩ :=
    fun m hm => .inl (List.mem_singleton.mp hm)
  have nowhere : ∀ m ∈ ([] : List ModuleId),
      m = ⟨.built 0⟩ ∨ ∃ l, (g'.loader? l).isSome ∧ m = ⟨.built l⟩ :=
    fun _ hm => absurd hm List.not_mem_nil
  obtain ⟨kind, key⟩ := n
  unfold entity
  cases kind with
  | module | assembly | constraint | customAttribute | constant | implMap | security =>
    -- nothing of the kind is made from its row on demand
    obtain hsame | hblank | ⟨s, l, p, hs, hrow⟩ := get_alike ⟨key⟩ h
    · exact .inl (congrArg _ hsame)
    · exact .inr (hblank ▸ ⟨rfl, nowhere⟩)
    · cases hrow
  | typeRef | memberRef | exportedType =>
    obtain hsame | hblank | ⟨s, l, p, hs, hrow⟩ := get_alike ⟨key⟩ h
    · exact .inl (congrArg _ hsame)
    · exact .inr (hblank ▸ ⟨rfl, first⟩)
    · obtain ⟨row, -, hread⟩ := Option.map_eq_some_iff.mp hrow
      exact .inr (hread ▸ ⟨rfl, opened hs⟩)
  | _ =>
    obtain hsame | hblank | ⟨s, l, p, hs, hrow⟩ := get_alike ⟨key⟩ h
    · exact .inl (congrArg _ hsame)
    · exact .inr (hblank ▸ ⟨rfl, nowhere⟩)
    · obtain ⟨row, -, hread⟩ := Option.map_eq_some_iff.mp hrow
      exact .inr (hread ▸ ⟨rfl, nowhere⟩)

/-! ## Opening a module -/

section Opening

variable {s : Store} {policy : InitPolicy} {row : ModuleRow}

/-- The module that is made of a row when its store is opened. -/
def openedModule (g : Graph) (s : Store) (policy : InitPolicy) (row : ModuleRow) : Module :=
  ⟨row.rid, .row g.built row.rid, s.string row.name, (s.guid? row.mvid).getD Guid.zero,
    some ⟨s, policy⟩, none, none⟩

/-- The graph in which a store has been opened as a module. -/
def opening (g : Graph) (s : Store) (policy : InitPolicy) (row : ModuleRow) : Graph :=
  (g.grow .module (g.openedModule s policy row)).setOwner .assemblyModules (.built g.built) none

theorem openModule_run (h : s.moduleRow? = some row) :
    (openModule s policy).run g = (.ok ⟨.built g.built⟩, g.opening s policy row) := by
  unfold openModule
  rw [h]
  rfl

theorem opening_entities (n : Node) : (g.opening s policy row).entities.get? n =
    if ⟨.module, .built g.built⟩ = n then some (.module (g.openedModule s policy row))
    else g.entities.get? n := Index.get?_set _ _ _ _

theorem opening_owners {e : Edge} {c : Key} {o : Node}
    (ho : (g.opening s policy row).owners.get? (e, c) = some (some o)) :
    g.owners.get? (e, c) = some (some o) := by
  unfold opening at ho
  rw [owners_setOwner] at ho
  split at ho
  · cases ho
  · exact ho

theorem opening_loader? (l : Nat) : (g.opening s policy row).loader? l =
    if l = g.built then some ⟨s, policy⟩ else g.loader? l := by
  rw [loader?, opening_entities]
  by_cases hl : l = g.built
  · subst hl
    rw [if_pos rfl, if_pos rfl]
    rfl
  · rw [if_neg hl, if_neg fun heq => hl (Key.built.inj (congrArg Node.key heq)).symm]
    rfl

theorem opening_contains {n : Node} (hn : g.entities.contains n) :
    (g.opening s policy row).entities.contains n := by
  unfold Index.contains at hn ⊢
  rw [opening_entities]
  split
  · rfl
  · exact hn

theorem opening_module : (g.opening s policy row).entity ⟨.module, .built g.built⟩ =
    .module (g.openedModule s policy row) :=
  entity_put (⟨.built g.built⟩ : ModuleId) (g.openedModule s policy row)

/-- No other entity is written. -/
theorem opening_others {n : Node} (hn : n ≠ ⟨.module, .built g.built⟩) :
    (g.opening s policy row).entities.get? n = g.entities.get? n :=
  (opening_entities n).trans (if_neg (Ne.symm hn))

theorem opening_loader {l : Nat} (hl : (g.loader? l).isSome) :
    ((g.opening s policy row).loader? l).isSome := by
  rw [opening_loader?]
  split
  · rfl
  · exact hl

theorem opening_alive {n : Node} (hn : g.alive n) : (g.opening s policy row).alive n := by
  obtain ⟨kind, key⟩ := n
  unfold alive at hn ⊢
  rw [Bool.or_eq_true] at hn ⊢
  refine hn.imp opening_contains fun hrow => ?_
  cases key with
  | row l p => exact opening_loader hrow
  | built => cases hrow

/-- What opening asks of a graph: what reading does, except that there is a module. -/
structure Openable (g : Graph) : Prop where
  first : g.built = 0 ∨ g.alive ⟨.module, .built 0⟩
  opened : ∀ {l}, (g.loader? l).isSome → l < g.built
  sourced : ∀ {n l rid}, g.origin n = .row l rid → g.Known n.key
  listed : ∀ {e o cs c}, g.lists.get? (e, o) = some cs → c ∈ cs → g.Known c
  owned : ∀ {e c o}, g.owners.get? (e, c) = some (some o) → g.alive o ∧ g.Known o.key
  rooted : ∀ {n : Node}, n.key.IsRow ∨ n.kind ∉ [.typeRef, .typeSpec, .memberRef] →
    ∀ v ∈ (g.entity n).values, v.OfRows
  housed : ∀ {n : Node}, n.key.IsRow → ∀ m ∈ (g.entity n).modules, g.alive m.node ∨ m = ⟨.built 0⟩

theorem Grounded.openable (h : g.Grounded) : g.Openable where
  first := .inr h.based
  opened := h.opened
  sourced := h.sourced
  listed := h.listed
  owned := h.owned
  rooted := h.rooted
  housed hn m hm := .inl (h.housed hn m hm)

theorem entity_empty (n : Node) : (Graph.empty.entity n).Unread .empty := by
  have blank : ∀ {k : Kind} {ρ : Type} [Recorded k ρ] (key : Key),
      Graph.empty.get (⟨key⟩ : Id k) = Recorded.blank k :=
    fun key => get_of_dead (by cases key <;> rfl)
  have first : ∀ m ∈ [(⟨.built 0⟩ : ModuleId)],
      m = ⟨.built 0⟩ ∨ ∃ l, (Graph.empty.loader? l).isSome ∧ m = ⟨.built l⟩ :=
    fun m hm => .inl (List.mem_singleton.mp hm)
  obtain ⟨kind, key⟩ := n
  unfold entity
  cases kind with
  | typeRef | memberRef | exportedType =>
    dsimp only
    rw [blank]
    exact ⟨rfl, first⟩
  | _ =>
    dsimp only
    rw [blank]
    exact ⟨rfl, fun _ hm => absurd hm List.not_mem_nil⟩

theorem openable_empty : Graph.empty.Openable where
  first := .inl rfl
  opened hl := by cases hl
  sourced {n l rid} h := by
    have halive := alive_of_origin h
    obtain ⟨kind, key⟩ := n
    cases key <;> cases halive
  listed h := by cases h
  owned h := by cases h
  rooted {n} _ v hv := by
    rw [(entity_empty n).values] at hv
    cases hv
  housed {n} _ m hm := by
    obtain rfl | ⟨l, hl, -⟩ := (entity_empty n).housed m hm
    · exact .inr rfl
    · cases hl

/-- An entity that no row is behind reads as it did. -/
theorem entity_built {kind : Kind} {number : Nat}
    (h : g'.entities.get? ⟨kind, .built number⟩ = g.entities.get? ⟨kind, .built number⟩) :
    g'.entity ⟨kind, .built number⟩ = g.entity ⟨kind, .built number⟩ := by
  have read : ∀ {k : Kind} {ρ : Type} [Recorded k ρ],
      g'.entities.get? ⟨k, .built number⟩ = g.entities.get? ⟨k, .built number⟩ →
        g'.get (⟨.built number⟩ : Id k) = g.get (⟨.built number⟩ : Id k) := by
    intro k ρ _ hk
    have hnode : g'.entities.get? (⟨.built number⟩ : Id k).node =
        g.entities.get? (⟨.built number⟩ : Id k).node := hk
    unfold get
    rw [hnode]
  cases kind <;> exact congrArg _ (read h)

/-- There is a first module once one has been opened. -/
theorem Openable.based (hg : g.Openable) : (g.opening s policy row).alive ⟨.module, .built 0⟩ := by
  rcases hg.first with hzero | hbased
  · have hnew : (g.opening s policy row).entities.contains ⟨.module, .built g.built⟩ := by
      unfold Index.contains
      rw [opening_entities, if_pos rfl]
      rfl
    rw [← hzero]
    exact alive_of_contains hnew
  · exact opening_alive hbased

/-- **Reading can rely on a graph in which a module has been opened.** -/
theorem Openable.opening (hg : g.Openable) : (g.opening s policy row).Grounded where
  based := hg.based
  opened {l} hl := by
    rw [opening_loader?] at hl
    split at hl
    · next heq => exact heq ▸ Nat.lt_succ_self _
    · exact Nat.lt_succ_of_lt (hg.opened hl)
  sourced {n l rid} ho := by
    obtain ⟨kind, key⟩ := n
    cases key with
    | row => trivial
    | built number =>
      by_cases hn : (⟨kind, .built number⟩ : Node) = ⟨.module, .built g.built⟩
      · cases hn
        exact Nat.lt_succ_self _
      · unfold Graph.origin at ho
        rw [entity_built (opening_others hn)] at ho
        exact (hg.sourced ho).mono (Nat.le_succ _)
  listed hl hc := (hg.listed hl hc).mono (Nat.le_succ _)
  owned ho := ⟨opening_alive (hg.owned (opening_owners ho)).1,
    (hg.owned (opening_owners ho)).2.mono (Nat.le_succ _)⟩
  rooted {n} hn v hv := by
    by_cases hnew : n = ⟨.module, .built g.built⟩
    · subst hnew
      rw [opening_module] at hv
      cases hv
    · rcases entity_alike (opening_others hnew) with hsame | hunread
      · exact hg.rooted hn v (hsame ▸ hv)
      · rw [hunread.values] at hv
        cases hv
  housed {n} hn m hm := by
    have hother : n ≠ ⟨.module, .built g.built⟩ := by
      rintro rfl
      exact hn
    rcases entity_alike (opening_others hother) with hsame | hunread
    · rcases hg.housed hn m (hsame ▸ hm) with hthere | rfl
      · exact opening_alive hthere
      · exact hg.based
    · obtain rfl | ⟨l, hl, rfl⟩ := hunread.housed m hm
      · exact hg.based
      · exact alive_of_loader hl

end Opening

end Graph

/-- **So it can on a graph of one module that has just been opened.** -/
theorem Store.loaded_grounded {s : Store} {policy : InitPolicy} {row : ModuleRow}
    (h : s.moduleRow? = some row) : (s.loaded policy).Grounded := by
  have hrun : ((openModule s policy).run .empty).2 = Graph.empty.opening s policy row :=
    congrArg Prod.snd (openModule_run h)
  unfold Store.loaded
  rw [hrun]
  exact openable_empty.opening

end CliMetadata
