import CliMetadata.Proofs.Ownership.BackReferences

/-!
# The invariant of containment

`Graph.WellMade` is about the entities: numbers are given out in order, and an entity
that stands for a row stands for one of its table.  `Graph.Owned` is about the two
sides of containment.  **Whatever a list holds has been recorded as owned by the
list's container**, no list holds a child twice, and what is in a list on one edge is
in no container on the edge that excludes it.

The back-reference of a child need not have its list: the list may not have been read
yet, or the store may name a container that does not list the child.

Every operation on containers is made of four changes: asking (`Graph.Asked`), giving
a number to a new entity (`Graph.grow`), and writing one back-reference
(`Graph.setOwner`) or one list (`Graph.setList`).  There is one lemma for each and
each part of the invariant.
-/

namespace CliMetadata

open Loading Stateful

/-- Every row goes by its place in its table. -/
def Store.Numbered (s : Store) : Prop :=
  ∀ table place row, s.row? table place = some row → row.head.rid = place

/-- A row that is found at a place of a table has its number. -/
theorem Store.Numbered.rid {s : Store} (h : s.Numbered) {σ : Type} {rows : List σ} {row : σ → Row}
    {table : TableId} {place : Nat} {r : σ} (hrows : s.rows table = rows.map row)
    (hr : nth rows place = some r) : (row r).head.rid = place :=
  h table place (row r) (by rw [row?, hrows, nth_map, hr, Option.map_some])

/-- What holds of every row holds as the tables are gone through. -/
theorem Store.forall_row_iff (s : Store) {P : TableId → Nat → Row → Prop} :
    (∀ table place row, s.row? table place = some row → P table place row) ↔
      ∀ table ∈ TableId.all, ∀ x ∈ (s.rows table).zipIdx, P table (x.2 + 1) x.1 := by
  constructor
  · rintro h table - ⟨row, i⟩ hx
    refine h table (i + 1) row ?_
    rw [row?, nth, if_neg (Nat.succ_ne_zero i)]
    exact List.mem_zipIdx_iff_getElem?.mp hx
  · intro h table place row hrow
    have hmem : table ∈ TableId.all := by cases table <;> decide
    unfold row? nth at hrow
    split at hrow
    · cases hrow
    · next hplace =>
      have hP := h table hmem (row, place - 1) (List.mem_zipIdx_iff_getElem?.mpr hrow)
      rwa [Nat.sub_add_cancel (Nat.pos_of_ne_zero hplace)] at hP

instance (s : Store) : Decidable s.Numbered := decidable_of_iff _ s.forall_row_iff.symm

/-- On every edge but that of modules, the children are made from the rows of a table. -/
theorem Edge.tabled (e : Edge) (he : e ≠ .assemblyModules) :
    ∃ (ρ : Type) (_ : Recorded e.childKind ρ) (_ : Recorded.Tabled e.childKind),
      (∀ l p, Ownership.sharedChild e l p = (do
        return (← shared e.childKind l p).map (·.key))) ∧
      ∀ l p, Ownership.copyChild e l p = (do
        return (← copy e.childKind l p).map (·.key)) := by
  cases e with
  | assemblyModules => exact absurd rfl he
  | moduleTypes | nestedTypes =>
    exact ⟨TypeDef, inferInstanceAs (Recorded .typeDef _), inferInstanceAs (Recorded.Tabled .typeDef),
      fun _ _ => rfl, fun _ _ => rfl⟩
  | fields =>
    exact ⟨Field, inferInstanceAs (Recorded .field _), inferInstanceAs (Recorded.Tabled .field),
      fun _ _ => rfl, fun _ _ => rfl⟩
  | methods =>
    exact ⟨MethodDef, inferInstanceAs (Recorded .methodDef _),
      inferInstanceAs (Recorded.Tabled .methodDef), fun _ _ => rfl, fun _ _ => rfl⟩
  | properties =>
    exact ⟨Property, inferInstanceAs (Recorded .property _),
      inferInstanceAs (Recorded.Tabled .property), fun _ _ => rfl, fun _ _ => rfl⟩
  | events =>
    exact ⟨Event, inferInstanceAs (Recorded .event _), inferInstanceAs (Recorded.Tabled .event),
      fun _ _ => rfl, fun _ _ => rfl⟩
  | params =>
    exact ⟨Param, inferInstanceAs (Recorded .param _), inferInstanceAs (Recorded.Tabled .param),
      fun _ _ => rfl, fun _ _ => rfl⟩
  | genericParams =>
    exact ⟨GenericParam, inferInstanceAs (Recorded .genericParam _),
      inferInstanceAs (Recorded.Tabled .genericParam), fun _ _ => rfl, fun _ _ => rfl⟩

namespace Graph

variable {g g' : Graph}

/-- Every store that the graph is read from has its rows numbered. -/
def Numbered (g : Graph) : Prop := ∀ l s, g.store? l = some s → s.Numbered

theorem Numbered.congr (h : g.Numbered) (hl : ∀ l, g'.loader? l = g.loader? l) : g'.Numbered :=
  fun l s hs => h l s (store?_congr hl l ▸ hs)

/-- The children that a list has been read with; none before that. -/
def held (g : Graph) (e : Edge) (o : Node) : List Key := (g.lists.get? (e, o)).getD []

/-! ## Entities -/

/-- What is made of a row comes from that row. -/
theorem ofRow?_origin {k : Kind} {ρ : Type} [Recorded k ρ] [Recorded.Tabled k] {l p : Nat} {r : ρ}
    (hn : g.Numbered)
    (hr : ((g.store? l).bind fun s => Recorded.ofRow? k s l p) = some r) :
    (Recorded.pack k r).origin? = some (.row l p) := by
  obtain ⟨s, hs, hrow⟩ := Option.bind_eq_some_iff.mp hr
  have horigin := Recorded.Tabled.origin_ofRow (k := k) (ρ := ρ) s l p
  rw [hrow] at horigin
  cases hplace : s.row? k.table p with
  | none =>
    rw [hplace] at horigin
    cases horigin
  | some row =>
    rw [hplace] at horigin
    rw [← hn l s hs _ _ _ hplace]
    exact Option.some.inj horigin

/-- What is made of a row goes by the row's number. -/
theorem ofRow?_rid {k : Kind} {ρ : Type} [Recorded k ρ] [Recorded.Tabled k] {l p : Nat} {r : ρ}
    (hn : g.Numbered)
    (hr : ((g.store? l).bind fun s => Recorded.ofRow? k s l p) = some r) :
    (Recorded.pack k r).rid = p := by
  obtain ⟨s, hs, hrow⟩ := Option.bind_eq_some_iff.mp hr
  have hrid := Recorded.Tabled.rid_ofRow (k := k) (ρ := ρ) s l p
  rw [hrow] at hrid
  obtain ⟨row, hplace, hsame⟩ := Option.map_eq_some_iff.mp hrid.symm
  exact hsame.symm.trans (hn l s hs _ _ _ hplace)

/-- An entity that has not been made comes from its row. -/
theorem origin_of_tabled {k : Kind} {ρ : Type} [Recorded k ρ] [Recorded.Tabled k] {l p : Nat}
    (hn : g.Numbered) (hc : ¬g.entities.contains ⟨k, .row l p⟩) (hr : g.hasRow ⟨k, .row l p⟩) :
    g.origin ⟨k, .row l p⟩ = .row l p := by
  rw [← ofRow?_isSome (k := k) (ρ := ρ)] at hr
  obtain ⟨r, hr⟩ := Option.isSome_iff_exists.mp hr
  have hentity : g.entity (⟨.row l p⟩ : Id k).node = Recorded.pack k r := by
    rw [Recorded.Lawful.entity_node (ρ := ρ), get_of_not_contains hc hr]
  show (g.entity (⟨.row l p⟩ : Id k).node).origin?.getD .inMemory = _
  rw [hentity, ofRow?_origin hn hr]
  rfl

theorem origin_of_hasRow {e : Edge} (he : e ≠ .assemblyModules) {l p : Nat} (hn : g.Numbered)
    (hc : ¬g.entities.contains ⟨e.childKind, .row l p⟩) (hr : g.hasRow ⟨e.childKind, .row l p⟩) :
    g.origin ⟨e.childKind, .row l p⟩ = .row l p := by
  obtain ⟨ρ, _, _, -⟩ := e.tabled he
  exact origin_of_tabled hn hc hr

/-- **The entities of a graph are as they are made.** -/
structure WellMade (g : Graph) : Prop where
  numbered : ∀ {k : Kind} {n : Nat}, g.entities.contains ⟨k, .built n⟩ → n < g.built
  /-- An entity under the key of a row stands for that row. -/
  row : ∀ {e : Edge} {l p : Nat}, e ≠ .assemblyModules →
    g.entities.contains ⟨e.childKind, .row l p⟩ →
      g.hasRow ⟨e.childKind, .row l p⟩ ∧ g.origin ⟨e.childKind, .row l p⟩ = .row l p
  /-- An entity that comes from a row comes from one of its own table. -/
  backed : ∀ {e : Edge} {c : Key} {l rid : Nat}, e ≠ .assemblyModules →
    g.entities.contains ⟨e.childKind, c⟩ → g.origin ⟨e.childKind, c⟩ = .row l rid →
      (g.loader? l).isSome → g.hasRow ⟨e.childKind, .row l rid⟩
  owner : ∀ {e : Edge} {c : Key} {v : Option Node}, g.owners.get? (e, c) = some v →
    g.entities.contains ⟨e.childKind, c⟩

/-- The graph with a new entity under the next number. -/
def grow (g : Graph) (k : Kind) {ρ : Type} [Recorded k ρ] (r : ρ) : Graph :=
  { g.put (⟨.built g.built⟩ : Id k) r with built := g.built + 1 }

/-- The graph with the back-reference of a child written. -/
def setOwner (g : Graph) (e : Edge) (c : Key) (o : Option Node) : Graph :=
  (ownerSlot e c).publish o g

/-- The graph with the list of a container written. -/
def setList (g : Graph) (e : Edge) (o : Node) (cs : List Key) : Graph :=
  (listSlot e o).publish cs g

theorem owners_setOwner (g : Graph) (e e' : Edge) (c c' : Key) (o : Option Node) :
    (g.setOwner e c o).owners.get? (e', c') =
      if (e, c) = (e', c') then some o else g.owners.get? (e', c') := Index.get?_set _ _ _ _

theorem held_setList (g : Graph) (e e' : Edge) (o o' : Node) (cs : List Key) :
    (g.setList e o cs).held e' o' = if (e, o) = (e', o') then cs else g.held e' o' := by
  unfold held setList
  show ((g.lists.set (e, o) cs).get? (e', o')).getD [] = _
  rw [Index.get?_set]
  split
  · rfl
  · rfl

theorem noted_setOwner (g : Graph) (e e' : Edge) (c c' : Key) (o : Option Node) :
    (g.setOwner e c o).noted e' c' = if (e, c) = (e', c') then o else g.noted e' c' := by
  have halike : g.Alike (g.setOwner e c o) := ⟨fun _ => rfl, fun _ _ _ => rfl⟩
  rw [noted, owners_setOwner, halike.stored rfl]
  split
  · rfl
  · rfl

theorem noted_setList (g : Graph) (e e' : Edge) (o : Node) (c' : Key) (cs : List Key) :
    (g.setList e o cs).noted e' c' = g.noted e' c' := by
  have halike : g.Alike (g.setList e o cs) := ⟨fun _ => rfl, fun _ _ _ => rfl⟩
  rw [noted, noted, halike.stored rfl]
  rfl

section Grow

variable {k : Kind} {ρ : Type} [Recorded k ρ] {r : ρ} {n : Node}

theorem contains_grow (h : (g.grow k r).entities.contains n) :
    g.entities.contains n ∨ n = ⟨k, .built g.built⟩ := by
  by_cases hn : n = ⟨k, .built g.built⟩
  · exact Or.inr hn
  · left
    have hne : (⟨.built g.built⟩ : Id k).node ≠ n := fun h => hn h.symm
    rw [Index.contains, grow, put, Index.get?_set_other _ _ hne] at h
    exact h

theorem contains_grow_of (h : g.entities.contains n) : (g.grow k r).entities.contains n := by
  rw [Index.contains, grow, put, Index.get?_set]
  split
  · rfl
  · exact h

theorem grow_contains (g : Graph) (k : Kind) {ρ : Type} [Recorded k ρ] (r : ρ) :
    (g.grow k r).entities.contains ⟨k, .built g.built⟩ := by
  show ((g.entities.set (⟨.built g.built⟩ : Id k).node _).get? _).isSome = true
  rw [show (⟨k, .built g.built⟩ : Node) = (⟨.built g.built⟩ : Id k).node from rfl,
    Index.get?_set_same]
  rfl

theorem origin_grow_of_ne (hl : ∀ l, (g.grow k r).loader? l = g.loader? l)
    (hn : n ≠ ⟨k, .built g.built⟩) : (g.grow k r).origin n = g.origin n := by
  have hne : (⟨.built g.built⟩ : Id k).node ≠ n := fun h => hn h.symm
  have hentity : (g.grow k r).entity n = g.entity n :=
    entity_congr (Index.get?_set_other _ _ hne) hl
  exact congrArg (fun e => (Entity.origin? e).getD .inMemory) hentity

theorem origin_grow [Recorded.Lawful k] :
    (g.grow k r).origin ⟨k, .built g.built⟩ = ((Recorded.pack k r).origin?).getD .inMemory := by
  have hentity : (g.grow k r).entity ⟨k, .built g.built⟩ = Recorded.pack k r :=
    entity_put (⟨.built g.built⟩ : Id k) r
  exact congrArg (fun e => (Entity.origin? e).getD .inMemory) hentity

end Grow

namespace WellMade

variable {children : Node → Prop}

/-- The next number is no entity's. -/
theorem ne_fresh (h : g.WellMade) {n : Node} (hn : g.entities.contains n) (k : Kind) :
    n ≠ ⟨k, .built g.built⟩ := by
  rintro rfl
  exact Nat.lt_irrefl _ (h.numbered hn)

theorem asked (h : g.WellMade) (hn : g.Numbered) (ha : g.Asked children g')
    (hc : ∀ {n}, children n → g.entities.contains n) : g'.WellMade where
  numbered {k n} hk := by
    rw [ha.built]
    rcases Bool.or_eq_true _ _ ▸ ha.made hk with hk | hk
    · exact h.numbered hk
    · cases hk
  row {e l p} he hk := by
    rw [hasRow_congr ha.loader, ha.origin]
    -- what asking has made of the row comes from the row
    by_cases hg : g.entities.contains ⟨e.childKind, .row l p⟩
    · exact h.row he hg
    · rcases Bool.or_eq_true _ _ ▸ ha.made hk with hg' | hr
      · exact absurd hg' hg
      · exact ⟨hr, origin_of_hasRow he hn hg hr⟩
  backed {e c l rid} he hk ho hl := by
    rw [ha.origin] at ho
    rw [ha.loader] at hl
    rw [hasRow_congr ha.loader]
    by_cases hg : g.entities.contains ⟨e.childKind, c⟩
    · exact h.backed he hg ho hl
    · rcases Bool.or_eq_true _ _ ▸ ha.made hk with hg' | hr
      · exact absurd hg' hg
      · cases c with
        | built _ => cases hr
        | row l' p' =>
          rw [origin_of_hasRow he hn hg hr] at ho
          cases ho
          exact hr
  owner {e c v} hv := by
    cases hg : g.owners.get? (e, c) with
    | some w => exact ha.contains (h.owner hg)
    | none =>
      by_cases hs : children ⟨e.childKind, c⟩
      · exact ha.contains (hc hs)
      · rw [ha.others hs, hg] at hv
        cases hv

/-- A new entity, made in memory or standing for a row of its table. -/
theorem grow {k : Kind} {ρ : Type} [Recorded k ρ] [Recorded.Lawful k] {r : ρ} (h : g.WellMade)
    (hl : ∀ l, (g.grow k r).loader? l = g.loader? l)
    (hr : ∀ l rid, (Recorded.pack k r).origin? = some (.row l rid) → (g.loader? l).isSome →
      g.hasRow ⟨k, .row l rid⟩) : (g.grow k r).WellMade where
  numbered {k' n} hk := by
    rcases contains_grow hk with hk | hk
    · exact Nat.lt_succ_of_lt (h.numbered hk)
    · cases hk
      exact Nat.lt_succ_self _
  row {e l p} he hk := by
    rcases contains_grow hk with hk | hk
    · rw [hasRow_congr hl, origin_grow_of_ne hl (by rintro ⟨⟩)]
      exact h.row he hk
    · -- the new entity goes by a number, not by a row
      cases hk
  backed {e c l rid} he hk ho hload := by
    rw [hl] at hload
    rw [hasRow_congr hl]
    rcases contains_grow hk with hk | hk
    · rw [origin_grow_of_ne hl (h.ne_fresh hk k)] at ho
      exact h.backed he hk ho hload
    · have hkind : e.childKind = k := congrArg Node.kind hk
      rw [hkind]
      rw [hk, origin_grow] at ho
      cases horigin : (Recorded.pack k r).origin? with
      | none =>
        rw [horigin] at ho
        cases ho
      | some o =>
        rw [horigin] at ho
        exact hr l rid (horigin.trans (congrArg some ho)) hload
  owner {e c v} hv := contains_grow_of (h.owner hv)

theorem setOwner (h : g.WellMade) {e : Edge} {c : Key} (hc : g.entities.contains ⟨e.childKind, c⟩)
    (o : Option Node) : (g.setOwner e c o).WellMade where
  numbered hk := h.numbered hk
  row he hk := h.row he hk
  backed he hk ho hl := h.backed he hk ho hl
  owner {e' c' v} hv := by
    rw [owners_setOwner] at hv
    split at hv
    · next heq =>
      cases heq
      exact hc
    · exact h.owner hv

theorem setList (h : g.WellMade) (e : Edge) (o : Node) (cs : List Key) :
    (g.setList e o cs).WellMade where
  numbered hk := h.numbered hk
  row he hk := h.row he hk
  backed he hk ho hl := h.backed he hk ho hl
  owner hv := h.owner hv

end WellMade

/-! ## The two sides -/

/-- Where the store says that a child is, there is a container. -/
theorem stored_alive {e : Edge} {c : Key} {o : Node} (h : g.stored e c = some o) : g.alive o := by
  have hasked : g.Asked (fun _ => False)
      ((fromStore (g.origin ⟨e.childKind, c⟩) none (Ownership.storedOwner e)).run g).2 :=
    keepsAsked_stored g e c
  rw [← hasked.alive]
  exact present_alive (contains_present (stored_container h).1)

theorem noted_of_recorded {e : Edge} {c : Key} {v : Option Node}
    (h : g.owners.get? (e, c) = some v) : g.noted e c = v := by
  rw [noted, h]
  rfl

/-- An entity that can have children on an edge. -/
structure IsContainer (g : Graph) (e : Edge) (o : Node) : Prop where
  made : g.entities.contains o
  kind : o.kind ∈ e.ownerKinds

theorem IsContainer.mono {e : Edge} {o : Node} (h : g.IsContainer e o)
    (hc : g.entities.contains o → g'.entities.contains o) : g'.IsContainer e o :=
  ⟨hc h.made, h.kind⟩

/-- **The two sides of containment agree.** -/
structure Owned (g : Graph) : Prop where
  container : ∀ {e : Edge} {c : Key} {o : Node}, g.owners.get? (e, c) = some (some o) →
    g.IsContainer e o
  listed : ∀ {e : Edge} {c : Key} {o : Node}, c ∈ g.held e o →
    g.owners.get? (e, c) = some (some o)
  nodup : ∀ (e : Edge) (o : Node), (g.held e o).Nodup
  apart : ∀ {e e' : Edge} {c : Key} {o : Node}, e.rival? = some e' → c ∈ g.held e o →
    g.noted e' c = none

namespace Owned

variable {children : Node → Prop}

theorem noted_alive (h : g.Owned) {e : Edge} {c : Key} {o : Node} (hn : g.noted e c = some o) :
    g.alive o := by
  cases hv : g.owners.get? (e, c) with
  | some v =>
    rw [noted_of_recorded hv] at hn
    exact present_alive (contains_present (h.container (hn ▸ hv)).made)
  | none =>
    rw [noted, hv] at hn
    exact stored_alive hn

theorem noted_kind (h : g.Owned) {e : Edge} {c : Key} {o : Node} (hn : g.noted e c = some o) :
    o.kind ∈ e.ownerKinds := by
  cases hv : g.owners.get? (e, c) with
  | some v =>
    rw [noted_of_recorded hv] at hn
    exact (h.container (hn ▸ hv)).kind
  | none =>
    rw [noted, hv] at hn
    exact (stored_container hn).2

/-- A back-reference reads as what is noted of it. -/
theorem owner_value (h : g.Owned) (e : Edge) (c : Key) :
    ((Ownership.owner e c).run g).1 = g.noted e c := by
  rw [(owner_run g e c).2.1]
  cases hn : g.noted e c with
  | none => rfl
  | some o => rw [Option.filter_some, if_pos (h.noted_alive hn)]

theorem asked (h : g.Owned) (ha : g.Asked children g') : g'.Owned := by
  have hheld : ∀ e o, g'.held e o = g.held e o := fun e o => by rw [held, held, ha.lists]
  constructor
  · intro e c o hv
    refine ⟨?_, h.noted_kind (e := e) (c := c) ?_⟩
    · rcases ha.container hv with hg | hmade
      · exact ha.contains (h.container hg).made
      · exact hmade
    · rw [← ha.noted, noted_of_recorded hv]
  · intro e c o hc
    exact ha.recorded (h.listed (hheld e o ▸ hc))
  · intro e o
    rw [hheld]
    exact h.nodup e o
  · intro e e' c o he hc
    rw [ha.noted]
    exact h.apart he (hheld e o ▸ hc)

/-- A back-reference is written that no list depends on. -/
theorem setOwner (h : g.Owned) {e : Edge} {c : Key} {v : Option Node}
    (hv : ∀ o, v = some o → g.IsContainer e o) (hlist : ∀ o, c ∈ g.held e o → v = some o)
    (hrival : ∀ e' o, e'.rival? = some e → c ∈ g.held e' o → v = none) :
    (g.setOwner e c v).Owned where
  container {e' c' o} ho := by
    rw [owners_setOwner] at ho
    split at ho
    · next heq =>
      cases heq
      exact (hv o (Option.some.inj ho)).mono id
    · exact (h.container ho).mono id
  listed {e' c' o} hc := by
    rw [owners_setOwner]
    split
    · next heq =>
      cases heq
      exact congrArg some (hlist o hc)
    · exact h.listed hc
  nodup := h.nodup
  apart {e₁ e₂ c' o} he hc := by
    rw [noted_setOwner]
    split
    · next heq =>
      cases heq
      exact hrival e₁ o he hc
    · exact h.apart he hc

/-- A list is written of children that are the container's. -/
theorem setList (h : g.Owned) {e : Edge} {o : Node} {cs : List Key} (hnodup : cs.Nodup)
    (howner : ∀ c ∈ cs, g.owners.get? (e, c) = some (some o))
    (hapart : ∀ e', e.rival? = some e' → ∀ c ∈ cs, g.noted e' c = none) :
    (g.setList e o cs).Owned where
  container ho := (h.container ho).mono id
  listed {e' c o'} hc := by
    rw [held_setList] at hc
    split at hc
    · next heq =>
      cases heq
      exact howner c hc
    · exact h.listed hc
  nodup e' o' := by
    rw [held_setList]
    split
    · exact hnodup
    · exact h.nodup e' o'
  apart {e₁ e₂ c o'} he hc := by
    rw [noted_setList]
    rw [held_setList] at hc
    split at hc
    · next heq =>
      cases heq
      exact hapart e₂ he c hc
    · exact h.apart he hc

end Owned

section Grow

variable {k : Kind} {ρ : Type} [Recorded k ρ] {r : ρ}

/-- What other children's back-references read as does not depend on a new entity. -/
theorem noted_grow (hl : ∀ l, (g.grow k r).loader? l = g.loader? l) {e : Edge} {c : Key}
    (hc : (⟨e.childKind, c⟩ : Node) ≠ ⟨k, .built g.built⟩) :
    (g.grow k r).noted e c = g.noted e c := by
  have halike : g.Alike (g.grow k r) := by
    refine ⟨hl, fun k' l p => present_congr hl contains_grow_of fun h => ?_⟩
    rcases contains_grow h with h | h
    · exact contains_present h
    · cases h
  rw [noted, noted, halike.stored (origin_grow_of_ne hl hc)]
  rfl

theorem Owned.grow (h : g.Owned) (hw : g.WellMade)
    (hl : ∀ l, (g.grow k r).loader? l = g.loader? l) : (g.grow k r).Owned where
  container ho := (h.container ho).mono contains_grow_of
  listed hc := h.listed hc
  nodup := h.nodup
  apart {e e' c o} he hc := by
    have hkind : e'.childKind = e.childKind := by
      cases e <;> cases he <;> rfl
    rw [noted_grow hl, h.apart he hc]
    -- a child that is listed has been recorded, so it is older than the new entity
    rw [hkind]
    exact hw.ne_fresh (hw.owner (h.listed hc)) k

end Grow
end Graph
end CliMetadata
