import CliMetadata.Graph.Opening
import CliMetadata.Proofs.Ownership.Ambiguity
import CliMetadata.Proofs.Ownership.Runs

/-!
# Containment read from a store

A store that is opened as a module is read on demand, between changes of what has been
read already.  `Graph.Consistent` says what such a graph should be like: a child in a
list has the list's container, no list holds a child twice, no child is in two lists,
and a child that has been removed is in no container and no list.

**Consistency is a property of the store** (`Store.loaded_consistent_iff`).  Every
sequence of actions leads to a consistent graph exactly if the store is unambiguous.
One direction is the invariant of containment.  For the other, a row that is listed
twice is freed of the container that it is in, if there is one, and the list is read:
it holds the child twice.  And where a type of one container has another of the other
sort, the private copy in the list keeps that one when it is removed.
-/

namespace CliMetadata

open CliMetadata.Graph Loading Stateful

namespace Graph

variable {g g' g₀ : Graph}

/-- **What containment should be like.** -/
structure Consistent (g : Graph) : Prop where
  /-- A child in a list has the list's container. -/
  owner : ∀ {e : Edge} {o : Node} {c : Key}, c ∈ g.held e o →
    ((Ownership.owner e c).run g).1 = some o
  nodup : ∀ (e : Edge) (o : Node), (g.held e o).Nodup
  /-- No child is in the lists of two containers, of one sort or of two. -/
  single : ∀ {e e' : Edge} {o o' : Node} {c : Key}, e.childKind = e'.childKind →
    c ∈ g.held e o → c ∈ g.held e' o' → e = e' ∧ o = o'
  /-- A child that has been removed has no container of any sort, and no list holds it. -/
  removed : ∀ {e : Edge} {o : Node} {c : Key}, g.IsContainer e o →
    ((Ownership.remove e o c).run g).1 = true → ∀ e' : Edge, e'.childKind = e.childKind →
      ((Ownership.owner e' c).run ((Ownership.remove e o c).run g).2).1 = none ∧
        ∀ o', c ∉ ((Ownership.remove e o c).run g).2.held e' o'

/-- Two sorts of containers that may have the same children exclude each other. -/
theorem rival_of_childKind {e e' : Edge} (h : e.childKind = e'.childKind) (hne : e ≠ e') :
    e.rival? = some e' := by
  cases e <;> cases e' <;> first | rfl | exact absurd rfl hne | cases h

/-- The invariant of containment makes a graph consistent. -/
theorem Sound.consistent (h : g.Sound) : g.Consistent where
  owner hc := by rw [h.owned.owner_value, noted_of_recorded (h.owned.listed hc)]
  nodup := h.owned.nodup
  single {e e' o o' c} hkind hc hc' := by
    have hlisted' := h.owned.listed hc'
    by_cases he : e = e'
    · subst he
      rw [h.owned.listed hc] at hlisted'
      exact ⟨rfl, Option.some.inj (Option.some.inj hlisted')⟩
    · have hnone := h.owned.apart (rival_of_childKind hkind he) hc
      rw [noted_of_recorded hlisted'] at hnone
      cases hnone
  removed {e o c} ho htrue e' hkind := by
    have hlisted := items_run h.owned h.wellMade h.numbered h.unambiguous ho
    have hsound := (h.changes (remove_changes h ho c)).sound
    have hnoted : ((Ownership.remove e o c).run g).2.noted e' c = none := by
      rw [remove_run] at htrue ⊢
      split at htrue
      · next hc =>
        rw [if_pos hc, noted_setOwner, noted_setList]
        split
        · rfl
        · next hne =>
          have he : e ≠ e' := fun heq => hne (heq ▸ rfl)
          exact hlisted.owned.apart (rival_of_childKind hkind.symm he)
            (by rw [held_eq hlisted.list]; exact hc)
      · cases htrue
    refine ⟨(hsound.owned.owner_value e' c).trans hnoted, fun o' hc => ?_⟩
    rw [noted_of_recorded (hsound.owned.listed hc)] at hnoted
    cases hnoted

end Graph

/-! ## The graph of an open store -/

namespace Store

/-- The graph of a store that has just been opened as a module. -/
def loaded (s : Store) (policy : InitPolicy) : Graph :=
  ((openModule s policy).run Graph.empty).2

/-- The module of a store that has just been opened. -/
def loadedModule (s : Store) (policy : InitPolicy) (row : ModuleRow) : Module :=
  ⟨row.rid, .row 0 row.rid, s.string row.name, (s.guid? row.mvid).getD Guid.zero,
    some ⟨s, policy⟩, none, none⟩

section Opened

variable {s : Store} {policy : InitPolicy} {row : ModuleRow} (h : s.moduleRow? = some row)
include h

theorem loaded_eq : s.loaded policy = (Graph.empty.grow .module
    (s.loadedModule policy row)).setOwner .assemblyModules (.built 0) none := by
  unfold loaded openModule
  rw [h]
  rfl

theorem loaded_entities (n : Node) : (s.loaded policy).entities.get? n =
    if ⟨.module, .built 0⟩ = n then some (.module (s.loadedModule policy row)) else none := by
  rw [loaded_eq h]
  exact Index.get?_set _ _ _ _

theorem loaded_contains {n : Node} (hn : (s.loaded policy).entities.contains n) :
    n = ⟨.module, .built 0⟩ := by
  rw [Index.contains, loaded_entities h] at hn
  split at hn
  · next heq => exact heq.symm
  · cases hn

theorem loaded_loader? (l : Nat) : (s.loaded policy).loader? l =
    if l = 0 then some ⟨s, policy⟩ else none := by
  rw [loader?, loaded_entities h]
  by_cases hl : l = 0
  · subst hl
    rfl
  · rw [if_neg hl, if_neg (fun heq => hl (Key.built.inj (congrArg Node.key heq)).symm)]

theorem loaded_owners {e : Edge} {c : Key} {v : Option Node}
    (hv : (s.loaded policy).owners.get? (e, c) = some v) :
    e = .assemblyModules ∧ c = .built 0 ∧ v = none := by
  rw [loaded_eq h, owners_setOwner] at hv
  split at hv
  · next heq =>
    cases heq
    cases hv
    exact ⟨rfl, rfl, rfl⟩
  · have hempty : (none : Option (Option Node)) = some v := hv
    cases hempty

theorem loaded_store? {l : Nat} {s' : Store} (hs : (s.loaded policy).store? l = some s') :
    s' = s := by
  rw [store?, loaded_loader? h] at hs
  split at hs
  · cases hs
    rfl
  · cases hs

theorem loaded_wellMade : (s.loaded policy).WellMade where
  numbered hk := by
    cases loaded_contains h hk
    rw [loaded_eq h]
    exact Nat.zero_lt_one
  row _ hk := by cases congrArg Node.key (loaded_contains h hk)
  backed {e c l rid} he hk := by
    have hkind : e.childKind = .module := congrArg Node.kind (loaded_contains h hk)
    exact absurd hkind (by cases e <;> first | decide | exact absurd rfl he)
  owner hv := by
    obtain ⟨rfl, rfl, rfl⟩ := loaded_owners h hv
    rw [Index.contains, loaded_entities h]
    rfl

theorem loaded_lists (k : Edge × Node) : (s.loaded policy).lists.get? k = none := by
  rw [loaded_eq h]
  exact Index.get?_empty k

theorem loaded_owned : (s.loaded policy).Owned := by
  have hheld : ∀ e o, (s.loaded policy).held e o = [] := fun e o => by
    rw [held, loaded_lists h]
    rfl
  refine ⟨?_, ?_, ?_, ?_⟩
  · intro e c o ho
    cases (loaded_owners h ho).2.2
  · intro e c o hc
    rw [hheld] at hc
    cases hc
  · intro e o
    rw [hheld]
    exact .nil
  · intro e e' c o _ hc
    rw [hheld] at hc
    cases hc

/-- An unambiguous store is opened with the invariant of containment. -/
theorem loaded_sound (hn : s.Numbered) (hu : s.Unambiguous) : (s.loaded policy).Sound where
  wellMade := loaded_wellMade h
  owned := loaded_owned h
  numbered _ _ hs := loaded_store? h hs ▸ hn
  unambiguous _ _ hs := loaded_store? h hs ▸ hu

end Opened
end Store

namespace Graph

/-! ## Before any list has been read -/

/-- A graph in which the rows of a store and back-references have been read, and no
list. -/
structure Unread (s : Store) (g₀ g : Graph) : Prop where
  reaches : g₀.Reaches g
  wellMade : g.WellMade
  owned : g.Owned
  numbered : g.Numbered
  store : g.store? 0 = some s
  lists : ∀ k, g.lists.get? k = none
  noted : ∀ e c, g.noted e c = g.stored e c
  module : g.entities.contains ⟨.module, .built 0⟩
  origin : ∃ rid, g.origin ⟨.module, .built 0⟩ = .row 0 rid

variable {s : Store} {g g' g₀ : Graph} {e : Edge} {o : Node} {kind : Kind} {rid p : Nat}

/-- No store says which assembly a module is in. -/
theorem stored_assembly (g : Graph) (c : Key) : g.stored .assemblyModules c = none := by
  unfold stored fromStore
  rw [run_get_bind]
  split
  · rfl
  · rfl

theorem loaded_unread {policy : InitPolicy} {row : ModuleRow} (h : s.moduleRow? = some row)
    (hn : s.Numbered) : Unread s (s.loaded policy) (s.loaded policy) where
  reaches := .refl
  wellMade := s.loaded_wellMade h
  owned := s.loaded_owned h
  numbered _ _ hs := s.loaded_store? h hs ▸ hn
  store := by
    rw [store?, s.loaded_loader? h]
    rfl
  lists := s.loaded_lists h
  noted e c := by
    cases hv : (s.loaded policy).owners.get? (e, c) with
    | none =>
      rw [noted, hv]
      rfl
    | some v =>
      obtain ⟨rfl, rfl, rfl⟩ := s.loaded_owners h hv
      rw [noted_of_recorded hv, stored_assembly]
  module := by
    rw [Index.contains, s.loaded_entities h]
    rfl
  origin := by
    rw [s.loaded_eq h]
    exact ⟨row.rid, origin_grow (g := Graph.empty) (k := .module) (r := s.loadedModule policy row)⟩

theorem Unread.asked (h : Unread s g₀ g) (act : Ownership.Action) (legal : act.Legal g)
    {children : Node → Prop} (ha : g.Asked children (act.apply g))
    (hc : ∀ {n}, children n → g.entities.contains n) : Unread s g₀ (act.apply g) where
  reaches := h.reaches.action act legal
  wellMade := h.wellMade.asked h.numbered ha hc
  owned := h.owned.asked ha
  numbered := h.numbered.congr ha.loader
  store := by rw [store?_congr ha.loader, h.store]
  lists k := by rw [ha.lists, h.lists]
  noted e c := by rw [ha.noted, h.noted, ha.toAlike.stored (ha.origin _)]
  module := ha.contains h.module
  origin := h.origin.imp fun rid ho => (ha.origin _).trans ho

/-- The entity of a row is looked up. -/
theorem Unread.row (h : Unread s g₀ g) (he : e ≠ .assemblyModules)
    (hp : (s.row? e.childKind.table p).isSome) :
    ∃ g', Unread s g₀ g' ∧ g'.entities.contains ⟨e.childKind, .row 0 p⟩ ∧
      (∀ {n}, g.entities.contains n → g'.entities.contains n) ∧ ∀ n, g'.origin n = g.origin n := by
  obtain ⟨ha, -, hmade⟩ := sharedChild_run he g 0 p
  refine ⟨(Ownership.Action.row e 0 p).apply g, h.asked _ he ha (by rintro _ ⟨⟩), ?_, ha.contains,
    ha.origin⟩
  exact hmade (by rw [h.wellMade.present_row he h.store]; exact hp)

/-- The container that a store lists rows for is found or made. -/
theorem Unread.container (h : Unread s g₀ g) (he : e ≠ .assemblyModules) (hkind : kind ∈ e.ownerKinds)
    (hc : s.HasContainer kind rid) :
    ∃ (g' : Graph) (o : Node) (rid' : Nat), Unread s g₀ g' ∧ g'.IsContainer e o ∧
      g'.origin o = .row 0 rid' ∧ s.listedRows e o.kind rid' = s.listedRows e kind rid := by
  have ofRow : ∀ e' : Edge, e' ≠ .assemblyModules → e'.childKind = kind → kind ≠ .module →
      ∃ (g' : Graph) (o : Node) (rid' : Nat), Unread s g₀ g' ∧ g'.IsContainer e o ∧
        g'.origin o = .row 0 rid' ∧ s.listedRows e o.kind rid' = s.listedRows e kind rid := by
    rintro e' he' rfl hne
    obtain ⟨g', hunread, hmade, -⟩ := h.row he' (hc.resolve_left hne)
    exact ⟨g', ⟨e'.childKind, .row 0 rid⟩, rid, hunread, ⟨hmade, hkind⟩,
      (hunread.wellMade.row he' hmade).2, rfl⟩
  cases e with
  | assemblyModules => exact absurd rfl he
  | moduleTypes =>
    obtain rfl := List.mem_singleton.mp hkind
    obtain ⟨rid', horigin⟩ := h.origin
    exact ⟨g, ⟨.module, .built 0⟩, rid', h, ⟨h.module, hkind⟩, horigin, rfl⟩
  | nestedTypes | fields | methods | properties | events =>
    obtain rfl := List.mem_singleton.mp hkind
    exact ofRow .nestedTypes (by decide) rfl (by decide)
  | params =>
    obtain rfl := List.mem_singleton.mp hkind
    exact ofRow .methods (by decide) rfl (by decide)
  | genericParams =>
    rcases List.mem_cons.mp hkind with rfl | hk
    · exact ofRow .nestedTypes (by decide) rfl (by decide)
    · obtain rfl := List.mem_singleton.mp hk
      exact ofRow .methods (by decide) rfl (by decide)

/-! ## A type with containers of both sorts -/

/-- **Where every graph is consistent, no type listed for a container of one sort has
one of the other.**  Otherwise its private copy in the list keeps that one when it is
removed. -/
theorem Unread.apart (h : Unread s g₀ g) (hall : ∀ g, g₀.Reaches g → g.Consistent) {e' : Edge}
    (hrival : e.rival? = some e') (hkind : kind ∈ e.ownerKinds) (hc : s.HasContainer kind rid)
    (hp : p ∈ s.listedRows e kind rid) : s.contains e' p = false := by
  obtain ⟨hchild, hchild', -, hne, hpair⟩ := rival_kind hrival
  have he : e ≠ .assemblyModules := by
    rintro rfl
    cases hrival
  rw [← Bool.not_eq_true]
  intro hcontains
  obtain ⟨g₁, o, rid', h₁, ho₁, horigin₁, hrows⟩ := h.container he hkind hc
  obtain ⟨g₂, h₂, hmade, hcontains₂, horigin₂⟩ := h₁.row he (List.mem_filter.mp hp).2
  -- the row itself has the container of the other sort
  have hclaimed : (g₂.stored e' (.row 0 p)).isSome := by
    rw [stored_isSome h₂.wellMade (hchild ▸ (h₂.wellMade.row he hmade).2) h₂.store hpair, hcontains]
  obtain ⟨w, hw⟩ := Option.isSome_iff_exists.mp hclaimed
  have hnoted : g₂.noted e' (.row 0 p) = some w := (h₂.noted _ _).trans hw
  -- so the list holds a private copy, which has it too
  have ho₂ : g₂.IsContainer e o := ho₁.mono hcontains₂
  obtain ⟨g₃, cs, ha, hperm, hmades, haside, hrun⟩ := items_stored h₂.wellMade h₂.numbered he
    (h₂.lists (e, o)) ((horigin₂ o).trans horigin₁) h₂.store
  have hmem : Key.row 0 p ∈ cs := by
    rw [hperm.mem_iff, hrows]
    exact List.mem_map.mpr ⟨p, hp, rfl⟩
  obtain ⟨x, hx, v, hv, halive⟩ := rival_adopt (o := o) hrival hcontains cs
    (h₂.wellMade.asked h₂.numbered ha (by rintro _ ⟨⟩)) (h₂.numbered.congr ha.loader)
    (by rw [store?_congr ha.loader, h₂.store]) hmades
    (fun c hc => by
      obtain ⟨q, -, rfl⟩ := List.mem_map.mp (hperm.mem_iff.mp hc)
      exact ⟨q, rfl⟩)
    hmem ⟨w, by rw [ha.noted, hnoted], by rw [ha.alive]; exact h₂.owned.noted_alive hnoted⟩
  let read := (Ownership.adopt e 0 o cs).run g₃
  have hreaches := h₂.reaches.action (.items e o) ho₂
  have hlisted : (Ownership.Action.items e o).apply g₂ = read.2.setList e o read.1 :=
    congrArg Prod.snd hrun
  rw [hlisted] at hreaches
  -- the copy is removed
  have hlist : (read.2.setList e o read.1).lists.get? (e, o) = some read.1 :=
    Index.get?_set_same _ _ _
  have hremove : (Ownership.remove e o x).run (read.2.setList e o read.1) =
      (true, ((read.2.setList e o read.1).setList e o (read.1.erase x)).setOwner e x none) := by
    rw [remove_run, items_held hlist, if_pos hx]
  have hcontainer : (read.2.setList e o read.1).IsContainer e o :=
    ho₂.mono fun hn => haside.contains (ha.contains hn)
  obtain ⟨hgone, -⟩ := (hall _ hreaches).removed (c := x) hcontainer (by rw [hremove]) e'
    (hchild'.trans hchild.symm)
  rw [hremove, (owner_run _ e' x).2.1, noted_setOwner,
    if_neg (fun heq => hne (Prod.mk.inj heq).1), noted_setList, noted_setList, hv,
    Option.filter_some] at hgone
  have hstill : (if read.2.alive v = true then some v else none) = none := hgone
  rw [if_pos halive] at hstill
  cases hstill

/-! ## A row that is listed twice -/

/-- A graph in which a row is free for a container whose list has not been read. -/
structure Poised (s : Store) (g₀ g : Graph) (e : Edge) (o : Node) (rid p : Nat) : Prop where
  reaches : g₀.Reaches g
  wellMade : g.WellMade
  numbered : g.Numbered
  store : g.store? 0 = some s
  list : g.lists.get? (e, o) = none
  container : g.IsContainer e o
  origin : g.origin o = .row 0 rid
  ready : g.Ready e o (.row 0 p)

/-- The list that is read then holds a row as often as the store lists it. -/
theorem Poised.nodup (h : Poised s g₀ g e o rid p) (hall : ∀ g, g₀.Reaches g → g.Consistent)
    (he : e ≠ .assemblyModules) : (s.listedRows e o.kind rid).count p ≤ 1 := by
  obtain ⟨g₁, cs, ha, hperm, hmade, -, hrun⟩ :=
    items_stored h.wellMade h.numbered he h.list h.origin h.store
  have hcount := count_adopt (l := 0) (o := o) (p := p) he cs
    (h.wellMade.asked h.numbered ha (by rintro _ ⟨⟩)) (h.numbered.congr ha.loader) hmade
    (fun c hc => by
      obtain ⟨q, -, rfl⟩ := List.mem_map.mp (hperm.mem_iff.mp hc)
      exact ⟨q, rfl⟩)
    (h.ready.asked ha)
  have hrow : (s.listedRows e o.kind rid).count p ≤ cs.count (.row 0 p) := by
    rw [hperm.count_eq]
    exact List.count_le_count_map
  have hnodup := (hall _ (h.reaches.action (.items e o) h.container)).nodup e o
  have hheld : ((Ownership.Action.items e o).apply g).held e o =
      ((Ownership.adopt e 0 o cs).run g₁).1 := by
    show ((Ownership.items e o).run g).2.held e o = _
    rw [hrun, held_setList, if_pos rfl]
  rw [hheld, List.nodup_iff_count_le_one] at hnodup
  exact Nat.le_trans hrow (Nat.le_trans hcount (hnodup (.row 0 p)))

/-- A row that is in no container of the other sort is freed of the one that it is in,
while another one's list is unread. -/
theorem Unread.poised (h : Unread s g₀ g) (he : e ≠ .assemblyModules) (ho : g.IsContainer e o)
    (horigin : g.origin o = .row 0 rid) (hc : g.entities.contains ⟨e.childKind, .row 0 p⟩)
    (hrival : ∀ {e'}, e.rival? = some e' → g.owners.get? (e', .row 0 p) = some none) :
    ∃ g', Poised s g₀ g' e o rid p := by
  let c : Key := .row 0 p
  obtain ⟨ha, hvalue, hrecorded⟩ := owner_run g e c
  let g₁ := ((Ownership.owner e c).run g).2
  have hmade : ∀ {n}, n = ⟨e.childKind, c⟩ → g.entities.contains n := by
    rintro _ rfl
    exact hc
  have h₁ : Unread s g₀ g₁ := h.asked (.owner e c) hc ha hmade
  have poised : (g.noted e c = none ∨ g.noted e c = some o) → ∃ g', Poised s g₀ g' e o rid p := by
    intro hfree
    refine ⟨g₁, h₁.reaches, h₁.wellMade, h₁.numbered, h₁.store, h₁.lists _,
      ho.mono ha.contains, (ha.origin o).trans horigin, fun hr => ha.recorded (hrival hr), ?_⟩
    rw [hrecorded]
    exact hfree.imp (congrArg some) (congrArg some)
  cases hnoted : g.noted e c with
  | none => exact poised (Or.inl hnoted)
  | some b =>
    by_cases hb : b = o
    · exact poised (Or.inr (hb ▸ hnoted))
    · -- the child is moved out of the other container, whose list is read for that
      have hreassign : (Ownership.Action.reassign e c none).apply g = g₁.leave e c (some b) := by
        show ((Ownership.reassign e c none).run g).2 = _
        rw [reassign_run, h.owned.owner_value, hnoted, if_neg (by rintro ⟨⟩)]
      have hreaches : g₀.Reaches (g₁.leave e c (some b)) :=
        hreassign ▸ h.reaches.action (.reassign e c none) ⟨hc, by rintro _ ⟨⟩⟩
      obtain ⟨haside, hfree⟩ := leave_aside h₁.wellMade h₁.numbered he (h₁.lists (e, b))
        (ha.contains hc)
      have ho₁ := ho.mono ha.contains
      refine ⟨_, hreaches, haside.wellMade, h₁.numbered.congr haside.loader, ?_, ?_,
        ho₁.mono haside.contains, ?_, fun hr => ?_, Or.inl hfree⟩
      · rw [store?_congr haside.loader, h₁.store]
      · rw [haside.lists (fun heq => hb heq.symm), h₁.lists]
      · rw [haside.origin ho₁.made, ha.origin, horigin]
      · exact haside.recorded (rival_kind hr).2.2.2.1.symm (ha.recorded (hrival hr))

/-- **Where every graph is consistent, the store is unambiguous.** -/
theorem Unread.unambiguous (h : Unread s g₀ g) (hall : ∀ g, g₀.Reaches g → g.Consistent) :
    s.Unambiguous where
  apart hrival hkind hc hp := h.apart hall hrival hkind hc hp
  once {e kind rid} he hkind hc := by
    rw [List.nodup_iff_count_le_one]
    intro p
    by_cases hp : p ∈ s.listedRows e kind rid
    · -- the container and the row are looked up before any list is read
      obtain ⟨g₁, o, rid', h₁, ho₁, horigin₁, hrows⟩ := h.container he hkind hc
      obtain ⟨g₂, h₂, hmade, hcontains₂, horigin₂⟩ := h₁.row he (List.mem_filter.mp hp).2
      have ho₂ : g₂.IsContainer e o := ho₁.mono hcontains₂
      have horigin := (horigin₂ o).trans horigin₁
      rw [← hrows]
      cases hrival : e.rival? with
      | none =>
        obtain ⟨g', hpoised⟩ := h₂.poised he ho₂ horigin hmade
          (fun hr => by rw [hrival] at hr; cases hr)
        exact hpoised.nodup hall he
      | some e' =>
        -- what the store says of the other sort of container is recorded first
        obtain ⟨hchild, hchild', -, -, hpair⟩ := rival_kind hrival
        obtain ⟨ha, -, hrecorded⟩ := owner_run g₂ e' (.row 0 p)
        have hmade' : g₂.entities.contains ⟨e'.childKind, .row 0 p⟩ := by
          rw [hchild', ← hchild]
          exact hmade
        have h₃ := h₂.asked (.owner e' (.row 0 p)) hmade' ha (by rintro _ rfl; exact hmade')
        have hnone : g₂.noted e' (.row 0 p) = none := by
          rw [h₂.noted, ← Option.isNone_iff_eq_none, ← Option.isSome_eq_false_iff,
            stored_isSome h₂.wellMade (hchild ▸ (h₂.wellMade.row he hmade).2) h₂.store hpair]
          exact h.apart hall hrival hkind hc hp
        rw [hnone] at hrecorded
        obtain ⟨g', hpoised⟩ := h₃.poised he (ho₂.mono ha.contains) ((ha.origin o).trans horigin)
          (ha.contains hmade) (fun hr => by
            rw [hrival] at hr
            cases hr
            exact hrecorded)
        exact hpoised.nodup hall he
    · rw [List.count_eq_zero_of_not_mem hp]
      exact Nat.zero_le 1

end Graph

namespace Store

/-- **When containment read from a store is as it should be.**  Every graph that actions
make of an open store is consistent, in whatever order they come, exactly if the store
lists no row twice for its container and no type for containers of both sorts. -/
theorem loaded_consistent_iff {s : Store} (hn : s.Numbered) (hm : s.moduleRow?.isSome)
    (policy : InitPolicy) :
    (∀ g, (s.loaded policy).Reaches g → g.Consistent) ↔ s.Unambiguous := by
  obtain ⟨row, hrow⟩ := Option.isSome_iff_exists.mp hm
  constructor
  · intro hall
    exact (loaded_unread hrow hn).unambiguous hall
  · intro hu g hreaches
    exact (hreaches.kept (loaded_sound hrow hn hu)).sound.consistent

/-- A store of a type and a field, which is linked to the type so many times. -/
def linked (times : Nat) : Store :=
  let head (table : TableId) : RowHead := ⟨1, Token.ofParts table 1⟩
  { Store.empty with
    modules := [⟨head .module, 0, 0, 0⟩]
    typeDefs := [⟨head .typeDef, 0, 0, 0, .null⟩]
    fields := [⟨head .field, 0, 0, 0⟩]
    links := .replicate times ⟨.fields, Token.ofParts .typeDef 1, Token.ofParts .field 1⟩ }

theorem linked_numbered (times : Nat) : (linked times).Numbered := by
  intro table place row h
  unfold row? nth at h
  split at h
  · cases h
  · next hplace =>
    have hrid : ∀ r ∈ (linked times).rows table, r.head.rid = 1 := by
      cases table <;> simp [rows, linked, Row.head, Store.empty]
    have hlength : ((linked times).rows table).length ≤ 1 := by
      cases table <;> simp [rows, linked, Store.empty]
    obtain ⟨hlt, hrow⟩ := List.getElem?_eq_some_iff.mp h
    rw [hrid row (hrow ▸ List.getElem_mem hlt)]
    omega

/-- Where all is linked once, nothing is listed twice. -/
theorem linked_once_unambiguous : (linked 1).Unambiguous where
  once {e kind rid} he _ _ := by
    have hlinks : ∀ relation owner, ((linked 1).linkedChildren relation owner).length ≤ 1 := by
      intro relation owner
      rw [linkedChildren, List.length_map]
      exact List.length_filter_le _ _
    have hchildren : ∀ owner, ((linked 1).children (Ownership.relation e) owner).length ≤ 1 := by
      intro owner
      cases e with
      | moduleTypes =>
        show (if owner = moduleToken then _ else []).length ≤ 1
        split
        · rw [List.length_map]
          exact List.length_filter_le _ _
        · exact Nat.zero_le 1
      | nestedTypes | fields | methods | properties | events | params => exact hlinks _ owner
      | genericParams => exact Nat.zero_le 1
      | assemblyModules => exact absurd rfl he
    have hnodup : ∀ owner, ((linked 1).children (Ownership.relation e) owner).Nodup := by
      intro owner
      have hlength := hchildren owner
      generalize (linked 1).children (Ownership.relation e) owner = rids at hlength ⊢
      rcases rids with _ | ⟨x, _ | ⟨y, xs⟩⟩
      · exact .nil
      · exact List.nodup_singleton x
      · rw [List.length_cons, List.length_cons] at hlength
        omega
    refine List.Nodup.filter _ ?_
    split
    · exact List.Nodup.filter _ (hnodup _)
    · exact hnodup _
  apart {e e' kind rid p} hrival _ _ hp := by
    cases e <;> cases hrival
    · rfl
    · cases hp

/-- Every graph of it is consistent. -/
theorem linked_once_consistent :
    (linked 1).Unambiguous ∧
      ∀ g, ((linked 1).loaded .perEntityLock).Reaches g → g.Consistent :=
  ⟨linked_once_unambiguous,
    (loaded_consistent_iff (linked_numbered 1) rfl .perEntityLock).mpr linked_once_unambiguous⟩

/-- The graph of a store that has been opened, and in which the fields of its type have
been read. -/
def fieldsRead (s : Store) : Graph :=
  (Ownership.Action.items .fields ⟨.typeDef, .row 0 1⟩).apply
    ((Ownership.Action.row .nestedTypes 0 1).apply (s.loaded .perEntityLock))

/-- A field that is linked twice is listed twice, and stays in the list when it is
removed. -/
theorem linked_twice_stays :
    ((linked 2).loaded .perEntityLock).Reaches (fieldsRead (linked 2)) ∧
      ¬(fieldsRead (linked 2)).Consistent ∧
      (fieldsRead (linked 2)).held .fields ⟨.typeDef, .row 0 1⟩ = [.row 0 1, .row 0 1] ∧
      ((Ownership.remove .fields ⟨.typeDef, .row 0 1⟩ (.row 0 1)).run
        (fieldsRead (linked 2))).1 = true ∧
      ((Ownership.remove .fields ⟨.typeDef, .row 0 1⟩ (.row 0 1)).run
        (fieldsRead (linked 2))).2.held .fields ⟨.typeDef, .row 0 1⟩ = [.row 0 1] := by
  have hheld : (fieldsRead (linked 2)).held .fields ⟨.typeDef, .row 0 1⟩ =
      [.row 0 1, .row 0 1] := by decide +kernel
  refine ⟨?_, fun hconsistent => ?_, hheld, by decide +kernel, by decide +kernel⟩
  · have hrow : (Ownership.Action.row .nestedTypes 0 1).Legal
        ((linked 2).loaded .perEntityLock) := by rintro ⟨⟩
    refine (Reaches.refl.action _ hrow).action (.items .fields ⟨.typeDef, .row 0 1⟩) ⟨?_, ?_⟩
    · decide +kernel
    · decide
  · have hnodup := hconsistent.nodup .fields ⟨.typeDef, .row 0 1⟩
    rw [hheld] at hnodup
    exact absurd hnodup (by decide)

end Store
end CliMetadata
