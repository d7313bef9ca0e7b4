import CliMetadata.Proofs.Ownership.Changes

/-!
# Reading lists from stores that are not unambiguous

What becomes of the rows that a store lists badly, in any graph whose entities are well
made: a row that is listed twice and stays free is listed twice (`count_adopt`), and the
private copy of a type that has a container of the other sort has that container too
(`rival_adopt`).

`Graph.Aside` says what reading on one edge leaves as it was: the lists, but for those of
some containers, and **everything that is recorded or noted on the other edges**.
-/

namespace CliMetadata
namespace Graph

open Loading Stateful

variable {g g' g'' : Graph} {e : Edge} {o : Node} {l : Nat}

/-- What reading on an edge leaves as it was, where the lists of some containers are read. -/
structure Aside (e : Edge) (read : Node → Prop) (g g' : Graph) : Prop where
  wellMade : g'.WellMade
  loader : ∀ l, g'.loader? l = g.loader? l
  lists : ∀ {o}, ¬read o → g'.lists.get? (e, o) = g.lists.get? (e, o)
  contains : ∀ {n}, g.entities.contains n → g'.entities.contains n
  origin : ∀ {n}, g.entities.contains n → g'.origin n = g.origin n
  recorded : ∀ {e' x v}, e' ≠ e → g.owners.get? (e', x) = some v → g'.owners.get? (e', x) = some v
  noted : ∀ {e' x}, e' ≠ e → g.entities.contains ⟨e'.childKind, x⟩ → g'.noted e' x = g.noted e' x

namespace Aside

variable {read : Node → Prop}

theorem refl (hw : g.WellMade) : Aside e read g g where
  wellMade := hw
  loader _ := rfl
  lists _ := rfl
  contains h := h
  origin _ := rfl
  recorded _ h := h
  noted _ _ := rfl

theorem trans (h : Aside e read g g') (k : Aside e read g' g'') : Aside e read g g'' where
  wellMade := k.wellMade
  loader l := (k.loader l).trans (h.loader l)
  lists ho := (k.lists ho).trans (h.lists ho)
  contains hn := k.contains (h.contains hn)
  origin hn := (k.origin (h.contains hn)).trans (h.origin hn)
  recorded he hv := k.recorded he (h.recorded he hv)
  noted he hx := (k.noted he (h.contains hx)).trans (h.noted he hx)

theorem alive (h : Aside e read g g') {n : Node} (ha : g.alive n) : g'.alive n :=
  alive_mono h.loader h.contains ha

theorem of_asked {children : Node → Prop} (hw : g.WellMade) (hn : g.Numbered)
    (ha : g.Asked children g') (hc : ∀ {n}, children n → g.entities.contains n) :
    Aside e read g g' where
  wellMade := hw.asked hn ha hc
  loader := ha.loader
  lists _ := by rw [ha.lists]
  contains := ha.contains
  origin _ := ha.origin _
  recorded _ hv := ha.recorded hv
  noted _ _ := ha.noted _ _

theorem of_setOwner (hw : g.WellMade) {c : Key} (hc : g.entities.contains ⟨e.childKind, c⟩)
    (v : Option Node) : Aside e read g (g.setOwner e c v) where
  wellMade := hw.setOwner hc v
  loader _ := rfl
  lists _ := rfl
  contains h := h
  origin _ := rfl
  recorded {e' x w} he hv := by
    rw [owners_setOwner, if_neg (fun heq => he (Prod.mk.inj heq).1.symm)]
    exact hv
  noted {e' x} he _ := by
    rw [noted_setOwner, if_neg (fun heq => he (Prod.mk.inj heq).1.symm)]

theorem of_grow {k : Kind} {ρ : Type} [Recorded k ρ] [Recorded.Lawful k] {r : ρ} (hw : g.WellMade)
    (hl : ∀ l, (g.grow k r).loader? l = g.loader? l)
    (hr : ∀ l rid, (Recorded.pack k r).origin? = some (.row l rid) → (g.loader? l).isSome →
      g.hasRow ⟨k, .row l rid⟩) : Aside e read g (g.grow k r) where
  wellMade := hw.grow hl hr
  loader := hl
  lists _ := rfl
  contains := contains_grow_of
  origin hn := origin_grow_of_ne hl (hw.ne_fresh hn k)
  recorded _ hv := hv
  noted _ hx := noted_grow hl (hw.ne_fresh hx k)

theorem of_setList (hw : g.WellMade) (o : Node) (cs : List Key) :
    Aside e (· = o) g (g.setList e o cs) where
  wellMade := hw.setList e o cs
  loader _ := rfl
  lists ho := Index.get?_set_other _ _ fun heq => ho (Prod.mk.inj heq).2.symm
  contains h := h
  origin _ := rfl
  recorded _ hv := hv
  noted _ _ := noted_setList _ _ _ _ _ _

/-- More containers may have been read. -/
theorem mono {read' : Node → Prop} (h : Aside e read g g') (hr : ∀ {o}, read o → read' o) :
    Aside e read' g g' where
  wellMade := h.wellMade
  loader := h.loader
  lists ho := h.lists (mt hr ho)
  contains := h.contains
  origin := h.origin
  recorded := h.recorded
  noted := h.noted

end Aside

/-! ## Taking over -/

section TakeOver

variable {c : Key} {p : Nat}

/-- **What taking a row over comes to**: it is taken itself where it is found free, else
a new entity that comes from it is. -/
structure TookRow (e : Edge) (o : Node) (l p : Nat) (g g' : Graph) (x : Key) : Prop
    extends Aside e (fun _ => False) g g' where
  made : g'.entities.contains ⟨e.childKind, x⟩
  others : ∀ {y v}, y ≠ x → g.owners.get? (e, y) = some v → g'.owners.get? (e, y) = some v
  taken : g'.owners.get? (e, x) = some (some o)
  free : ((Ownership.free e o (.row l p)).run g).1 = true → x = .row l p
  copied : ((Ownership.free e o (.row l p)).run g).1 = false →
    g'.origin ⟨e.childKind, x⟩ = .row l p ∧ ∀ {e'}, e' ≠ e → g'.owners.get? (e', x) = none

theorem takeOver_row (hw : g.WellMade) (hn : g.Numbered) (he : e ≠ .assemblyModules) (o : Node)
    (hc : g.entities.contains ⟨e.childKind, .row l p⟩) :
    ∃ x, ((Ownership.takeOver e l o (.row l p)).run g).1 = some x ∧
      TookRow e o l p g ((Ownership.takeOver e l o (.row l p)).run g).2 x := by
  have ha := keepsAsked_free e o (.row l p) g
  have hasked : Aside e (fun _ => False) g ((Ownership.free e o (.row l p)).run g).2 :=
    .of_asked hw hn ha (by rintro _ rfl; exact hc)
  -- the row is taken itself where it is found free, else a copy of it is
  cases hf : ((Ownership.free e o (.row l p)).run g).1 with
  | true =>
    rw [takeOver_free hf]
    refine ⟨_, rfl, hasked.trans (.of_setOwner hasked.wellMade (ha.contains hc) _),
      ha.contains hc, ?_, ?_, fun _ => rfl, fun h => Bool.noConfusion (hf.symm.trans h)⟩
    · intro y v hy hv
      rw [owners_setOwner, if_neg (fun heq => hy (Prod.mk.inj heq).2.symm)]
      exact ha.recorded hv
    · rw [owners_setOwner, if_pos rfl]
  | false =>
    obtain ⟨ρ, _, _, r, hr, -, hrun⟩ := takeOver_copy hw hn he hc hf
    rw [hrun]
    let g₁ := ((Ownership.free e o (.row l p)).run g).2
    have hl : ∀ l, (g₁.grow e.childKind r).loader? l = g₁.loader? l :=
      loader?_put (Recorded.Rowed.ne_module (ρ := ρ)) (⟨.built g₁.built⟩ : Id e.childKind) r
    have hgrown : Aside e (fun _ => False) g₁ (g₁.grow e.childKind r) := by
      refine .of_grow hasked.wellMade hl fun l' rid ho' _ => ?_
      rw [hr] at ho'
      cases ho'
      rw [hasRow_congr ha.loader]
      exact (hw.row he hc).1
    have hmade := grow_contains g₁ e.childKind r
    refine ⟨_, rfl, hasked.trans (hgrown.trans (.of_setOwner hgrown.wellMade hmade _)), hmade,
      ?_, ?_, fun h => Bool.noConfusion (hf.symm.trans h), fun _ => ⟨?_, fun {e'} he' => ?_⟩⟩
    · intro y v hy hv
      rw [owners_setOwner, if_neg (fun heq => hy (Prod.mk.inj heq).2.symm)]
      exact ha.recorded hv
    · rw [owners_setOwner, if_pos rfl]
    · have horigin := origin_grow (g := g₁) (k := e.childKind) (r := r)
      rw [hr] at horigin
      exact horigin
    · -- nothing is recorded of a number that has not been given out
      rw [owners_setOwner, if_neg (fun heq => he' (Prod.mk.inj heq).1.symm)]
      cases hv : g₁.owners.get? (e', .built g₁.built) with
      | none => exact hv
      | some v => exact absurd rfl (hasked.wellMade.ne_fresh (hasked.wellMade.owner hv) _)

/-- Taking rows over one after another. -/
theorem adopt_aside (he : e ≠ .assemblyModules) (o : Node) : ∀ (cs : List Key) {g : Graph},
    g.WellMade → g.Numbered → (∀ c ∈ cs, g.entities.contains ⟨e.childKind, c⟩) →
    (∀ c ∈ cs, ∃ p, c = .row l p) → Aside e (fun _ => False) g ((Ownership.adopt e l o cs).run g).2
  | [], _, hw, _, _, _ => .refl hw
  | c :: cs, g, hw, hn, hmade, hrows => by
    obtain ⟨p, rfl⟩ := hrows c List.mem_cons_self
    obtain ⟨x, -, htook⟩ := takeOver_row hw hn he o (hmade _ List.mem_cons_self)
    rw [adopt_cons]
    exact htook.trans (adopt_aside he o cs htook.wellMade (hn.congr htook.loader)
      (fun c hc => htook.contains (hmade c (List.mem_cons_of_mem _ hc)))
      fun c hc => hrows c (List.mem_cons_of_mem _ hc))

/-! ## A row that is listed twice -/

/-- It has been recorded of a child that it is free for a container. -/
structure Ready (g : Graph) (e : Edge) (o : Node) (c : Key) : Prop where
  rival : ∀ {e'}, e.rival? = some e' → g.owners.get? (e', c) = some none
  owner : g.owners.get? (e, c) = some none ∨ g.owners.get? (e, c) = some (some o)

theorem Ready.asked {children : Node → Prop} (h : g.Ready e o c) (ha : g.Asked children g') :
    g'.Ready e o c where
  rival hrival := ha.recorded (h.rival hrival)
  owner := h.owner.imp ha.recorded ha.recorded

theorem Ready.free (h : g.Ready e o c) : ((Ownership.free e o c).run g).1 = true := by
  have hclaimed : ((Ownership.claimed e c).run g).1 = false := by
    unfold Ownership.claimed
    cases hrival : e.rival? with
    | none => rfl
    | some e' =>
      show ((Ownership.owner e' c).run g).1.isSome = false
      rw [(owner_run g e' c).2.1, noted_of_recorded (h.rival hrival)]
      rfl
  have hready := h.asked (keepsAsked_claimed e c g)
  rw [free_eq]
  dsimp only
  rw [hclaimed, if_neg Bool.false_ne_true, (owner_run _ e c).2.1]
  rcases hready.owner with ho | ho
  · rw [noted_of_recorded ho]
    rfl
  · rw [noted_of_recorded ho, Option.filter_some]
    split
    · exact decide_eq_true rfl
    · rfl

/-- **A row that is listed several times is taken over as often**, as long as it is
free. -/
theorem count_adopt (he : e ≠ .assemblyModules) : ∀ (cs : List Key) {g : Graph}, g.WellMade →
    g.Numbered → (∀ c ∈ cs, g.entities.contains ⟨e.childKind, c⟩) →
    (∀ c ∈ cs, ∃ p, c = .row l p) → g.Ready e o (.row l p) →
    cs.count (.row l p) ≤ ((Ownership.adopt e l o cs).run g).1.count (.row l p)
  | [], _, _, _, _, _, _ => Nat.zero_le _
  | c :: cs, g, hw, hn, hmade, hrows, hready => by
    obtain ⟨q, rfl⟩ := hrows c List.mem_cons_self
    obtain ⟨x, hx, htook⟩ := takeOver_row hw hn he o (hmade _ List.mem_cons_self)
    -- taking another row over leaves this one free, and taking it over leaves it its own
    have hready' : ((Ownership.takeOver e l o (.row l q)).run g).2.Ready e o (.row l p) := by
      refine ⟨fun hrival => htook.recorded (rival_kind hrival).2.2.2.1.symm (hready.rival hrival), ?_⟩
      by_cases hsame : Key.row l p = x
      · exact Or.inr (hsame ▸ htook.taken)
      · exact hready.owner.imp (htook.others hsame) (htook.others hsame)
    have hrest := count_adopt he cs htook.wellMade (hn.congr htook.loader)
      (fun c hc => htook.contains (hmade c (List.mem_cons_of_mem _ hc)))
      (fun c hc => hrows c (List.mem_cons_of_mem _ hc)) hready'
    rw [adopt_cons]
    dsimp only
    rw [hx, Option.toList_some, List.singleton_append]
    by_cases hq : q = p
    · subst hq
      obtain rfl := htook.free hready.free
      rw [List.count_cons_self, List.count_cons_self]
      exact Nat.succ_le_succ hrest
    · have hne : Key.row l q ≠ .row l p := fun heq => hq (Key.row.inj heq).2
      rw [List.count_cons_of_ne hne]
      exact Nat.le_trans hrest List.count_le_count_cons

/-! ## A type with a container of the other sort -/

/-- A row that has a container of the other sort is not found free. -/
theorem free_claimed {e' : Edge} (hrival : e.rival? = some e') {w : Node}
    (hw : g.noted e' c = some w) (halive : g.alive w) :
    ((Ownership.free e o c).run g).1 = false := by
  rw [free_eq]
  dsimp only
  rw [if_pos]
  unfold Ownership.claimed
  rw [hrival]
  show ((Ownership.owner e' c).run g).1.isSome = true
  rw [(owner_run g e' _).2.1, hw, Option.filter_some, if_pos halive]
  rfl

/-- The copy of a row that is not free reads the container of the other sort that its store has. -/
theorem TookRow.rival {x : Key} (h : TookRow e o l p g g' x)
    (hfree : ((Ownership.free e o (.row l p)).run g).1 = false) {e' : Edge}
    (hrival : e.rival? = some e') {s : Store} (hs : g'.store? l = some s)
    (hc : s.contains e' p = true) : ∃ v, g'.noted e' x = some v ∧ g'.alive v := by
  obtain ⟨hkind, -, -, hne, hpair⟩ := rival_kind hrival
  obtain ⟨horigin, hnew⟩ := h.copied hfree
  have hstored := stored_isSome h.wellMade (hkind ▸ horigin) hs hpair
  rw [hc] at hstored
  obtain ⟨v, hv⟩ := Option.isSome_iff_exists.mp hstored
  refine ⟨v, ?_, stored_alive hv⟩
  rw [noted, hnew hne.symm]
  exact hv

/-- **The private copy of a type that the store has in a container of the other sort is
in that container too.** -/
theorem rival_adopt {e' : Edge} (hrival : e.rival? = some e') {s : Store}
    (hc : s.contains e' p = true) : ∀ (cs : List Key) {g : Graph}, g.WellMade → g.Numbered →
    g.store? l = some s → (∀ c ∈ cs, g.entities.contains ⟨e.childKind, c⟩) →
    (∀ c ∈ cs, ∃ q, c = .row l q) → Key.row l p ∈ cs →
    (∃ w, g.noted e' (.row l p) = some w ∧ g.alive w) →
    ∃ x ∈ ((Ownership.adopt e l o cs).run g).1,
      ∃ w, ((Ownership.adopt e l o cs).run g).2.noted e' x = some w ∧
        ((Ownership.adopt e l o cs).run g).2.alive w
  | [], _, _, _, _, _, _, hmem, _ => absurd hmem List.not_mem_nil
  | c :: cs, g, hw, hn, hs, hmade, hrows, hmem, hclaimed => by
    obtain ⟨hkind, hkind', -, hne, -⟩ := rival_kind hrival
    have he : e ≠ .assemblyModules := by
      rintro rfl
      cases hrival
    obtain ⟨q, rfl⟩ := hrows c List.mem_cons_self
    obtain ⟨x, hx, htook⟩ := takeOver_row hw hn he o (hmade _ List.mem_cons_self)
    let g₁ := ((Ownership.takeOver e l o (.row l q)).run g).2
    have hmade₁ : ∀ c ∈ cs, g₁.entities.contains ⟨e.childKind, c⟩ := fun c hc =>
      htook.contains (hmade c (List.mem_cons_of_mem _ hc))
    have hrows₁ : ∀ c ∈ cs, ∃ q, c = .row l q := fun c hc => hrows c (List.mem_cons_of_mem _ hc)
    have hn₁ : g₁.Numbered := hn.congr htook.loader
    have hs₁ : g₁.store? l = some s := by rw [store?_congr htook.loader, hs]
    rw [adopt_cons]
    dsimp only
    rw [hx, Option.toList_some, List.singleton_append]
    have hedge : ∀ {y}, g.entities.contains ⟨e.childKind, y⟩ →
        g₁.noted e' y = g.noted e' y := fun hy => htook.noted hne.symm (by rw [hkind', ← hkind]; exact hy)
    by_cases hq : q = p
    · subst hq
      -- the row itself is claimed, and its copy reads the same row
      obtain ⟨w, hw', halive⟩ := hclaimed
      obtain ⟨v, hnoted, hthere⟩ := htook.rival (free_claimed hrival hw' halive) hrival hs₁ hc
      have hrest := adopt_aside he o cs htook.wellMade hn₁ hmade₁ hrows₁
      refine ⟨x, List.mem_cons_self, v, ?_, hrest.alive hthere⟩
      rw [hrest.noted hne.symm (by rw [hkind', ← hkind]; exact htook.made), hnoted]
    · -- another row is taken over first, which leaves the claim on this one
      have hp : Key.row l p ∈ cs := by
        rcases List.mem_cons.mp hmem with heq | hp
        · exact absurd (Key.row.inj heq).2.symm hq
        · exact hp
      obtain ⟨w, hw', halive⟩ := hclaimed
      obtain ⟨y, hy, hnoted⟩ := rival_adopt hrival hc cs htook.wellMade hn₁ hs₁ hmade₁ hrows₁ hp
        ⟨w, (hedge (hmade _ hmem)).trans hw', htook.alive halive⟩
      exact ⟨y, List.mem_cons_of_mem _ hy, hnoted⟩

end TakeOver

/-! ## Reading a list for the first time -/

section Items

variable {rid : Nat} {s : Store}

/-- What the store lists for a container becomes its list. -/
theorem items_stored (hw : g.WellMade) (hn : g.Numbered) (he : e ≠ .assemblyModules)
    (hl : g.lists.get? (e, o) = none) (horigin : g.origin o = .row l rid)
    (hs : g.store? l = some s) :
    ∃ (g₁ : Graph) (cs : List Key), g.Asked (fun _ => False) g₁ ∧
      cs.Perm ((s.listedRows e o.kind rid).map (.row l)) ∧
      (∀ c ∈ cs, g₁.entities.contains ⟨e.childKind, c⟩) ∧
      Aside e (fun _ => False) g₁ ((Ownership.adopt e l o cs).run g₁).2 ∧
      (Ownership.items e o).run g = (((Ownership.adopt e l o cs).run g₁).1,
        ((Ownership.adopt e l o cs).run g₁).2.setList e o ((Ownership.adopt e l o cs).run g₁).1) := by
  obtain ⟨g₁, cs, ha, hperm, hmade, hrun⟩ := storedItems_eq hw he o rid hs
  have haside := adopt_aside (l := l) he o cs (hw.asked hn ha (by rintro _ ⟨⟩))
    (hn.congr ha.loader) hmade fun c hc => by
      obtain ⟨p, -, rfl⟩ := List.mem_map.mp (hperm.mem_iff.mp hc)
      exact ⟨p, rfl⟩
  have hreader : g.reader? (g.origin o) = some (l, rid) := by
    rw [horigin]
    exact if_pos (loader?_of_store? hs)
  refine ⟨g₁, cs, ha, hperm, hmade, haside, ?_⟩
  rw [items_row hl hreader (by rw [hrun, haside.lists id, ha.lists, hl]), hrun]

/-- A list is read for the first time, and everything aside of it stays. -/
theorem items_aside (hw : g.WellMade) (hn : g.Numbered) (he : e ≠ .assemblyModules)
    (hl : g.lists.get? (e, o) = none) : Aside e (· = o) g ((Ownership.items e o).run g).2 := by
  cases hreader : g.reader? (g.origin o) with
  | none =>
    rw [items_memory hl hreader]
    exact .of_setList hw o []
  | some row =>
    obtain ⟨l, rid⟩ := row
    obtain ⟨horigin, s, hs⟩ := reader?_some hreader
    obtain ⟨g₁, cs, ha, -, -, haside, hrun⟩ := items_stored hw hn he hl horigin hs
    rw [hrun]
    exact (Aside.of_asked hw hn ha (by rintro _ ⟨⟩)).trans
      ((haside.mono False.elim).trans (.of_setList haside.wellMade o _))

/-- A child leaves a container whose list has not been read. -/
theorem leave_aside (hw : g.WellMade) (hn : g.Numbered) (he : e ≠ .assemblyModules)
    (hl : g.lists.get? (e, o) = none) {c : Key} (hc : g.entities.contains ⟨e.childKind, c⟩) :
    Aside e (· = o) g (g.leave e c (some o)) ∧
      (g.leave e c (some o)).owners.get? (e, c) = some none := by
  have hitems := items_aside hw hn he hl
  have hmade := hitems.contains hc
  show Aside e (· = o) g (if c ∈ ((Ownership.items e o).run g).1 then _ else _) ∧
    (if c ∈ ((Ownership.items e o).run g).1 then _ else _ : Graph).owners.get? (e, c) = _
  split
  · next hlisted =>
    rw [remove_run, if_pos hlisted]
    have hset := hitems.trans (.of_setList hitems.wellMade o
      (((Ownership.items e o).run g).1.erase c))
    exact ⟨hset.trans (.of_setOwner hset.wellMade hmade none), Index.get?_set_same _ _ _⟩
  · exact ⟨hitems.trans (.of_setOwner hitems.wellMade hmade none), Index.get?_set_same _ _ _⟩

end Items
end Graph
end CliMetadata
