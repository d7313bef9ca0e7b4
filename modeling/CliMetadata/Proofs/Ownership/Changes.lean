import CliMetadata.Proofs.Ownership.Listing

/-!
# What the operations on containers do

The operations of `Ownership` are put together from few changes, and `Graph.Change`
lists them with what holds when each is made: a back-reference or a list is read, a
child that is free is attached to a list it is not in, a child is detached from the
list it is in, a child that no list holds loses its container, and a list is emptied.

**Each operation is a sequence of such changes** (`add_changes` and so on), and an
invariant has to be shown for the changes alone.  The invariant of containment is
shown here (`Sound.changes`).
-/

namespace CliMetadata
namespace Graph

open Loading Stateful

variable {g g' g'' : Graph}

/-- A graph with the invariant, read from stores that lists are read well from. -/
structure Sound (g : Graph) : Prop where
  wellMade : g.WellMade
  owned : g.Owned
  numbered : g.Numbered
  unambiguous : g.Unambiguous

/-! ## The changes -/

/-- The graph with several children of no container. -/
def disown (g : Graph) (e : Edge) (cs : List Key) : Graph :=
  cs.foldl (fun g c => g.setOwner e c none) g

/-- **One change of a graph by an operation on containers.** -/
inductive Change (g : Graph) : Graph → Prop
  /-- Entities of rows or back-references are read. -/
  | asked {g' : Graph} {children : Node → Prop} (h : g.Asked children g')
      (made : ∀ {n}, children n → g.entities.contains n) : Change g g'
  /-- A list is read. -/
  | items {e : Edge} {o : Node} (container : g.IsContainer e o) :
      Change g ((Ownership.items e o).run g).2
  /-- A free child is put into a list. -/
  | attach {e : Edge} {o : Node} {c : Key} {cs : List Key} (container : g.IsContainer e o)
      (made : g.entities.contains ⟨e.childKind, c⟩) (free : g.Free e o c)
      (list : g.lists.get? (e, o) = some cs) (absent : c ∉ cs) (i : Nat) :
      Change g ((g.setOwner e c (some o)).setList e o (cs.insertIdx (min i cs.length) c))
  /-- A child is taken out of a list. -/
  | detach {e : Edge} {o : Node} {c : Key} {cs : List Key}
      (list : g.lists.get? (e, o) = some cs) (listed : c ∈ cs) :
      Change g ((g.setList e o (cs.erase c)).setOwner e c none)
  /-- A child that no list holds is made a child of no container. -/
  | forget {e : Edge} {c : Key} (made : g.entities.contains ⟨e.childKind, c⟩)
      (absent : ∀ o, c ∉ g.held e o) : Change g (g.setOwner e c none)
  /-- A list is emptied. -/
  | clear {e : Edge} {o : Node} {cs : List Key} (list : g.lists.get? (e, o) = some cs) :
      Change g ((g.setList e o []).disown e cs)

/-- A sequence of changes. -/
inductive Changes (g : Graph) : Graph → Prop
  | refl : Changes g g
  | step {g' g'' : Graph} (before : Changes g g') (change : g'.Change g'') : Changes g g''

theorem Changes.trans (h : g.Changes g') (k : g'.Changes g'') : g.Changes g'' := by
  induction k with
  | refl => exact h
  | step _ change ih => exact ih.step change

theorem Change.changes (h : g.Change g') : g.Changes g' := Changes.refl.step h

theorem held_eq {e : Edge} {o : Node} {cs : List Key} (h : g.lists.get? (e, o) = some cs) :
    g.held e o = cs := by
  rw [held, h]
  rfl

section Disown

variable {e e' : Edge} {c : Key}

theorem owners_disown : ∀ (cs : List Key) (g : Graph), (g.disown e cs).owners.get? (e', c) =
    if e = e' ∧ c ∈ cs then some none else g.owners.get? (e', c)
  | [], g => by rw [if_neg (fun h => absurd h.2 List.not_mem_nil)]; rfl
  | x :: cs, g => by
    rw [disown, List.foldl_cons]
    show ((g.setOwner e x none).disown e cs).owners.get? (e', c) = _
    rw [owners_disown cs, owners_setOwner]
    by_cases he : e = e'
    · subst he
      by_cases hx : x = c
      · subst hx
        simp
      · have hx' : c ≠ x := fun h => hx h.symm
        simp [hx, hx']
    · simp [he]

theorem held_disown {o : Node} : ∀ (cs : List Key) (g : Graph),
    (g.disown e cs).held e' o = g.held e' o
  | [], _ => rfl
  | x :: cs, g => held_disown cs (g.setOwner e x none)

end Disown

theorem WellMade.disown {e : Edge} : ∀ {cs : List Key} {g : Graph}, g.WellMade →
    (∀ c ∈ cs, g.entities.contains ⟨e.childKind, c⟩) → (g.disown e cs).WellMade
  | [], _, h, _ => h
  | _ :: _, _, h, hcs =>
    (h.setOwner (hcs _ List.mem_cons_self) none).disown fun c hc => hcs c (List.mem_cons_of_mem _ hc)

theorem Owned.disown {e : Edge} : ∀ {cs : List Key} {g : Graph}, g.Owned →
    (∀ c ∈ cs, ∀ o, c ∉ g.held e o) → (g.disown e cs).Owned
  | [], _, h, _ => h
  | c :: cs, g, h, hcs => by
    have hfirst : (g.setOwner e c none).Owned := by
      refine h.setOwner (by rintro _ ⟨⟩) ?_ fun _ _ _ _ => rfl
      intro o hlist
      exact absurd hlist (hcs c List.mem_cons_self o)
    exact hfirst.disown fun x hx => hcs x (List.mem_cons_of_mem _ hx)

/-! ## The invariant -/

/-- What every change keeps of the entities. -/
structure Kept (g g' : Graph) : Prop where
  sound : g'.Sound
  loader : ∀ l, g'.loader? l = g.loader? l
  contains : ∀ {n}, g.entities.contains n → g'.entities.contains n

theorem Kept.of (h : g.Sound) (hw : g'.WellMade) (ho : g'.Owned)
    (hl : ∀ l, g'.loader? l = g.loader? l)
    (hc : ∀ {n}, g.entities.contains n → g'.entities.contains n) : Kept g g' where
  sound := ⟨hw, ho, h.numbered.congr hl, fun l s hs => h.unambiguous l s (store?_congr hl l ▸ hs)⟩
  loader := hl
  contains := hc

theorem Kept.trans (h : Kept g g') (k : Kept g' g'') : Kept g g'' where
  sound := k.sound
  loader l := (k.loader l).trans (h.loader l)
  contains hn := k.contains (h.contains hn)

theorem loader?_disown {e : Edge} (l : Nat) : ∀ (cs : List Key) (g : Graph),
    (g.disown e cs).loader? l = g.loader? l
  | [], _ => rfl
  | _ :: cs, g => loader?_disown l cs (g.setOwner e _ none)

theorem entities_disown {e : Edge} : ∀ (cs : List Key) (g : Graph),
    (g.disown e cs).entities = g.entities
  | [], _ => rfl
  | _ :: cs, g => entities_disown cs (g.setOwner e _ none)

/-- A child is in one list of a kind at most. -/
theorem Owned.one_list (h : g.Owned) {e : Edge} {c : Key} {o o' : Node} (hc : c ∈ g.held e o)
    (hc' : c ∈ g.held e o') : o = o' :=
  Option.some.inj (Option.some.inj ((h.listed hc).symm.trans (h.listed hc')))

section Changed

variable {e : Edge} {o : Node} {c : Key} {cs : List Key}

/-- The back-reference of a child is written first, so that all of the new list is the
container's. -/
theorem Sound.attach (h : g.Sound) (container : g.IsContainer e o)
    (made : g.entities.contains ⟨e.childKind, c⟩) (free : g.Free e o c)
    (list : g.lists.get? (e, o) = some cs) (absent : c ∉ cs) (i : Nat) :
    Kept g ((g.setOwner e c (some o)).setList e o (cs.insertIdx (min i cs.length) c)) := by
  have hnodup : cs.Nodup := held_eq list ▸ h.owned.nodup e o
  have hheld : ∀ x ∈ cs, x ∈ g.held e o := fun x hx => by rw [held_eq list]; exact hx
  have hperm := List.perm_insertIdx c cs (Nat.min_le_right i cs.length)
  have hmem : ∀ x ∈ cs.insertIdx (min i cs.length) c, x = c ∨ x ∈ cs := fun x hx =>
    List.mem_cons.mp (hperm.mem_iff.mp hx)
  refine .of h ((h.wellMade.setOwner made _).setList e o _)
    ((h.owned.take container free).setList ?nodup ?owner ?apart) (fun _ => rfl) id
  case nodup => exact hperm.nodup_iff.mpr (List.nodup_cons.mpr ⟨absent, hnodup⟩)
  case owner =>
    intro x hx
    rw [owners_setOwner]
    split
    · rfl
    · next hne =>
      rcases hmem x hx with rfl | hx
      · exact absurd rfl hne
      · exact h.owned.listed (hheld x hx)
  case apart =>
    intro e' hrival x hx
    have hne : (e, c) ≠ (e', x) := fun heq => (rival_kind hrival).2.2.2.1 (Prod.mk.inj heq).1
    rw [noted_setOwner, if_neg hne]
    rcases hmem x hx with rfl | hx
    · exact free.1 e' hrival
    · exact h.owned.apart hrival (hheld x hx)

/-- The list is written first here, so that none depends on the back-reference. -/
theorem Sound.detach (h : g.Sound) (list : g.lists.get? (e, o) = some cs) (listed : c ∈ cs) :
    Kept g ((g.setList e o (cs.erase c)).setOwner e c none) := by
  have hnodup : cs.Nodup := held_eq list ▸ h.owned.nodup e o
  have hheld : ∀ x ∈ cs, x ∈ g.held e o := fun x hx => by rw [held_eq list]; exact hx
  have hfirst : (g.setList e o (cs.erase c)).Owned := h.owned.setList (hnodup.erase c)
    (fun x hx => h.owned.listed (hheld x (List.mem_of_mem_erase hx)))
    fun e' hrival x hx => h.owned.apart hrival (hheld x (List.mem_of_mem_erase hx))
  refine .of h ((h.wellMade.setList e o _).setOwner (h.wellMade.owner
    (h.owned.listed (hheld c listed))) _) (hfirst.setOwner (by rintro _ ⟨⟩) ?_ fun _ _ _ _ => rfl)
    (fun _ => rfl) id
  intro o' hlist
  rw [held_setList] at hlist
  split at hlist
  · exact absurd hlist hnodup.not_mem_erase
  · next hne => exact absurd (congrArg _ (h.owned.one_list (hheld c listed) hlist)) hne

theorem Sound.forget (h : g.Sound) (made : g.entities.contains ⟨e.childKind, c⟩)
    (absent : ∀ o, c ∉ g.held e o) : Kept g (g.setOwner e c none) :=
  .of h (h.wellMade.setOwner made none) (h.owned.setOwner (by rintro _ ⟨⟩)
    (fun o hlist => absurd hlist (absent o)) fun _ _ _ _ => rfl) (fun _ => rfl) id

theorem Sound.clear (h : g.Sound) (list : g.lists.get? (e, o) = some cs) :
    Kept g ((g.setList e o []).disown e cs) := by
  have hheld : ∀ x ∈ cs, x ∈ g.held e o := fun x hx => by rw [held_eq list]; exact hx
  have hmade : ∀ x ∈ cs, g.entities.contains ⟨e.childKind, x⟩ := fun x hx =>
    h.wellMade.owner (h.owned.listed (hheld x hx))
  have hfirst : (g.setList e o []).Owned := h.owned.setList .nil
    (fun _ hx => absurd hx List.not_mem_nil) fun _ _ _ hx => absurd hx List.not_mem_nil
  have hnone : ∀ x ∈ cs, ∀ o', x ∉ (g.setList e o []).held e o' := by
    intro x hx o' hlist
    rw [held_setList] at hlist
    split at hlist
    · exact absurd hlist List.not_mem_nil
    · next hne => exact hne (congrArg _ (h.owned.one_list (hheld x hx) hlist))
  refine .of h ((h.wellMade.setList e o []).disown hmade) (hfirst.disown hnone)
    (fun l => loader?_disown l cs (g.setList e o [])) fun {n} hn => ?_
  rw [entities_disown]
  exact hn

end Changed

/-- **A change keeps the invariant.** -/
theorem Sound.change (h : g.Sound) (k : g.Change g') : Kept g g' := by
  cases k with
  | asked ha made =>
    exact .of h (h.wellMade.asked h.numbered ha made) (h.owned.asked ha) ha.loader ha.contains
  | items container =>
    have hlisted := items_run h.owned h.wellMade h.numbered h.unambiguous container
    exact .of h hlisted.wellMade hlisted.owned hlisted.loader hlisted.contains
  | attach container made free list absent i => exact h.attach container made free list absent i
  | detach list listed => exact h.detach list listed
  | forget made absent => exact h.forget made absent
  | clear list => exact h.clear list

theorem Sound.changes (h : g.Sound) (k : g.Changes g') : Kept g g' := by
  induction k with
  | refl => exact .of h h.wellMade h.owned (fun _ => rfl) id
  | step _ change ih => exact ih.trans (ih.sound.change change)

/-! ## The operations -/

section Operations

variable {e : Edge} {o : Node} {c : Key}

theorem IsContainer.kept (ho : g.IsContainer e o) (k : Kept g g') : g'.IsContainer e o :=
  ho.mono k.contains

theorem owner_changes (made : g.entities.contains ⟨e.childKind, c⟩) :
    g.Changes ((Ownership.owner e c).run g).2 :=
  (Change.asked (owner_run g e c).1 (by rintro _ rfl; exact made)).changes

theorem items_changes (ho : g.IsContainer e o) : g.Changes ((Ownership.items e o).run g).2 :=
  (Change.items ho).changes

theorem sharedChild_changes (he : e ≠ .assemblyModules) (l p : Nat) :
    g.Changes ((Ownership.sharedChild e l p).run g).2 :=
  (Change.asked (sharedChild_run he g l p).1 (by rintro _ ⟨⟩)).changes

/-- A child is refused where it is not found free. -/
theorem refusal_free (e : Edge) (o : Node) (c : Key) :
    ((Ownership.refusal? e o c).run g).2 = ((Ownership.free e o c).run g).2 ∧
      (((Ownership.refusal? e o c).run g).1 = none ↔ ((Ownership.free e o c).run g).1 = true) := by
  unfold Ownership.refusal? Ownership.free
  rw [run_bind, run_bind]
  cases ((Ownership.claimed e c).run g).1 with
  | true => exact ⟨rfl, iff_of_false (by rintro ⟨⟩) (by rintro ⟨⟩)⟩
  | false =>
    rw [if_neg Bool.false_ne_true, if_neg Bool.false_ne_true, run_bind, run_bind]
    cases ((Ownership.owner e c).run ((Ownership.claimed e c).run g).2).1 with
    | none => exact ⟨rfl, iff_of_true rfl rfl⟩
    | some o' =>
      by_cases ho : o' = o
      · subst ho
        exact ⟨rfl, iff_of_true (if_pos rfl) (decide_eq_true rfl)⟩
      · refine ⟨rfl, iff_of_false ?_ ?_⟩
        · show (if o' = o then none else some _) ≠ none
          rw [if_neg ho]
          rintro ⟨⟩
        · show decide (o' = o) ≠ true
          rw [decide_eq_false ho]
          exact Bool.false_ne_true

/-- A container refuses a child that it may not take over. -/
theorem refusal_run (h : g.Owned) (e : Edge) (o : Node) (c : Key) :
    g.Asked (· = ⟨e.childKind, c⟩) ((Ownership.refusal? e o c).run g).2 ∧
      (((Ownership.refusal? e o c).run g).1 = none ↔ g.Free e o c) := by
  obtain ⟨hgraph, hrefusal⟩ := refusal_free (g := g) e o c
  rw [hgraph, hrefusal]
  exact ⟨keepsAsked_free e o c g, free_value h e o c⟩

/-- Putting a child into a list, unless it is refused or there already. -/
theorem insert_run (halive : g.alive o) (i : Nat) (c : Key) :
    ((Ownership.insert e o i c).run g).2 =
      let before := (Ownership.items e o).run g
      let refusal := (Ownership.refusal? e o c).run before.2
      if refusal.1.isSome ∨ c ∈ before.1 then refusal.2
      else (refusal.2.setOwner e c (some o)).setList e o
        (before.1.insertIdx (min i before.1.length) c) := by
  unfold Ownership.insert
  rw [run_get_bind, halive, if_neg (by decide), run_bind, run_bind]
  dsimp only
  cases ((Ownership.refusal? e o c).run ((Ownership.items e o).run g).2).1 with
  | some refusal =>
    have hrefused : (some refusal).isSome ∨ c ∈ ((Ownership.items e o).run g).1 := Or.inl rfl
    rw [if_pos hrefused]
    rfl
  | none =>
    dsimp only
    by_cases hc : c ∈ ((Ownership.items e o).run g).1
    · rw [if_pos hc, if_pos (Or.inr hc)]
      rfl
    · have hnew : ¬((none : Option OwnershipError).isSome ∨ c ∈ ((Ownership.items e o).run g).1) := by
        rintro (hrefused | hlisted)
        · cases hrefused
        · exact hc hlisted
      rw [if_neg hc, if_neg hnew]
      rfl

theorem insert_changes (h : g.Sound) (ho : g.IsContainer e o)
    (made : g.entities.contains ⟨e.childKind, c⟩) (i : Nat) :
    g.Changes ((Ownership.insert e o i c).run g).2 := by
  let before := (Ownership.items e o).run g
  have hbefore := items_run h.owned h.wellMade h.numbered h.unambiguous ho
  obtain ⟨hasked, hrefusal⟩ := refusal_run hbefore.owned e o c
  have hread : g.Changes ((Ownership.refusal? e o c).run before.2).2 :=
    (items_changes ho).step (.asked hasked (by rintro _ rfl; exact hbefore.contains made))
  rw [insert_run (alive_of_contains ho.made)]
  dsimp only
  split
  · exact hread
  · next hnew =>
      have hv := Option.not_isSome_iff_eq_none.mp fun hrefused => hnew (Or.inl hrefused)
      have hc := fun hlisted => hnew (Or.inr hlisted)
      have hlist : ((Ownership.refusal? e o c).run before.2).2.lists.get? (e, o) = some before.1 :=
        hasked.lists ▸ hbefore.list
      exact hread.step (.attach (ho.mono fun hn => hasked.contains (hbefore.contains hn))
        (hasked.contains (hbefore.contains made)) ((hrefusal.mp hv).asked hasked) hlist hc i)

/-- Adding a child to a container that exists is inserting it at the end of the list. -/
theorem add_run (halive : g.alive o) : (Ownership.add e o c).run g =
    (Ownership.insert e o ((Ownership.items e o).run g).1.length c).run
      ((Ownership.items e o).run g).2 := by
  unfold Ownership.add
  rw [run_get_bind, halive]
  rfl

theorem add_changes (h : g.Sound) (ho : g.IsContainer e o)
    (made : g.entities.contains ⟨e.childKind, c⟩) :
    g.Changes ((Ownership.add e o c).run g).2 := by
  have hitems : g.Changes _ := items_changes ho
  have hkept := h.changes hitems
  rw [add_run (alive_of_contains ho.made)]
  exact hitems.trans (insert_changes hkept.sound (ho.kept hkept) (hkept.contains made) _)

/-- Taking a child out of a list, and whether it was in it. -/
theorem remove_run (g : Graph) (e : Edge) (o : Node) (c : Key) :
    (Ownership.remove e o c).run g =
      if c ∈ ((Ownership.items e o).run g).1 then
        (true, (((Ownership.items e o).run g).2.setList e o
          (((Ownership.items e o).run g).1.erase c)).setOwner e c none)
      else (false, ((Ownership.items e o).run g).2) := by
  unfold Ownership.remove
  rw [run_bind]
  split
  · rfl
  · rfl

theorem remove_changes (h : g.Sound) (ho : g.IsContainer e o) (c : Key) :
    g.Changes ((Ownership.remove e o c).run g).2 := by
  rw [remove_run]
  have hlist := (items_run h.owned h.wellMade h.numbered h.unambiguous ho).list
  split
  · next hc => exact (items_changes ho).step (.detach hlist hc)
  · exact items_changes ho

/-- Taking out the child at a place of a list. -/
theorem removeAt_run (g : Graph) (e : Edge) (o : Node) (i : Nat) :
    ((Ownership.removeAt e o i).run g).2 =
      let before := (Ownership.items e o).run g
      match before.1[i]? with
      | none => before.2
      | some c => (before.2.setList e o (before.1.eraseIdx i)).setOwner e c none := by
  unfold Ownership.removeAt
  rw [run_bind]
  dsimp only
  cases ((Ownership.items e o).run g).1[i]? with
  | none => rfl
  | some c => rfl

theorem removeAt_changes (h : g.Sound) (ho : g.IsContainer e o) (i : Nat) :
    g.Changes ((Ownership.removeAt e o i).run g).2 := by
  let before := (Ownership.items e o).run g
  have hbefore := items_run h.owned h.wellMade h.numbered h.unambiguous ho
  have hnodup : before.1.Nodup := held_eq hbefore.list ▸ hbefore.owned.nodup e o
  rw [removeAt_run]
  dsimp only
  cases hc : before.1[i]? with
  | none => exact items_changes ho
  | some c =>
    obtain ⟨hi, rfl⟩ := List.getElem?_eq_some_iff.mp hc
    have hchange := Change.detach hbefore.list (List.getElem_mem hi)
    rw [hnodup.erase_getElem i hi] at hchange
    exact (items_changes ho).step hchange

theorem clear_changes (h : g.Sound) (ho : g.IsContainer e o) :
    g.Changes ((Ownership.clear e o).run g).2 :=
  (items_changes ho).step
    (.clear (items_run h.owned h.wellMade h.numbered h.unambiguous ho).list)

/-- The graph in which a child has left the container that it is in. -/
def leave (g : Graph) (e : Edge) (c : Key) : Option Node → Graph
  | none => g
  | some o =>
    if c ∈ ((Ownership.items e o).run g).1 then ((Ownership.remove e o c).run g).2
    else ((Ownership.items e o).run g).2.setOwner e c none

theorem leave_changes (h : g.Sound) {v : Option Node} (hv : g.owners.get? (e, c) = some v) :
    g.Changes (g.leave e c v) := by
  cases v with
  | none => exact .refl
  | some o =>
    have ho := h.owned.container hv
    show g.Changes (if c ∈ ((Ownership.items e o).run g).1 then _ else _)
    split
    · exact remove_changes h ho c
    · next hc =>
      have hlisted := items_run h.owned h.wellMade h.numbered h.unambiguous ho
      refine (items_changes ho).step (.forget (hlisted.contains (h.wellMade.owner hv)) ?_)
      -- a list that has just been read does not hold the child, and no other one can
      intro o' hlist
      by_cases hsame : (e, o) = (e, o')
      · cases hsame
        rw [held_eq hlisted.list] at hlist
        exact hc hlist
      · rw [held, hlisted.others hsame] at hlist
        rw [h.owned.listed hlist] at hv
        cases hv
        exact hsame rfl

/-- Moving a child: it leaves the container that it is in and is added to another. -/
theorem reassign_run (g : Graph) (e : Edge) (c : Key) (target : Option Node) :
    (Ownership.reassign e c target).run g =
      if ((Ownership.owner e c).run g).1 = target then (.ok (), ((Ownership.owner e c).run g).2)
      else
        let left := ((Ownership.owner e c).run g).2.leave e c ((Ownership.owner e c).run g).1
        match target with
        | none => (.ok (), left)
        | some o => (Ownership.add e o c).run left := by
  unfold Ownership.reassign
  rw [run_bind]
  split
  · rfl
  · cases ((Ownership.owner e c).run g).1 with
    | none => cases target <;> rfl
    | some o =>
      dsimp only
      rw [run_bind, remove_run, leave, remove_run]
      split
      · cases target <;> rfl
      · cases target <;> rfl

theorem reassign_changes (h : g.Sound) (made : g.entities.contains ⟨e.childKind, c⟩)
    {target : Option Node} (ho : ∀ o, target = some o → g.IsContainer e o) :
    g.Changes ((Ownership.reassign e c target).run g).2 := by
  have howner : g.Changes _ := owner_changes made
  have hkept := h.changes howner
  have hrecorded := (owner_run g e c).2.2
  rw [reassign_run]
  split
  · exact howner
  · rw [h.owned.owner_value]
    have hleft := howner.trans (leave_changes hkept.sound hrecorded)
    cases target with
    | none => exact hleft
    | some o =>
      have hkept' := h.changes hleft
      exact hleft.trans
        (add_changes hkept'.sound ((ho o rfl).kept hkept') (hkept'.contains made))

end Operations

end Graph
end CliMetadata
