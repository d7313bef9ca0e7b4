import CliMetadata.Proofs.Graph.Consulting
import CliMetadata.Proofs.Ownership.Memory
import CliMetadata.Proofs.Ownership.Steps

/-!
# Graphs whose lists and back-references agree

`Graph.Agreeing` says that the two sides of containment agree as they read, whatever has been read
of them before: a child in a list has the list's container, and a child that has a container is in
its list.  It is asked of what `items` and `owner` give, and so of the stores too.

**In such a graph reading moves nothing** (`Tidy.items_run`).  What an unread list is populated
from is in the container already and in none of the other sort, so each child is taken over as it
is and no private copy is made.  `Graph.Still g g'` says what is the same then: every
back-reference, and every list, whether it has been read in the meantime or not.
-/

namespace CliMetadata
namespace Graph

open CliMetadata.Graph Loading Stateful

variable {g g' g'' : Graph} {e : Edge} {o : Node} {c : Key} {l : Nat}

/-! ## What is read -/

/-- The children that a container has, read before or not. -/
def contents (g : Graph) (e : Edge) (o : Node) : List Key := ((Ownership.items e o).run g).1

/-- The container that a child has, read before or not. -/
def container (g : Graph) (e : Edge) (c : Key) : Option Node := ((Ownership.owner e c).run g).1

theorem container_eq (g : Graph) (e : Edge) (c : Key) :
    g.container e c = (g.noted e c).filter g.alive := (owner_run g e c).2.1

theorem noted_of_container (h : g.container e c = some o) : g.noted e c = some o := by
  rw [container_eq, Option.filter_eq_some_iff] at h
  exact h.1

/-- **Lists and back-references agree** in both directions, no list holds a child twice, no type is
both in a module and in a type, and what a back-reference names is there. -/
structure Agreeing (g : Graph) : Prop where
  wellMade : g.WellMade
  numbered : g.Numbered
  placed : ∀ {e : Edge} {o : Node} {c : Key}, o.kind ∈ e.ownerKinds → c ∈ g.contents e o →
    g.container e c = some o
  listed : ∀ {e : Edge} {o : Node} {c : Key}, g.entities.contains ⟨e.childKind, c⟩ →
    g.container e c = some o → c ∈ g.contents e o
  nodup : ∀ {e : Edge} {o : Node}, o.kind ∈ e.ownerKinds → (g.contents e o).Nodup
  apart : ∀ t : Key, g.container .moduleTypes t = none ∨ g.container .nestedTypes t = none
  names : ∀ {e : Edge} {c : Key} {o : Node}, g.noted e c = some o →
    o.kind ∈ e.ownerKinds ∧ g.alive o

/-- A child that has a container has none of the other sort. -/
theorem Agreeing.unclaimed (h : g.Agreeing) (hc : g.container e c = some o) {e' : Edge}
    (hrival : e.rival? = some e') : g.container e' c = none := by
  cases e with
  | moduleTypes =>
    cases hrival
    exact (h.apart c).resolve_left fun hnone => by cases hc.symm.trans hnone
  | nestedTypes =>
    cases hrival
    exact (h.apart c).resolve_right fun hnone => by cases hc.symm.trans hnone
  | _ => cases hrival

/-! ## What lists are populated from -/

/-- What the list of a container is populated from when it is first read. -/
def candidates (g : Graph) (e : Edge) (o : Node) : List Key :=
  match g.reader? (g.origin o) with
  | none => []
  | some (l, rid) =>
    if e = .assemblyModules then [] else
      match g.store? l with
      | none => []
      | some s => Ownership.ordered g e ((s.listedRows e o.kind rid).map (.row l))

/-- What a list holds, or what it will be populated from. -/
def listing (g : Graph) (e : Edge) (o : Node) : List Key :=
  (g.lists.get? (e, o)).getD (g.candidates e o)

theorem listing_held {cs : List Key} (h : g.lists.get? (e, o) = some cs) :
    g.listing e o = cs := by
  rw [listing, h]
  rfl

theorem listing_unread (h : g.lists.get? (e, o) = none) : g.listing e o = g.candidates e o := by
  rw [listing, h]
  rfl

/-- The sorts of entities that contain or are contained. -/
def Placeable (k : Kind) : Prop := ∃ e : Edge, k = e.childKind ∨ k ∈ e.ownerKinds

theorem ordered_congr (h : ∀ {n}, Placeable n.kind → g'.entity n = g.entity n) (cs : List Key) :
    Ownership.ordered g' e cs = Ownership.ordered g e cs := by
  have hkey : Ownership.orderKey? g' e = Ownership.orderKey? g e := by
    cases e with
    | params =>
      refine congrArg some (funext fun c => ?_)
      have hsame : g'.get (⟨c⟩ : ParamId) = g.get ⟨c⟩ :=
        LazySlot.get_of_entity (h ⟨.params, .inl rfl⟩)
      rw [hsame]
    | genericParams =>
      refine congrArg some (funext fun c => ?_)
      have hsame : g'.get (⟨c⟩ : GenericParamId) = g.get ⟨c⟩ :=
        LazySlot.get_of_entity (h ⟨.genericParams, .inl rfl⟩)
      rw [hsame]
    | _ => rfl
  rw [Ownership.ordered, Ownership.ordered, hkey]

/-- Candidates are told by the stores and by the container. -/
theorem candidates_congr (hl : ∀ l, g'.loader? l = g.loader? l)
    (h : ∀ {n}, Placeable n.kind → g'.entity n = g.entity n) (ho : o.kind ∈ e.ownerKinds) :
    g'.candidates e o = g.candidates e o := by
  have horigin : g'.origin o = g.origin o :=
    congrArg (fun x => (Entity.origin? x).getD .inMemory) (h ⟨e, .inr ho⟩)
  have hreader : g'.reader? (g.origin o) = g.reader? (g.origin o) := by
    unfold reader?
    simp only [hl]
  rw [candidates, candidates, horigin, hreader]
  simp only [store?_congr hl, ordered_congr h]

/-! ## Graphs that are read without a change -/

/-- A child that its container takes over as it is. -/
def Stays (g : Graph) (e : Edge) (o : Node) (c : Key) : Prop :=
  g.noted e c = some o ∧ ∀ e', e.rival? = some e' → g.container e' c = none

/-- **Nothing is moved by reading a list**: what an unread one is populated from stays. -/
structure Tidy (g : Graph) : Prop where
  rows : ∀ {e : Edge} {l p : Nat}, e ≠ .assemblyModules →
    g.entities.contains ⟨e.childKind, .row l p⟩ → g.hasRow ⟨e.childKind, .row l p⟩
  stays : ∀ {e : Edge} {o : Node} {c : Key}, o.kind ∈ e.ownerKinds →
    g.lists.get? (e, o) = none → c ∈ g.candidates e o → g.Stays e o c
  names : ∀ {e : Edge} {c : Key} {o : Node}, g.noted e c = some o →
    o.kind ∈ e.ownerKinds ∧ g.alive o

/-- **The graph in which nothing has moved**: lists may have been read, and what neither contains
nor is contained may have been filled. -/
structure Still (g g' : Graph) : Prop where
  loader : ∀ l, g'.loader? l = g.loader? l
  entity : ∀ {n}, Placeable n.kind → g'.entity n = g.entity n
  present : ∀ {n}, Placeable n.kind → g'.present n = g.present n
  noted : ∀ e c, g'.noted e c = g.noted e c
  lists : ∀ {key cs}, g.lists.get? key = some cs → g'.lists.get? key = some cs
  listing : ∀ {e o}, o.kind ∈ e.ownerKinds → g'.listing e o = g.listing e o

namespace Still

instance : IsPreorder Graph Still where
  refl _ := ⟨fun _ => rfl, fun _ => rfl, fun _ => rfl, fun _ _ => rfl, id, fun _ => rfl⟩
  trans _ _ _ h k := ⟨fun l => (k.loader l).trans (h.loader l),
    fun hn => (k.entity hn).trans (h.entity hn), fun hn => (k.present hn).trans (h.present hn),
    fun e c => (k.noted e c).trans (h.noted e c), fun hl => k.lists (h.lists hl),
    fun ho => (k.listing ho).trans (h.listing ho)⟩

theorem of_asked {children : Node → Prop} (h : g.Asked children g') : g.Still g' where
  loader := h.loader
  entity _ := h.entity _
  present _ := h.present _
  noted := h.noted
  lists hl := h.lists ▸ hl
  listing {e o} ho := by
    rw [Graph.listing, Graph.listing, h.lists, candidates_congr h.loader (fun _ => h.entity _) ho]

/-- A list is written down as it would be populated. -/
theorem of_setList {cs : List Key} (h : g.lists.get? (e, o) = none)
    (hcs : o.kind ∈ e.ownerKinds → cs = g.candidates e o) : g.Still (g.setList e o cs) where
  loader _ := rfl
  entity _ := rfl
  present _ := rfl
  noted e' c' := noted_setList g e e' o c' cs
  lists {key xs} hl := by
    have hne : (e, o) ≠ key := by
      rintro rfl
      cases h.symm.trans hl
    exact (Index.get?_set_other _ _ hne).trans hl
  listing {e' o'} ho := by
    by_cases heq : (e, o) = (e', o')
    · obtain ⟨rfl, rfl⟩ := Prod.mk.inj heq
      rw [listing_unread h, listing_held (Index.get?_set_same _ _ _), hcs ho]
    · have hlist : (g.setList e o cs).lists.get? (e', o') = g.lists.get? (e', o') :=
        Index.get?_set_other _ _ heq
      rw [Graph.listing, Graph.listing, hlist]
      rfl

theorem alive (h : g.Still g') {n : Node} (hn : Placeable n.kind) : g'.alive n = g.alive n := by
  rw [alive_eq_present, alive_eq_present, h.present hn]
  simp only [h.loader]

/-- Every child has the container that it had. -/
theorem container (h : g.Still g') (ht : g.Tidy) (e : Edge) (c : Key) :
    g'.container e c = g.container e c := by
  rw [container_eq, container_eq, h.noted]
  cases hc : g.noted e c with
  | none => rfl
  | some o => rw [Option.filter_some, Option.filter_some, h.alive ⟨e, .inr (ht.names hc).1⟩]

theorem stays (h : g.Still g') (ht : g.Tidy) (hc : g.Stays e o c) : g'.Stays e o c :=
  ⟨(h.noted e c).trans hc.1, fun e' hrival => (h.container ht e' c).trans (hc.2 e' hrival)⟩

theorem tidy (h : g.Still g') (ht : g.Tidy) : g'.Tidy where
  rows {e l p} he hc := by
    rw [hasRow_congr h.loader]
    have hpresent := (h.present ⟨e, .inl rfl⟩).symm.trans (contains_present hc)
    rcases Bool.or_eq_true _ _ ▸ hpresent with hmade | hrow
    · exact ht.rows he hmade
    · exact hrow
  stays {e o c} ho hl hc := by
    have hunread : g.lists.get? (e, o) = none := by
      cases hg : g.lists.get? (e, o) with
      | none => rfl
      | some cs => cases hl.symm.trans (h.lists hg)
    rw [candidates_congr h.loader h.entity ho] at hc
    exact h.stays ht (ht.stays ho hunread hc)
  names {e c o} ho := by
    obtain ⟨hkind, halive⟩ := ht.names ((h.noted e c).symm.trans ho)
    exact ⟨hkind, (h.alive ⟨e, .inr hkind⟩).trans halive⟩

end Still

/-! ## Taking over what stays -/

theorem Stays.free (h : g.Stays e o c) : ((Ownership.free e o c).run g).1 = true := by
  refine free_noted.mpr ⟨fun e' hrival => ?_, fun o' ho _ => ?_⟩
  · rw [← container_eq]
    exact h.2 e' hrival
  · exact Option.some.inj (ho.symm.trans h.1)

theorem Asked.stays_iff {children : Node → Prop} (h : g.Asked children g') :
    g'.Stays e o c ↔ g.Stays e o c := by
  have hcontainer : ∀ e', g'.container e' c = g.container e' c := fun e' => by
    rw [container_eq, container_eq, h.noted, show g'.alive = g.alive from funext h.alive]
  rw [Stays, Stays, h.noted]
  simp only [hcontainer]

/-- What is recorded already is written once more. -/
theorem Asked.of_recorded {children : Node → Prop} {v : Option Node}
    (h : g.owners.get? (e, c) = some v) : g.Asked children (g.setOwner e c v) := by
  have hsame : ∀ {e' c'}, (g.setOwner e c v).owners.get? (e', c') = g.owners.get? (e', c') := by
    intro e' c'
    rw [owners_setOwner]
    split
    · next heq =>
      obtain ⟨rfl, rfl⟩ := Prod.mk.inj heq
      exact h.symm
    · rfl
  refine ⟨⟨fun _ => rfl, fun _ _ _ => rfl⟩, fun _ => rfl, id, contains_present, rfl, rfl,
    fun hv => hsame.trans hv, fun _ => hsame, fun e' c' => ?_, fun ho => .inl (hsame.symm.trans ho)⟩
  rw [noted_setOwner]
  split
  · next heq =>
    obtain ⟨rfl, rfl⟩ := Prod.mk.inj heq
    exact (noted_of_recorded h).symm
  · rfl

/-- A child that is found free has been asked for its container. -/
theorem free_recorded (h : ((Ownership.free e o c).run g).1 = true) :
    ((Ownership.free e o c).run g).2.owners.get? (e, c) = some (g.noted e c) := by
  have hasked := keepsAsked_claimed e c g
  rw [free_eq] at h ⊢
  dsimp only at h ⊢
  cases hclaimed : ((Ownership.claimed e c).run g).1 with
  | true =>
    rw [hclaimed, if_pos rfl] at h
    cases h
  | false =>
    rw [if_neg Bool.false_ne_true, (owner_run _ e c).2.2, hasked.noted]

/-- A child that is found free and noted in the container is taken over as it is. -/
theorem takeOver_stays (hf : ((Ownership.free e o c).run g).1 = true) (ho : g.noted e c = some o) :
    ∃ g', (Ownership.takeOver e l o c).run g = (some c, g') ∧ g.Asked (· = ⟨e.childKind, c⟩) g' := by
  refine ⟨_, takeOver_free hf, (keepsAsked_free e o c g).trans (.of_recorded ?_)⟩
  rw [free_recorded hf, ho]

/-- **Children that stay are taken over as they are.** -/
theorem adopt_stays : ∀ (cs : List Key) {g : Graph}, (∀ c ∈ cs, g.Stays e o c) →
    ∃ g', (Ownership.adopt e l o cs).run g = (cs, g') ∧
      g.Asked (fun n => ∃ c ∈ cs, n = ⟨e.childKind, c⟩) g'
  | [], g, _ => ⟨g, rfl, Asked.refl g⟩
  | c :: cs, g, h => by
    have hc := h c List.mem_cons_self
    obtain ⟨g₁, hfirst, hasked⟩ := takeOver_stays (l := l) hc.free hc.1
    obtain ⟨g₂, hrest, hasked'⟩ := adopt_stays cs fun x hx =>
      hasked.stays_iff.mpr (h x (List.mem_cons_of_mem _ hx))
    refine ⟨g₂, ?_, (hasked.mono ?_).trans (hasked'.mono ?_)⟩
    · rw [adopt_cons, hfirst]
      dsimp only
      rw [hrest]
      rfl
    · rintro _ rfl
      exact ⟨c, List.mem_cons_self, rfl⟩
    · rintro _ ⟨x, hx, rfl⟩
      exact ⟨x, List.mem_cons_of_mem _ hx, rfl⟩

/-- The next number is noted in no container. -/
theorem WellMade.noted_fresh (h : g.WellMade) (e : Edge) : g.noted e (.built g.built) = none := by
  have hunmade : ¬g.entities.contains ⟨e.childKind, .built g.built⟩ := fun hc =>
    absurd (h.numbered hc) (Nat.lt_irrefl _)
  have howner : g.owners.get? (e, .built g.built) = none := by
    cases hv : g.owners.get? (e, .built g.built) with
    | none => rfl
    | some v => exact absurd (h.owner hv) hunmade
  have hnone : g.entities.get? ⟨e.childKind, .built g.built⟩ = none :=
    Option.not_isSome_iff_eq_none.mp hunmade
  have hblank : ∀ {k : Kind} {ρ : Type} [Recorded k ρ], e.childKind = k →
      g.get (⟨.built g.built⟩ : Id k) = Recorded.blank k := by
    rintro k ρ _ rfl
    unfold get
    rw [show (⟨.built g.built⟩ : Id e.childKind).node = ⟨e.childKind, .built g.built⟩ from rfl, hnone]
    rfl
  have horigin : g.origin ⟨e.childKind, .built g.built⟩ = .inMemory := by
    cases e with
    | moduleTypes | nestedTypes => exact congrArg TypeDef.origin (hblank (k := .typeDef) rfl)
    | fields => exact congrArg Field.origin (hblank (k := .field) rfl)
    | methods => exact congrArg MethodDef.origin (hblank (k := .methodDef) rfl)
    | properties => exact congrArg Property.origin (hblank (k := .property) rfl)
    | events => exact congrArg Event.origin (hblank (k := .event) rfl)
    | params => exact congrArg Param.origin (hblank (k := .param) rfl)
    | genericParams => exact congrArg GenericParam.origin (hblank (k := .genericParam) rfl)
    | assemblyModules => exact congrArg Module.origin (hblank (k := .module) rfl)
  rw [noted, howner, stored, horigin]
  rfl

/-- Where all that has been taken over for a container is noted in it, it has stayed. -/
theorem stays_of_adopted (he : e ≠ .assemblyModules) : ∀ (cs : List Key) {g : Graph}, g.WellMade →
    g.Numbered → (∀ c ∈ cs, g.entities.contains ⟨e.childKind, c⟩ ∧ ∃ p, c = .row l p) →
    (∀ x ∈ ((Ownership.adopt e l o cs).run g).1, g.noted e x = some o) → ∀ c ∈ cs, g.Stays e o c
  | [], _, _, _, _, _, _, hc => absurd hc List.not_mem_nil
  | c :: cs, g, hw, hn, hcs, hall, x, hx => by
    obtain ⟨hmade, p, rfl⟩ := hcs c List.mem_cons_self
    rw [adopt_cons] at hall
    dsimp only at hall
    cases hf : ((Ownership.free e o (.row l p)).run g).1 with
    | false =>
      -- a private copy would have a number that is noted nowhere
      obtain ⟨_, _, _, r, -, -, hcopy⟩ := takeOver_copy (o := o) hw hn he hmade hf
      rw [hcopy, (keepsAsked_free e o (.row l p) g).built] at hall
      have hfresh := hall (.built g.built) List.mem_cons_self
      rw [hw.noted_fresh e] at hfresh
      cases hfresh
    | true =>
      have hnoted : g.noted e (.row l p) = some o := by
        refine hall _ ?_
        rw [takeOver_free hf]
        exact List.mem_cons_self
      obtain ⟨g₁, hfirst, hasked⟩ := takeOver_stays (l := l) hf hnoted
      rcases List.mem_cons.mp hx with rfl | hx
      · refine ⟨hnoted, fun e' hrival => ?_⟩
        rw [container_eq]
        exact (free_noted.mp hf).1 e' hrival
      · rw [hfirst] at hall
        refine hasked.stays_iff.mp (stays_of_adopted he cs
          (hw.asked hn hasked (by rintro _ rfl; exact hmade)) (hn.congr hasked.loader) ?_ ?_ x hx)
        · intro c hc
          obtain ⟨hmade', hrow⟩ := hcs c (List.mem_cons_of_mem _ hc)
          exact ⟨hasked.contains hmade', hrow⟩
        · intro y hy
          rw [hasked.noted]
          exact hall y (List.mem_cons_of_mem _ hy)

/-! ## Reading lists -/

/-- Taking children over writes no list down. -/
theorem storedItems_lists (e : Edge) (o : Node) (l rid : Nat) (g : Graph) :
    ((Ownership.storedItems e o l rid).run g).2.lists = g.lists := by
  let R : Graph → Graph → Prop := fun g g' => g'.lists = g.lists
  have hpreorder : IsPreorder Graph R := { refl := fun _ => rfl, trans := fun _ _ _ h k => k.trans h }
  have hsteps : TakesOver e o R := ⟨fun h => h.lists, fun _ _ => rfl, fun _ _ => rfl⟩
  exact hsteps.storedItems rid g

/-- An unread list is populated by taking over what the store lists for the container. -/
theorem items_unread (hrows : ∀ {l p}, e ≠ .assemblyModules →
      g.entities.contains ⟨e.childKind, .row l p⟩ → g.hasRow ⟨e.childKind, .row l p⟩)
    (hl : g.lists.get? (e, o) = none) :
    ∃ (g₁ : Graph) (l : Nat), g.Asked (fun _ => False) g₁ ∧
      (∀ c ∈ g.candidates e o, e ≠ .assemblyModules ∧ g₁.entities.contains ⟨e.childKind, c⟩ ∧
        ∃ p, c = .row l p) ∧
      (Ownership.items e o).run g =
        (((Ownership.adopt e l o (g.candidates e o)).run g₁).1,
          ((Ownership.adopt e l o (g.candidates e o)).run g₁).2.setList e o
            ((Ownership.adopt e l o (g.candidates e o)).run g₁).1) := by
  cases hreader : g.reader? (g.origin o) with
  | none =>
    refine ⟨g, 0, Asked.refl g, ?_, ?_⟩
    · rw [candidates, hreader]
      exact fun _ hc => absurd hc List.not_mem_nil
    · rw [candidates, hreader]
      exact items_memory hl hreader
  | some row =>
    obtain ⟨l, rid⟩ := row
    obtain ⟨-, s, hs⟩ := reader?_some hreader
    have hrun := items_row hl hreader (by rw [storedItems_lists]; exact hl)
    by_cases he : e = .assemblyModules
    · obtain ⟨g₁, hasked, hstored⟩ := storedItems_assembly (l := l) o rid g
      subst he
      have hnone : g.candidates .assemblyModules o = [] := by
        rw [candidates, hreader]
        rfl
      refine ⟨g₁, l, hasked, ?_, ?_⟩
      · rw [hnone]
        exact fun _ hc => absurd hc List.not_mem_nil
      · rw [hrun, hstored, hnone]
        rfl
    · obtain ⟨g₁, hasked, hmade, hstored⟩ :=
        storedItems_run he o rid hs (present_row hs fun _ => hrows he)
      have hcandidates : g.candidates e o =
          Ownership.ordered g₁ e ((s.listedRows e o.kind rid).map (.row l)) := by
        rw [candidates, hreader, ordered_congr fun _ => hasked.entity _]
        dsimp only
        rw [if_neg he, hs]
      rw [hcandidates]
      refine ⟨g₁, l, hasked, fun c hc => ⟨he, ?_⟩, by rw [hrun, hstored]⟩
      obtain ⟨p, hp, rfl⟩ := List.mem_map.mp ((ordered_perm _ _ _).mem_iff.mp hc)
      exact ⟨hmade p hp, p, rfl⟩

/-- **Reading a list of a tidy graph moves nothing.** -/
theorem Tidy.items_run (h : g.Tidy) (ho : o.kind ∈ e.ownerKinds) :
    ∃ g', (Ownership.items e o).run g = (g.listing e o, g') ∧ g.Still g' := by
  cases hl : g.lists.get? (e, o) with
  | some cs =>
    rw [items_held hl, listing_held hl]
    exact ⟨g, rfl, refl_of Still g⟩
  | none =>
    obtain ⟨g₁, l, hasked, -, hrun⟩ := items_unread h.rows hl
    obtain ⟨g₂, hadopt, hasked'⟩ := adopt_stays (l := l) (g.candidates e o) fun c hc =>
      hasked.stays_iff.mpr (h.stays ho hl hc)
    rw [hrun, hadopt, listing_unread hl]
    have hread := (hasked.mono (fun _ => False.elim)).trans hasked'
    refine ⟨_, rfl, trans_of Still (.of_asked hread) (.of_setList (hread.lists ▸ hl) fun _ => ?_)⟩
    exact (candidates_congr hread.loader (fun _ => hread.entity _) ho).symm

/-- A list of a tidy graph reads as it is held or as it will be populated. -/
theorem Tidy.contents_eq (h : g.Tidy) (ho : o.kind ∈ e.ownerKinds) :
    g.contents e o = g.listing e o := by
  obtain ⟨g', hrun, -⟩ := h.items_run ho
  exact congrArg Prod.fst hrun

/-- Every container contains what it did, in the same order. -/
theorem Still.contents (h : g.Still g') (ht : g.Tidy) (ho : o.kind ∈ e.ownerKinds) :
    g'.contents e o = g.contents e o := by
  rw [(h.tidy ht).contents_eq ho, ht.contents_eq ho, h.listing ho]

/-- **Where the two sides agree, nothing is moved by reading.** -/
theorem Agreeing.tidy (h : g.Agreeing) : g.Tidy where
  rows he hc := (h.wellMade.row he hc).1
  names := h.names
  stays {e o c} ho hl hc := by
    obtain ⟨g₁, l, hasked, hcs, hrun⟩ := items_unread (fun he hc => (h.wellMade.row he hc).1) hl
    have hw₁ : g₁.WellMade := h.wellMade.asked h.numbered hasked (by rintro _ ⟨⟩)
    refine hasked.stays_iff.mp (stays_of_adopted (l := l) (hcs c hc).1 (g.candidates e o) hw₁
      (h.numbered.congr hasked.loader) (fun x hx => (hcs x hx).2) ?_ c hc)
    intro x hx
    have hplaced : x ∈ g.contents e o := by
      rw [Graph.contents, hrun]
      exact hx
    rw [hasked.noted]
    exact noted_of_container (h.placed ho hplaced)

/-! ## In memory -/

/-- The two sides agree whatever has been done to entities that were made in memory. -/
theorem Reaches.agreeing (h : Graph.empty.Reaches g) : g.Agreeing := by
  have hsound := (h.kept empty_sound).sound
  have hmutual := h.mutual
  have hcontents : ∀ e o, g.contents e o = g.held e o := fun e o =>
    (items_storeless hmutual.storeless e o).1
  have hcontainer : ∀ e c, g.container e c = g.noted e c := hsound.owned.owner_value
  have hnoted : ∀ {e c o}, g.noted e c = some o ↔ g.owners.get? (e, c) = some (some o) :=
    noted_storeless hmutual.storeless
  refine ⟨hsound.wellMade, hsound.numbered, fun {e o c} _ hc => ?_, fun {e o c} _ hc => ?_,
    fun {e o} _ => ?_, fun t => ?_, fun {e c o} ho => ?_⟩
  · rw [hcontents] at hc
    rw [hcontainer, hnoted]
    exact hsound.owned.listed hc
  · rw [hcontainer, hnoted] at hc
    rw [hcontents]
    exact hmutual.listed hc
  · rw [hcontents]
    exact hsound.owned.nodup e o
  · rw [hcontainer, hcontainer]
    cases hm : g.noted .moduleTypes t with
    | none => exact .inl rfl
    | some m => exact .inr (hsound.owned.apart (e := .moduleTypes) rfl (hmutual.listed (hnoted.mp hm)))
  · have hplace := hsound.owned.container (hnoted.mp ho)
    exact ⟨hplace.kind, alive_of_contains hplace.made⟩

end Graph
end CliMetadata
