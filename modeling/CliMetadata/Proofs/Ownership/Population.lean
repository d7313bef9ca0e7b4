import CliMetadata.Proofs.Ownership.Links
import CliMetadata.Proofs.Ownership.Stored

/-!
# Lists populated from links

A row that is linked under several owners is one entity in the list of the first and a
private copy in the lists of the others, whatever is read first: its lists, those of the
other owners, or its own back-reference.

**The invariant** (`Graph.Placed`) is that the entity of a row reads as being in the
container that the store names first, whether or not that has been recorded yet, and
that a type linked as nested reads as in no module.  A row is taken over for a container
only if it is found free, and so for its first owner; every other container gets a copy
under a new number, of which the invariant says nothing.

`Graph.Entry` says what a list holds for a row, `Graph.Populated` what a whole list
comes to, and both stay true in later graphs.
-/

namespace CliMetadata

open CliMetadata.Graph Loading Stateful

variable {g g' : Graph} {s : Store} {e : Edge} {o : Node} {c : Key} {l p q : Nat}

/-! ## Entities that are children -/

/-- Only modules, references to types and exported types are filled by reading. -/
theorem Entity.Le.eq_or {x y : Entity} (h : x.Le y) :
    y = x ∨ (∃ m, x = .module m) ∨ (∃ r, x = .typeRef r) ∨ ∃ t, x = .exportedType t := by
  cases h with
  | same => exact Or.inl rfl
  | module => exact Or.inr (Or.inl ⟨_, rfl⟩)
  | typeRef => exact Or.inr (Or.inr (Or.inl ⟨_, rfl⟩))
  | exportedType => exact Or.inr (Or.inr (Or.inr ⟨_, rfl⟩))

/-- Reading changes nothing about what may be a child. -/
theorem Graph.Later.child_entity (h : g.Later g') (he : e ≠ .assemblyModules) (hc : g.Known c) :
    g'.entity ⟨e.childKind, c⟩ = g.entity ⟨e.childKind, c⟩ := by
  rcases (h.entity (n := ⟨e.childKind, c⟩) (Or.inl hc)).eq_or with hsame | ⟨_, hm⟩ | ⟨_, hr⟩ | ⟨_, ht⟩
  · exact hsame
  · cases e <;> first | exact absurd rfl he | cases hm
  · cases e <;> cases hr
  · cases e <;> cases ht

namespace Graph

/-! ## Where rows are placed -/

/-- **A graph in which the rows of its stores read as where they belong.** -/
structure Placed (g : Graph) : Prop where
  wellMade : g.WellMade
  linked : ∀ {l : Nat} {s : Store}, g.store? l = some s → s.WellLinked
  /-- The entity of a row is as the row has it. -/
  asRow : ∀ {k : Kind} {ρ : Type} [Recorded k ρ] [Recorded.Tabled k] {l p : Nat} {r : ρ},
    ((g.store? l).bind fun s => Recorded.ofRow? k s l p) = some r →
      g.entity ⟨k, .row l p⟩ = Recorded.pack k r
  /-- The entity of a row reads as in its first owner. -/
  first : ∀ {e : Edge} {l p : Nat} {s : Store} {o : Node}, g.store? l = some s →
    (s.row? e.childKind.table p).isSome → s.firstOwner? e l p = some o →
      g.noted e (.row l p) = some o
  /-- A type that is linked as nested reads as in no module. -/
  top : ∀ {l p : Nat} {s : Store} {o : Node}, g.store? l = some s →
    (s.row? .typeDef p).isSome → s.firstOwner? .nestedTypes l p = some o →
      g.noted .moduleTypes (.row l p) = none

/-- A first owner is the row of a container, so it exists while the store is open. -/
theorem firstOwner?_alive (hs : g.store? l = some s) (ho : s.firstOwner? e l p = some o) :
    g.alive o := by
  obtain ⟨kind, q, rfl⟩ : ∃ kind q, o = ⟨kind, .row l q⟩ := by
    cases e with
    | moduleTypes | assemblyModules => cases ho
    | nestedTypes | fields | methods | properties | events | params =>
      obtain ⟨owner, -, rfl⟩ := Option.map_eq_some_iff.mp ho
      exact ⟨_, _, rfl⟩
    | genericParams =>
      obtain ⟨r, -, hcoded⟩ := Option.bind_eq_some_iff.mp ho
      unfold Store.codedOwner? at hcoded
      split at hcoded
      · cases hcoded
        exact ⟨_, _, rfl⟩
      · cases hcoded
        exact ⟨_, _, rfl⟩
      · cases hcoded
  unfold alive
  rw [Bool.or_eq_true]
  exact Or.inr (loader?_of_store? hs)

theorem firstOwner?_ofRows (ho : s.firstOwner? e l p = some o) : e.ofRows := by
  cases e <;> first | rfl | cases ho

namespace Placed

theorem numbered (h : g.Placed) : g.Numbered := fun _ _ hs => (h.linked hs).numbered

theorem row (h : g.Placed) (he : e ≠ .assemblyModules) (hs : g.store? l = some s)
    (hc : g.entities.contains ⟨e.childKind, .row l p⟩) : (s.row? e.childKind.table p).isSome := by
  have hrow : ((g.store? l).bind (·.row? e.childKind.table p)).isSome := (h.wellMade.row he hc).1
  rwa [hs] at hrow

/-- Asking changes nothing that is read of rows. -/
theorem asked (h : g.Placed) {children : Node → Prop} (ha : g.Asked children g')
    (hc : ∀ {n}, children n → g.entities.contains n) : g'.Placed where
  wellMade := h.wellMade.asked h.numbered ha hc
  linked hs := h.linked (store?_congr ha.loader _ ▸ hs)
  asRow hr := by
    rw [ha.entity]
    exact h.asRow (store?_congr ha.loader _ ▸ hr)
  first hs hp ho := by
    rw [ha.noted]
    exact h.first (store?_congr ha.loader _ ▸ hs) hp ho
  top hs hp ho := by
    rw [ha.noted]
    exact h.top (store?_congr ha.loader _ ▸ hs) hp ho

/-- A list says nothing about where its rows belong. -/
theorem setList (h : g.Placed) (e : Edge) (o : Node) (cs : List Key) : (g.setList e o cs).Placed where
  wellMade := h.wellMade.setList e o cs
  linked hs := h.linked hs
  asRow hr := h.asRow hr
  first hs hp ho := (noted_setList _ _ _ _ _ _).trans (h.first hs hp ho)
  top hs hp ho := (noted_setList _ _ _ _ _ _).trans (h.top hs hp ho)

/-- A row becomes a container's that is its first owner, if it has one, and no module's
if it is linked as nested. -/
theorem setOwner (h : g.Placed) (hc : g.entities.contains ⟨e.childKind, c⟩)
    (hfirst : ∀ {l p s o'}, c = .row l p → g.store? l = some s →
      s.firstOwner? e l p = some o' → o' = o)
    (htop : ∀ {l p s o'}, c = .row l p → g.store? l = some s → e = .moduleTypes →
      s.firstOwner? .nestedTypes l p ≠ some o') : (g.setOwner e c (some o)).Placed where
  wellMade := h.wellMade.setOwner hc _
  linked hs := h.linked hs
  asRow hr := h.asRow hr
  first {e' l p s o'} hs hp ho := by
    rw [noted_setOwner]
    split
    · next heq =>
      cases heq
      rw [hfirst rfl hs ho]
    · exact h.first hs hp ho
  top {l p s o'} hs hp ho := by
    rw [noted_setOwner]
    split
    · next heq =>
      cases heq
      exact absurd ho (htop rfl hs rfl)
    · exact h.top hs hp ho

/-- A new entity under a number is no row's. -/
theorem grow {k : Kind} {ρ : Type} [Recorded k ρ] [Recorded.Tabled k] {r : ρ} (h : g.Placed)
    (hr : ∀ l rid, (Recorded.pack k r).origin? = some (.row l rid) → (g.loader? l).isSome →
      g.hasRow ⟨k, .row l rid⟩) : (g.grow k r).Placed := by
  have hl : ∀ l, (g.grow k r).loader? l = g.loader? l :=
    loader?_put (Recorded.Rowed.ne_module (ρ := ρ)) (⟨.built g.built⟩ : Id k) r
  have hne : ∀ (k' : Kind) (l p : Nat), (⟨k', .row l p⟩ : Node) ≠ ⟨k, .built g.built⟩ := by
    rintro k' l p ⟨⟩
  refine ⟨h.wellMade.grow hl hr, fun hs => h.linked (store?_congr hl _ ▸ hs), ?_, ?_, ?_⟩
  · intro k' ρ' _ _ l p r' hr'
    have hentity : (g.grow k r).entity ⟨k', .row l p⟩ = g.entity ⟨k', .row l p⟩ :=
      entity_congr (Index.get?_set_other _ _ (hne _ l p).symm) hl
    rw [hentity]
    exact h.asRow (store?_congr hl _ ▸ hr')
  · intro e l p s o hs hp ho
    rw [noted_grow hl (hne _ l p)]
    exact h.first (store?_congr hl _ ▸ hs) hp ho
  · intro l p s o hs hp ho
    rw [noted_grow hl (hne _ l p)]
    exact h.top (store?_congr hl _ ▸ hs) hp ho

end Placed

/-! ## Taking rows over -/

/-- **What the list of a container holds for a row**: the entity of the row, where the
container is its first owner, and a private copy where another one is. -/
structure Entry (g : Graph) (s : Store) (e : Edge) (o : Node) (l p : Nat) (c : Key) : Prop where
  row : (s.row? e.childKind.table p).isSome
  known : g.Known c
  owned : g.owners.get? (e, c) = some (some o)
  columns : g.entity ⟨e.childKind, c⟩ = g.entity ⟨e.childKind, .row l p⟩
  cached : s.firstOwner? e l p = some o → c = .row l p
  copied : ∀ {o'}, s.firstOwner? e l p = some o' → o' ≠ o → ∃ n, c = .built n

theorem Entry.later (h : g.Entry s e o l p c) (k : g.Later g') (he : e ≠ .assemblyModules)
    (ho : g.alive o) : g'.Entry s e o l p c where
  row := h.row
  known := h.known.mono k.built
  owned := k.owner h.known ho h.owned
  columns := by
    have hrow : g.Known (.row l p) := trivial
    rw [k.child_entity he h.known, k.child_entity he hrow, h.columns]
  cached := h.cached
  copied := h.copied

/-- **Taking a row over**: the graph after it, and what the list holds for the row. -/
structure Takes (e : Edge) (o : Node) (s : Store) (l p : Nat) (g g' : Graph) (x : Key) : Prop where
  placed : g'.Placed
  lists : g'.lists = g.lists
  contains : ∀ {n}, g.entities.contains n → g'.entities.contains n
  made : g'.entities.contains ⟨e.childKind, x⟩
  entry : g'.Entry s e o l p x
  source : x = .row l p ∨ ¬g.entities.contains ⟨e.childKind, x⟩

section TakeOver

variable (h : g.Placed) (he : e ≠ .assemblyModules) (hs : g.store? l = some s)
  (hc : g.entities.contains ⟨e.childKind, .row l p⟩)
include h he hs hc

/-- A row is found free for its first owner alone. -/
theorem free_firstOwner {o' : Node} (ho' : s.firstOwner? e l p = some o') :
    ((Ownership.free e o (.row l p)).run g).1 = true ↔ o' = o := by
  have hrow := h.row he hs hc
  rw [free_noted, h.first hs hrow ho']
  constructor
  · rintro ⟨-, hsame⟩
    exact hsame o' rfl (firstOwner?_alive hs ho')
  · rintro rfl
    refine ⟨fun e' hrival => ?_, ?_⟩
    · -- a type that is linked as nested is in no module
      cases e with
      | nestedTypes =>
        cases hrival
        rw [h.top hs hrow ho']
        rfl
      | moduleTypes => cases ho'
      | fields | methods | properties | events | params | genericParams | assemblyModules =>
        cases hrival
    · rintro _ ⟨⟩ -
      rfl

/-- A row that is found free is taken over itself. -/
theorem takes_free (hf : ((Ownership.free e o (.row l p)).run g).1 = true) :
    Takes e o s l p g
      (((Ownership.free e o (.row l p)).run g).2.setOwner e (.row l p) (some o)) (.row l p) := by
  have ha := keepsAsked_free e o (.row l p) g
  have hasked := h.asked ha (by rintro _ rfl; exact hc)
  have hfree := free_noted.mp hf
  refine ⟨hasked.setOwner (ha.contains hc) ?_ ?_, ha.lists, ha.contains, ha.contains hc, ?_,
    Or.inl rfl⟩
  · rintro l' p' s' o' ⟨⟩ hs' ho'
    rw [store?_congr ha.loader, hs] at hs'
    cases hs'
    exact (free_firstOwner h he hs hc ho').mp hf
  · rintro l' p' s' o' ⟨⟩ hs' rfl ho'
    rw [store?_congr ha.loader, hs] at hs'
    cases hs'
    -- a row that is nested is noted in its first owner, and so is not free for a module
    have hnone := hfree.1 .nestedTypes rfl
    rw [h.first (e := .nestedTypes) hs (h.row (e := .nestedTypes) (by decide) hs hc) ho', Option.filter_some,
      if_pos (firstOwner?_alive hs ho')] at hnone
    cases hnone
  · refine ⟨h.row he hs hc, trivial, ?_, rfl, fun _ => rfl, fun {o'} ho' hne => ?_⟩
    · rw [owners_setOwner, if_pos rfl]
    · exact absurd ((free_firstOwner h he hs hc ho').mp hf) hne

/-- A row that is not found free is taken over as a private copy. -/
theorem takes_copy (hf : ((Ownership.free e o (.row l p)).run g).1 = false) :
    ∃ x, ((Ownership.takeOver e l o (.row l p)).run g).1 = some x ∧
      Takes e o s l p g ((Ownership.takeOver e l o (.row l p)).run g).2 x := by
  have ha := keepsAsked_free e o (.row l p) g
  have hasked := h.asked ha (by rintro _ rfl; exact hc)
  obtain ⟨ρ, _, _, r, hr, hof, hrun⟩ := takeOver_copy h.wellMade h.numbered he hc hf
  rw [hrun]
  generalize ((Ownership.free e o (.row l p)).run g).2 = g₁ at ha hasked
  have hgrown : (g₁.grow e.childKind r).Placed := by
    refine hasked.grow fun l' rid ho' _ => ?_
    rw [hr] at ho'
    cases ho'
    rw [hasRow_congr ha.loader]
    exact (h.wellMade.row he hc).1
  have hmade := grow_contains g₁ e.childKind r
  refine ⟨_, rfl, hgrown.setOwner hmade (by rintro _ _ _ _ ⟨⟩) (by rintro _ _ _ _ ⟨⟩), ha.lists,
    fun hn => contains_grow_of (ha.contains hn), hmade, ?_, Or.inr fun hx => ?_⟩
  · refine ⟨h.row he hs hc, Nat.lt_succ_self _, ?_, ?_, fun ho' => ?_, fun _ _ => ⟨_, rfl⟩⟩
    · rw [owners_setOwner, if_pos rfl]
    · -- both are as the row has it
      have hcopy : (g₁.grow e.childKind r).entity ⟨e.childKind, .built g₁.built⟩ =
          Recorded.pack e.childKind r := entity_put (⟨.built g₁.built⟩ : Id e.childKind) r
      have hstore : (g₁.grow e.childKind r).store? l = g.store? l :=
        store?_congr (fun l' => (loader?_put (Recorded.Rowed.ne_module (ρ := ρ)) _ r l').trans
          (ha.loader l')) l
      exact hcopy.trans (hgrown.asRow (by rw [hstore]; exact hof)).symm
    · rw [(free_firstOwner h he hs hc ho').mpr rfl] at hf
      cases hf
  · exact hasked.wellMade.ne_fresh (ha.contains hx) _ rfl

/-- **Taking a row over.** -/
theorem takes_row (o : Node) : ∃ x, ((Ownership.takeOver e l o (.row l p)).run g).1 = some x ∧
    Takes e o s l p g ((Ownership.takeOver e l o (.row l p)).run g).2 x := by
  cases hf : ((Ownership.free e o (.row l p)).run g).1 with
  | true =>
    rw [takeOver_free hf]
    exact ⟨_, rfl, takes_free h he hs hc hf⟩
  | false => exact takes_copy h he hs hc hf

end TakeOver

/-- **What taking several rows over comes to.** -/
structure Adopts (e : Edge) (o : Node) (s : Store) (l : Nat) (ps : List Nat) (g g' : Graph)
    (xs : List Key) : Prop where
  placed : g'.Placed
  lists : g'.lists = g.lists
  entries : List.Forall₂ (g'.Entry s e o l) ps xs
  source : ∀ x ∈ xs, x ∈ ps.map (Key.row l) ∨ ¬g.entities.contains ⟨e.childKind, x⟩
  nodup : ps.Nodup → xs.Nodup

/-- Rows are taken over one after another. -/
theorem adopts (he : e ≠ .assemblyModules) : ∀ (ps : List Nat) {g : Graph}, g.Placed →
    g.store? l = some s → g.alive o →
    (∀ p ∈ ps, g.entities.contains ⟨e.childKind, .row l p⟩) →
    Adopts e o s l ps g ((Ownership.adopt e l o (ps.map (.row l))).run g).2
      ((Ownership.adopt e l o (ps.map (.row l))).run g).1
  | [], _, h, _, _, _ => ⟨h, rfl, .nil, fun _ hx => absurd hx List.not_mem_nil, fun _ => .nil⟩
  | p :: ps, g, h, hs, ho, hmade => by
    obtain ⟨x, hx, hfirst⟩ := takes_row h he hs (hmade p List.mem_cons_self) o
    have hlater := (takeOver_later e l o (.row l p) g).1
    have hrest := adopts he ps hfirst.placed (by rw [store?_congr hlater.loader, hs])
      (hlater.alive ho) fun q hq => hfirst.contains (hmade q (List.mem_cons_of_mem _ hq))
    have hlater' := keeps_adopt e l o (ps.map (.row l)) ((Ownership.takeOver e l o (.row l p)).run g).2
    rw [List.map_cons, adopt_cons]
    dsimp only
    rw [hx, Option.toList_some, List.singleton_append]
    refine ⟨hrest.placed, hrest.lists.trans hfirst.lists,
      .cons (hfirst.entry.later hlater' he (hlater.alive ho)) hrest.entries, ?_, fun hps => ?_⟩
    · intro y hy
      rcases List.mem_cons.mp hy with rfl | hy
      · rcases hfirst.source with rfl | hnew
        · exact Or.inl List.mem_cons_self
        · exact Or.inr hnew
      · rcases hrest.source y hy with hmem | hnew
        · exact Or.inl (List.mem_cons_of_mem _ hmem)
        · exact Or.inr fun hc => hnew (hfirst.contains hc)
    · obtain ⟨hp, hps⟩ := List.nodup_cons.mp hps
      refine List.nodup_cons.mpr ⟨fun hmem => ?_, hrest.nodup hps⟩
      -- what comes later is one of the later rows, or newer than the first entry
      rcases hrest.source x hmem with hlisted | hnew
      · rcases hfirst.source with rfl | hnew
        · obtain ⟨q, hq, heq⟩ := List.mem_map.mp hlisted
          exact hp ((Key.row.inj heq).2 ▸ hq)
        · obtain ⟨q, hq, rfl⟩ := List.mem_map.mp hlisted
          exact hnew (hmade q (List.mem_cons_of_mem _ hq))
      · exact hnew hfirst.made

/-! ## Reading lists -/

/-- The number that a row is put in order by is the one that its entity has. -/
theorem orderKey?_row (h : g.Placed) (hs : g.store? l = some s) {key : Key → Nat}
    (hkey : Ownership.orderKey? g e = some key) (hp : (s.row? e.childKind.table p).isSome) :
    key (.row l p) = s.orderNumber e p := by
  cases e with
  | params =>
    cases hkey
    have hp' : ((Store.nth s.params p).map Row.param).isSome := by rwa [← Store.nth_map]
    rw [Option.isSome_map] at hp'
    obtain ⟨row, hrow⟩ := Option.isSome_iff_exists.mp hp'
    have hentity := h.asRow (k := .param) (l := l) (p := p)
      (r := ⟨row.rid, .row l row.rid, row.flags, row.sequence, s.string row.name, none⟩)
      (by rw [hs]; exact congrArg (Option.map _) hrow)
    have hnumber := congrArg Param.sequence (Entity.param.inj hentity)
    show (g.get (⟨.row l p⟩ : ParamId)).sequence = ((Store.nth s.params p).map (·.sequence)).getD 0
    rw [hrow]
    exact hnumber
  | genericParams =>
    cases hkey
    have hp' : ((Store.nth s.genericParams p).map Row.genericParam).isSome := by
      rwa [← Store.nth_map]
    rw [Option.isSome_map] at hp'
    obtain ⟨row, hrow⟩ := Option.isSome_iff_exists.mp hp'
    have hentity := h.asRow (k := .genericParam) (l := l) (p := p)
      (r := ⟨row.rid, .row l row.rid, row.number, row.flags, s.string row.name, none⟩)
      (by rw [hs]; exact congrArg (Option.map _) hrow)
    have hnumber := congrArg GenericParam.number (Entity.genericParam.inj hentity)
    show (g.get (⟨.row l p⟩ : GenericParamId)).number =
      ((Store.nth s.genericParams p).map (·.number)).getD 0
    rw [hrow]
    exact hnumber
  | moduleTypes | nestedTypes | fields | methods | properties | events | assemblyModules =>
    cases hkey

/-- Rows are put in the order of their numbers. -/
theorem ordered_rows (h : g.Placed) (hs : g.store? l = some s) {ps : List Nat}
    (hps : ∀ p ∈ ps, (s.row? e.childKind.table p).isSome) :
    Ownership.ordered g e (ps.map (.row l)) = (sortBy (s.orderNumber e) ps).map (.row l) := by
  unfold Ownership.ordered
  cases hkey : Ownership.orderKey? g e with
  | some key =>
    dsimp only
    rw [sortBy_map, sortBy_congr fun p hp => orderKey?_row h hs hkey (hps p hp)]
  | none =>
    have hzero : ∀ p, s.orderNumber e p = 0 := by
      intro p
      cases e <;> first | rfl | cases hkey
    rw [(sortBy_stablySorted (s.orderNumber e) ps).eq_of_key hzero]

/-- **A list populated from links**: it has one entry for each row that is linked to the
container, in the order of the links, or of the numbers where the rows have them. -/
structure Populated (g : Graph) (s : Store) (e : Edge) (o : Node) (l q : Nat) (cs : List Key) :
    Prop where
  entries : ∃ ps, StablySorted (s.orderNumber e) (s.linkedRows e (Token.ofParts o.kind.table q)) ps ∧
    List.Forall₂ (g.Entry s e o l) ps cs
  nodup : cs.Nodup

theorem Populated.later {cs : List Key} (h : g.Populated s e o l q cs) (k : g.Later g')
    (he : e ≠ .assemblyModules) (ho : g.alive o) : g'.Populated s e o l q cs where
  entries := by
    obtain ⟨ps, hsorted, hentries⟩ := h.entries
    exact ⟨ps, hsorted, hentries.imp fun _ _ hentry => hentry.later k he ho⟩
  nodup := h.nodup

/-- **What the first read of a list comes to.** -/
structure ReadsList (e : Edge) (o : Node) (g g' : Graph) (cs : List Key) : Prop where
  placed : g'.Placed
  list : g'.lists.get? (e, o) = some cs
  others : ∀ {e' o'}, (e, o) ≠ (e', o') → g'.lists.get? (e', o') = g.lists.get? (e', o')
  populated : ∀ {l q : Nat} {s : Store}, e.ofRows → g.origin o = .row l q → g.store? l = some s →
    g'.Populated s e o l q cs

/-- A list is read from the links of its container. -/
theorem readsList_stored (h : g.Placed) (he : e ≠ .assemblyModules) (ho : g.alive o)
    (hl : g.lists.get? (e, o) = none) (horigin : g.origin o = .row l q)
    (hs : g.store? l = some s) :
    ReadsList e o g ((Ownership.items e o).run g).2 ((Ownership.items e o).run g).1 := by
  obtain ⟨g₁, ha, hmade, hrun⟩ := storedItems_run he o q hs (h.wellMade.present_row he hs)
  have hasked := h.asked ha (by rintro _ ⟨⟩)
  have hs₁ : g₁.store? l = some s := by rw [store?_congr ha.loader, hs]
  let ps := sortBy (s.orderNumber e) (s.listedRows e o.kind q)
  have hmem : ∀ {p}, p ∈ ps → p ∈ s.listedRows e o.kind q := (sortBy_perm _ _).mem_iff.mp
  have hrow : ∀ p ∈ s.listedRows e o.kind q, (s.row? e.childKind.table p).isSome :=
    fun p hp => (List.mem_filter.mp hp).2
  rw [ordered_rows hasked hs₁ hrow] at hrun
  have hadopts := adopts he ps hasked hs₁ (ha.alive o ▸ ho) fun p hp => hmade p (hmem hp)
  rw [← hrun] at hadopts
  have hreader : g.reader? (g.origin o) = some (l, q) := by
    rw [horigin]
    exact if_pos (loader?_of_store? hs)
  rw [items_row hl hreader (by rw [hadopts.lists, ha.lists, hl])]
  refine ⟨hadopts.placed.setList _ _ _, Index.get?_set_same _ _ _, fun hne => ?_, ?_⟩
  · refine (Index.get?_set_other _ _ hne).trans ?_
    rw [hadopts.lists, ha.lists]
  · intro l' q' s' hrows horigin' hs'
    cases horigin.symm.trans horigin'
    cases hs.symm.trans hs'
    have hlinked := h.linked hs
    refine ⟨⟨ps, ?_, hadopts.entries.imp fun _ _ hentry => ?_⟩, hadopts.nodup ?_⟩
    · rw [← hlinked.listedRows_eq hrows]
      exact sortBy_stablySorted _ _
    · exact ⟨hentry.row, hentry.known, hentry.owned, hentry.columns, hentry.cached, hentry.copied⟩
    · rw [(sortBy_perm _ _).nodup_iff]
      exact hlinked.listedRows_nodup hrows o.kind q

/-- **The first read of a list**, whatever its container is. -/
theorem readsList (h : g.Placed) (ho : g.alive o) (hl : g.lists.get? (e, o) = none) :
    ReadsList e o g ((Ownership.items e o).run g).2 ((Ownership.items e o).run g).1 := by
  cases hreader : g.reader? (g.origin o) with
  | none =>
    rw [items_memory hl hreader]
    refine ⟨h.setList _ _ _, Index.get?_set_same _ _ _, Index.get?_set_other _ _, ?_⟩
    intro l q s _ horigin hs
    have hopen : g.reader? (.row l q) = some (l, q) := if_pos (loader?_of_store? hs)
    rw [horigin, hopen] at hreader
    cases hreader
  | some row =>
    obtain ⟨l, q⟩ := row
    obtain ⟨horigin, s, hs⟩ := reader?_some hreader
    by_cases he : e = .assemblyModules
    · subst he
      obtain ⟨g₁, ha, hrun⟩ := storedItems_assembly (l := l) o q g
      rw [items_row hl hreader (by rw [hrun, ha.lists, hl]), hrun]
      refine ⟨(h.asked ha (by rintro _ ⟨⟩)).setList _ _ _, Index.get?_set_same _ _ _, fun hne => ?_,
        by rintro _ _ _ ⟨⟩⟩
      exact (Index.get?_set_other _ _ hne).trans (by rw [ha.lists])
    · exact readsList_stored h he ho hl horigin hs

end Graph
end CliMetadata
