import CliMetadata.Proofs.Ownership.Invariant
import CliMetadata.Proofs.Ownership.Reading
import Mathlib.Data.List.Nodup

/-!
# Reading lists

The first read of a list asks the store for the rows that it lists for the container,
makes their entities, and takes each over (`Ownership.takeOver`): itself where it is
free, else as a private copy.  `Graph.Took` says what taking over some children comes
to: which back-references it has written, and that everything else reads as before.
It is shown for one child and, by induction, for a list of them.

**A list is read well from a store that is unambiguous** (`Store.Unambiguous`).  Two
things can go wrong.  A row that is listed twice for its container is taken over
twice.  And a private copy of a type whose row has a container of the other sort
reads that container as its own beside the one that copied it.
-/

namespace CliMetadata

open CliMetadata.Graph Loading Stateful

/-! ## What a store lists -/

namespace Store

variable (s : Store)

/-- The rows that exist among those that a store lists for a container. -/
def listedRows (e : Edge) (kind : Kind) (rid : Nat) : List Nat :=
  let owner := if e = .moduleTypes then moduleToken else Token.ofParts kind.table rid
  let rids := s.children (Ownership.relation e) owner
  (if e = .nestedTypes then rids.filter (· != rid) else rids).filter
    fun p => (s.row? e.childKind.table p).isSome

/-- Whether a store names a module, or a type that exists, as the container of a type. -/
def contains (e : Edge) (rid : Nat) : Bool :=
  let child := Token.ofParts .typeDef rid
  match e with
  | .moduleTypes => s.parent? .typeDefs child = some moduleToken
  | .nestedTypes => (s.parent? .nestedTypes child).any fun owner =>
      owner.tableId? = some .typeDef && (s.row? .typeDef owner.row.val).isSome
  | _ => false

/-- A module, or a row that exists. -/
def HasContainer (kind : Kind) (rid : Nat) : Prop :=
  kind = .module ∨ (s.row? kind.table rid).isSome

/-- **A store that lists are read well from.** -/
structure Unambiguous : Prop where
  /-- No row is listed twice for its container. -/
  once : ∀ {e : Edge} {kind : Kind} {rid : Nat}, e ≠ .assemblyModules → kind ∈ e.ownerKinds →
    s.HasContainer kind rid → (s.listedRows e kind rid).Nodup
  /-- A type listed for a container of one sort has none of the other. -/
  apart : ∀ {e e' : Edge} {kind : Kind} {rid p : Nat}, e.rival? = some e' → kind ∈ e.ownerKinds →
    s.HasContainer kind rid → p ∈ s.listedRows e kind rid → s.contains e' p = false

end Store

namespace Graph

variable {g g' : Graph}

/-- A row is there exactly where its store has it, if no entity goes by a row that there is not. -/
theorem present_row {e : Edge} {l : Nat} {s : Store} (hs : g.store? l = some s)
    (hrows : ∀ p, g.entities.contains ⟨e.childKind, .row l p⟩ → g.hasRow ⟨e.childKind, .row l p⟩)
    (p : Nat) : g.present ⟨e.childKind, .row l p⟩ = (s.row? e.childKind.table p).isSome := by
  have hrow : g.hasRow ⟨e.childKind, .row l p⟩ = (s.row? e.childKind.table p).isSome := by
    show ((g.store? l).bind _).isSome = _
    rw [hs]
    rfl
  unfold present
  cases hc : g.entities.contains ⟨e.childKind, .row l p⟩ with
  | false => rw [Bool.false_or, hrow]
  | true => rw [Bool.true_or, ← hrow, hrows p hc]

theorem WellMade.present_row (hw : g.WellMade) {e : Edge} (he : e ≠ .assemblyModules) {l : Nat}
    {s : Store} (hs : g.store? l = some s) (p : Nat) :
    g.present ⟨e.childKind, .row l p⟩ = (s.row? e.childKind.table p).isSome :=
  Graph.present_row hs (fun _ hc => (hw.row he hc).1) p

theorem loader?_of_store? {l : Nat} {s : Store} (hs : g.store? l = some s) :
    (g.loader? l).isSome := by
  cases hl : g.loader? l with
  | none =>
    rw [store?, hl] at hs
    cases hs
  | some _ => rfl

/-- What is read of the container of a type is what the store names. -/
theorem stored_isSome (hw : g.WellMade) {e : Edge} {c : Key} {l p : Nat} {s : Store}
    (ho : g.origin ⟨.typeDef, c⟩ = .row l p) (hs : g.store? l = some s)
    (he : e = .moduleTypes ∨ e = .nestedTypes) : (g.stored e c).isSome = s.contains e p := by
  have hkind : e.childKind = .typeDef := by rcases he with rfl | rfl <;> rfl
  have hreader : g.reader? (.row l p) = some (l, p) := if_pos (loader?_of_store? hs)
  have hstored : g.stored e c = ((Ownership.storedOwner e l p).run g).1 := by
    unfold stored fromStore
    rw [run_get_bind, hkind, ho, hreader]
  rw [hstored]
  rcases he with rfl | rfl
  · have hvalue : ((Ownership.storedOwner .moduleTypes l p).run g).1 =
        if s.parent? .typeDefs (Token.ofParts .typeDef p) = some Store.moduleToken
        then some ⟨.module, .built l⟩ else none := by
      show (if (g.store? l).bind _ = _ then _ else _) = _
      simp only [hs]
      rfl
    show _ = decide (s.parent? .typeDefs (Token.ofParts .typeDef p) = some Store.moduleToken)
    rw [hvalue]
    split
    · next h => rw [decide_eq_true h]; rfl
    · next h => rw [decide_eq_false h]; rfl
  · show _ = (s.parent? .nestedTypes (Token.ofParts .typeDef p)).any fun owner =>
      owner.tableId? = some .typeDef && (s.row? .typeDef owner.row.val).isSome
    have hpresent : ∀ q, g.present ⟨.typeDef, .row l q⟩ = (s.row? .typeDef q).isSome :=
      hw.present_row (e := .nestedTypes) (by decide) hs
    unfold Ownership.storedOwner
    simp only [run_bind, parent?_run, hs, Option.bind_some]
    have htoken : s.parent? (Ownership.relation .nestedTypes)
        (Token.ofParts Edge.nestedTypes.childKind.table p) =
          s.parent? .nestedTypes (Token.ofParts .typeDef p) := rfl
    rw [htoken]
    generalize s.parent? .nestedTypes (Token.ofParts .typeDef p) = owner
    cases owner with
    | none => rfl
    | some owner =>
      rw [Option.any_some]
      dsimp only
      by_cases ht : owner.tableId? = some .typeDef
      · rw [if_pos ht, run_bind, shared_value, hpresent, decide_eq_true ht, Bool.true_and]
        cases (s.row? .typeDef owner.row.val).isSome <;> rfl
      · rw [if_neg ht, decide_eq_false ht, Bool.false_and]
        rfl

/-! ## Taking children over -/

/-- A child that a container may take over, by what is noted of it. -/
def Free (g : Graph) (e : Edge) (o : Node) (c : Key) : Prop :=
  (∀ e', e.rival? = some e' → g.noted e' c = none) ∧ ∀ o', g.noted e c = some o' → o' = o

theorem Free.asked {children : Node → Prop} {e : Edge} {o : Node} {c : Key} (h : g.Free e o c)
    (ha : g.Asked children g') : g'.Free e o c := by
  constructor
  · intro e' he
    rw [ha.noted]
    exact h.1 e' he
  · intro o' ho
    rw [ha.noted] at ho
    exact h.2 o' ho

/-- A free child becomes the container's. -/
theorem Owned.take (h : g.Owned) {e : Edge} {o : Node} {c : Key} (ho : g.IsContainer e o)
    (hf : g.Free e o c) : (g.setOwner e c (some o)).Owned := by
  refine h.setOwner ?_ ?_ ?_
  · rintro _ ⟨⟩
    exact ho
  · intro o' hlist
    rw [hf.2 o' (noted_of_recorded (h.listed hlist))]
  · intro e' o' hrival hlist
    have hlisted := noted_of_recorded (h.listed hlist)
    rw [hf.1 e' (rival_kind hrival).2.2.1] at hlisted
    cases hlisted

/-- A child is found free where it is free. -/
theorem free_value (h : g.Owned) (e : Edge) (o : Node) (c : Key) :
    ((Ownership.free e o c).run g).1 = true ↔ g.Free e o c := by
  have hexists : ∀ e', (g.noted e' c).filter g.alive = g.noted e' c := fun e' =>
    (owner_run g e' c).2.1.symm.trans (h.owner_value e' c)
  rw [free_noted]
  simp only [hexists]
  refine and_congr_right fun _ => forall₂_congr fun o' ho => ?_
  exact ⟨fun hsame => hsame (h.noted_alive ho), fun hsame _ => hsame⟩

/-- A private copy is a new entity that comes from the same row. -/
theorem copyChild_run {e : Edge} (he : e ≠ .assemblyModules) {l p : Nat}
    (hr : g.hasRow ⟨e.childKind, .row l p⟩) (hn : g.Numbered) :
    ∃ (ρ : Type) (_ : Recorded e.childKind ρ) (_ : Recorded.Tabled e.childKind) (r : ρ),
      (Ownership.copyChild e l p).run g = (some (.built g.built), g.grow e.childKind r) ∧
        ((g.store? l).bind fun s => Recorded.ofRow? e.childKind s l p) = some r ∧
        (Recorded.pack e.childKind r).origin? = some (.row l p) := by
  obtain ⟨ρ, _, _, -, hcopy⟩ := e.tabled he
  rw [← ofRow?_isSome (k := e.childKind) (ρ := ρ)] at hr
  obtain ⟨r, hr⟩ := Option.isSome_iff_exists.mp hr
  have hrun : (copy e.childKind l p).run g = (some ⟨.built g.built⟩, g.grow e.childKind r) := by
    unfold copy
    rw [run_get_bind, hr]
    rfl
  refine ⟨ρ, _, ‹_›, r, ?_, hr, ofRow?_origin hn hr⟩
  rw [hcopy, run_bind, hrun]
  rfl

section TakeOver

variable {e : Edge} {o : Node} {c : Key} {l p : Nat}

/-- A child that is found free is taken over itself. -/
theorem takeOver_free (hf : ((Ownership.free e o c).run g).1 = true) :
    (Ownership.takeOver e l o c).run g =
      (some c, ((Ownership.free e o c).run g).2.setOwner e c (some o)) := by
  unfold Ownership.takeOver
  rw [run_bind, if_pos hf]
  rfl

/-- A child that is not found free is taken over as a private copy of its row. -/
theorem takeOver_copy (hw : g.WellMade) (hn : g.Numbered) (he : e ≠ .assemblyModules)
    (hc : g.entities.contains ⟨e.childKind, .row l p⟩)
    (hf : ((Ownership.free e o (.row l p)).run g).1 = false) :
    ∃ (ρ : Type) (_ : Recorded e.childKind ρ) (_ : Recorded.Tabled e.childKind) (r : ρ),
      (Recorded.pack e.childKind r).origin? = some (.row l p) ∧
        ((g.store? l).bind fun s => Recorded.ofRow? e.childKind s l p) = some r ∧
        (Ownership.takeOver e l o (.row l p)).run g =
          (some (.built ((Ownership.free e o (.row l p)).run g).2.built),
            (((Ownership.free e o (.row l p)).run g).2.grow e.childKind r).setOwner e
              (.built ((Ownership.free e o (.row l p)).run g).2.built) (some o)) := by
  have hasked := keepsAsked_free e o (.row l p) g
  obtain ⟨hrow, horigin⟩ := hw.row he hc
  have hrow₁ := hasRow_congr hasked.loader ⟨e.childKind, .row l p⟩
  rw [hrow] at hrow₁
  obtain ⟨ρ, _, _, r, hcopy, hof, hr⟩ := copyChild_run he hrow₁ (hn.congr hasked.loader)
  rw [store?_congr hasked.loader] at hof
  refine ⟨ρ, _, ‹_›, r, hr, hof, ?_⟩
  unfold Ownership.takeOver
  rw [run_bind, hf, if_neg Bool.false_ne_true, run_get_bind, hasked.origin, horigin]
  show ((Ownership.copyChild e l p >>= _).run _) = _
  rw [run_bind, hcopy]
  rfl

/-- **What taking over children comes to.**  `xs` are taken over for `cs`: each is one
of them or new, they are the container's, and in no container of the other sort;
everything else reads as before. -/
structure Took (e : Edge) (o : Node) (cs : List Key) (g g' : Graph) (xs : List Key) : Prop where
  wellMade : g'.WellMade
  owned : g'.Owned
  loader : ∀ l, g'.loader? l = g.loader? l
  lists : g'.lists = g.lists
  contains : ∀ {n}, g.entities.contains n → g'.entities.contains n
  recorded : ∀ {e' x v}, x ∉ cs → g.entities.contains ⟨e'.childKind, x⟩ →
    g.owners.get? (e', x) = some v → g'.owners.get? (e', x) = some v
  noted : ∀ {e' x}, x ∉ cs → g.entities.contains ⟨e'.childKind, x⟩ →
    g'.noted e' x = g.noted e' x
  taken : ∀ x ∈ xs, g'.owners.get? (e, x) = some (some o)
  apart : ∀ {e'}, e.rival? = some e' → ∀ x ∈ xs, g'.noted e' x = none
  source : ∀ x ∈ xs, x ∈ cs ∨ ¬g.entities.contains ⟨e.childKind, x⟩
  nodup : xs.Nodup

/-- One child is taken over, the one that was to be or one that is new. -/
theorem Took.single {x : Key} {g₁ : Graph} (hw : g₁.WellMade)
    (hx : g₁.entities.contains ⟨e.childKind, x⟩) (howned : (g₁.setOwner e x (some o)).Owned)
    (hloader : ∀ l, g₁.loader? l = g.loader? l) (hlists : g₁.lists = g.lists)
    (hcontains : ∀ {n}, g.entities.contains n → g₁.entities.contains n)
    (hrecorded : ∀ {e' y v}, g.owners.get? (e', y) = some v → g₁.owners.get? (e', y) = some v)
    (hnoted : ∀ {e' y}, g.entities.contains ⟨Edge.childKind e', y⟩ → g₁.noted e' y = g.noted e' y)
    (hapart : ∀ {e'}, e.rival? = some e' → g₁.noted e' x = none)
    (hsource : x = c ∨ ¬g.entities.contains ⟨e.childKind, x⟩) :
    Took e o [c] g (g₁.setOwner e x (some o)) [x] := by
  -- what is written is read of no other entity that was there
  have hother : ∀ {e' y}, y ∉ [c] → g.entities.contains ⟨Edge.childKind e', y⟩ →
      (e, x) ≠ (e', y) := by
    rintro e' y hy hmade ⟨⟩
    exact hsource.elim (fun hsame => hy (List.mem_singleton.mpr hsame)) fun hnew => hnew hmade
  exact {
    wellMade := hw.setOwner hx _
    owned := howned
    loader := hloader
    lists := hlists
    contains := hcontains
    recorded := fun hy hmade hv => by
      rw [owners_setOwner, if_neg (hother hy hmade)]
      exact hrecorded hv
    noted := fun hy hmade => by rw [noted_setOwner, if_neg (hother hy hmade), hnoted hmade]
    taken := fun y hy => by
      obtain rfl := List.mem_singleton.mp hy
      rw [owners_setOwner, if_pos rfl]
    apart := fun {e'} hrival y hy => by
      obtain rfl := List.mem_singleton.mp hy
      have hedge : (e, y) ≠ (e', y) := fun heq => (rival_kind hrival).2.2.2.1 (Prod.mk.inj heq).1
      rw [noted_setOwner, if_neg hedge, hapart hrival]
    source := fun y hy => by
      obtain rfl := List.mem_singleton.mp hy
      exact hsource.imp_left List.mem_singleton.mpr
    nodup := List.pairwise_singleton _ x }

theorem took_free (h : g.Owned) (hw : g.WellMade) (hn : g.Numbered) (ho : g.IsContainer e o)
    (hc : g.entities.contains ⟨e.childKind, c⟩) (hf : g.Free e o c) {g₁ : Graph}
    (ha : g.Asked (· = ⟨e.childKind, c⟩) g₁) : Took e o [c] g (g₁.setOwner e c (some o)) [c] :=
  .single (hw.asked hn ha (by rintro _ rfl; exact hc)) (ha.contains hc)
    ((h.asked ha).take (ho.mono ha.contains) (hf.asked ha)) ha.loader ha.lists ha.contains
    ha.recorded (fun _ => ha.noted _ _) (fun {e'} hrival => by rw [ha.noted, hf.1 e' hrival]) (.inl rfl)

/-- A private copy of a row that is in no container of the other sort is in none. -/
theorem noted_copy (hw : g.WellMade) {s : Store} (hs : g.store? l = some s)
    {ρ : Type} [Recorded e.childKind ρ] [Recorded.Tabled e.childKind] {r : ρ}
    (hr : (Recorded.pack e.childKind r).origin? = some (.row l p))
    (hcopy : (g.grow e.childKind r).WellMade) {e' : Edge} (hrival : e.rival? = some e')
    (hapart : s.contains e' p = false) :
    (g.grow e.childKind r).noted e' (.built g.built) = none := by
  obtain ⟨hkind, -, -, -, hpair⟩ := rival_kind hrival
  -- nothing has been recorded of the copy, so its row decides
  have hrecord : (g.grow e.childKind r).owners.get? (e', .built g.built) = none := by
    cases hv : g.owners.get? (e', .built g.built) with
    | none => exact hv
    | some v => exact absurd rfl (hw.ne_fresh (hw.owner hv) _)
  have horigin : (g.grow e.childKind r).origin ⟨.typeDef, .built g.built⟩ = .row l p := by
    have horigin := origin_grow (g := g) (k := e.childKind) (r := r)
    rw [hr] at horigin
    rw [← hkind]
    exact horigin
  have hs' : (g.grow e.childKind r).store? l = some s := by
    rw [← hs]
    exact store?_congr (loader?_put (Recorded.Rowed.ne_module (ρ := ρ)) ⟨.built g.built⟩ r) l
  have hstored := stored_isSome hcopy horigin hs' hpair
  rw [hapart, Option.isSome_eq_false_iff, Option.isNone_iff_eq_none] at hstored
  rw [noted, hrecord, hstored]
  rfl

/-- A private copy reads no container of the other sort where its row has none. -/
theorem took_copy (h : g.Owned) (hw : g.WellMade) (hn : g.Numbered) (ho : g.IsContainer e o)
    (hrow : g.hasRow ⟨e.childKind, .row l p⟩) {s : Store} (hs : g.store? l = some s)
    (hapart : ∀ e', e.rival? = some e' → s.contains e' p = false)
    {ρ : Type} [Recorded e.childKind ρ] [Recorded.Tabled e.childKind] {r : ρ}
    (hr : (Recorded.pack e.childKind r).origin? = some (.row l p)) {g₁ : Graph}
    (hc : g.entities.contains ⟨e.childKind, c⟩) (ha : g.Asked (· = ⟨e.childKind, c⟩) g₁) :
    Took e o [c] g ((g₁.grow e.childKind r).setOwner e (.built g₁.built) (some o))
      [.built g₁.built] := by
  let fresh : Key := .built g₁.built
  let g₂ := g₁.grow e.childKind r
  have hw₁ : g₁.WellMade := hw.asked hn ha (by rintro _ rfl; exact hc)
  have h₁ : g₁.Owned := h.asked ha
  have hl : ∀ l, g₂.loader? l = g₁.loader? l :=
    loader?_put (Recorded.Rowed.ne_module (ρ := ρ)) (⟨fresh⟩ : Id e.childKind) r
  have hw₂ : g₂.WellMade := by
    refine hw₁.grow hl fun l' rid ho' _ => ?_
    rw [hr] at ho'
    cases ho'
    rw [hasRow_congr ha.loader]
    exact hrow
  have hs₁ : g₁.store? l = some s := by rw [store?_congr ha.loader, hs]
  -- the copy is no entity of before, and so in no list
  have hnew : ¬g.entities.contains ⟨e.childKind, fresh⟩ := fun hmade =>
    hw₁.ne_fresh (ha.contains hmade) _ rfl
  have hunread : ∀ e' o', e'.childKind = e.childKind → fresh ∉ g₂.held e' o' := by
    intro e' o' hkind hlist
    have hmade : g₁.entities.contains ⟨e.childKind, fresh⟩ := hkind ▸ hw₁.owner (h₁.listed hlist)
    exact hw₁.ne_fresh hmade _ rfl
  have howned : (g₂.setOwner e fresh (some o)).Owned := by
    refine (h₁.grow hw₁ hl).setOwner ?container ?own ?rival
    case container =>
      rintro _ ⟨⟩
      exact ho.mono fun hx => contains_grow_of (ha.contains hx)
    case own => exact fun o' hlist => absurd hlist (hunread e o' rfl)
    case rival =>
      intro e' o' hrival hlist
      obtain ⟨hkind', hkind, -⟩ := rival_kind hrival
      exact absurd hlist (hunread e' o' (hkind'.trans hkind.symm))
  refine .single hw₂ (grow_contains g₁ e.childKind r) howned (fun l' => (hl l').trans (ha.loader l'))
    ha.lists (fun hx => contains_grow_of (ha.contains hx)) ha.recorded (fun hmade => ?_)
    (fun {e'} hrival => noted_copy hw₁ hs₁ hr hw₂ hrival (hapart e' hrival)) (.inr hnew)
  rw [noted_grow hl (hw₁.ne_fresh (ha.contains hmade) _), ha.noted]

/-- Nothing to take over. -/
theorem Took.nil (h : g.Owned) (hw : g.WellMade) : Took e o [] g g [] where
  wellMade := hw
  owned := h
  loader _ := rfl
  lists := rfl
  contains hx := hx
  recorded _ _ hv := hv
  noted _ _ := rfl
  taken _ hx := absurd hx List.not_mem_nil
  apart _ _ hx := absurd hx List.not_mem_nil
  source _ hx := absurd hx List.not_mem_nil
  nodup := List.Pairwise.nil

/-- One child after another. -/
theorem Took.cons {cs xs ys : List Key} {g₁ : Graph} (h : Took e o [c] g g₁ xs)
    (k : Took e o cs g₁ g' ys) (hc : c ∉ cs)
    (hcs : ∀ x ∈ cs, g.entities.contains ⟨e.childKind, x⟩) :
    Took e o (c :: cs) g g' (xs ++ ys) := by
  -- what has been taken over for the first child is not taken over again
  have hfirst : ∀ x ∈ xs, x ∉ cs := by
    intro x hx hmem
    rcases h.source x hx with hsame | hnew
    · exact hc (List.mem_singleton.mp hsame ▸ hmem)
    · exact hnew (hcs x hmem)
  have hmade : ∀ x ∈ xs, g₁.entities.contains ⟨e.childKind, x⟩ :=
    fun x hx => h.wellMade.owner (h.taken x hx)
  exact {
    wellMade := k.wellMade
    owned := k.owned
    loader := fun l' => (k.loader l').trans (h.loader l')
    lists := k.lists.trans h.lists
    contains := fun hx => k.contains (h.contains hx)
    recorded := fun hx hcx hv => by
      obtain ⟨hxc, hxcs⟩ := List.ne_and_not_mem_of_not_mem_cons hx
      exact k.recorded hxcs (h.contains hcx)
        (h.recorded (mt List.mem_singleton.mp hxc) hcx hv)
    noted := fun hx hcx => by
      obtain ⟨hxc, hxcs⟩ := List.ne_and_not_mem_of_not_mem_cons hx
      rw [k.noted hxcs (h.contains hcx), h.noted (mt List.mem_singleton.mp hxc) hcx]
    taken := fun x hx => by
      rcases List.mem_append.mp hx with hx | hx
      · exact k.recorded (hfirst x hx) (hmade x hx) (h.taken x hx)
      · exact k.taken x hx
    apart := fun hrival x hx => by
      rcases List.mem_append.mp hx with hx | hx
      · obtain ⟨hkind, hkind', -⟩ := rival_kind hrival
        rw [k.noted (hfirst x hx) (by rw [hkind', ← hkind]; exact hmade x hx)]
        exact h.apart hrival x hx
      · exact k.apart hrival x hx
    source := fun x hx => by
      rcases List.mem_append.mp hx with hx | hx
      · exact (h.source x hx).imp_left fun hsame => List.mem_cons.mpr
          (Or.inl (List.mem_singleton.mp hsame))
      · rcases k.source x hx with hmem | hnew
        · exact Or.inl (List.mem_cons_of_mem _ hmem)
        · exact Or.inr fun hg => hnew (h.contains hg)
    nodup := by
      -- what is taken over later is one of the later children or newer than the first
      rw [List.nodup_append]
      refine ⟨h.nodup, k.nodup, ?_⟩
      rintro x hx _ hy rfl
      rcases k.source x hy with hmem | hnew
      · exact hfirst x hx hmem
      · exact hnew (hmade x hx) }

/-- Taking over one child, from a store that has no container of the other sort for its
row. -/
theorem took_takeOver (h : g.Owned) (hw : g.WellMade) (hn : g.Numbered)
    (he : e ≠ .assemblyModules) (ho : g.IsContainer e o) {s : Store} (hs : g.store? l = some s)
    (hc : g.entities.contains ⟨e.childKind, .row l p⟩)
    (hapart : ∀ e', e.rival? = some e' → s.contains e' p = false) :
    ∃ x, ((Ownership.takeOver e l o (.row l p)).run g).1 = some x ∧
      Took e o [.row l p] g ((Ownership.takeOver e l o (.row l p)).run g).2 [x] := by
  have ha := keepsAsked_free e o (.row l p) g
  cases hf : ((Ownership.free e o (.row l p)).run g).1 with
  | true =>
    rw [takeOver_free hf]
    exact ⟨_, rfl, took_free h hw hn ho hc ((free_value h e o _).mp hf) ha⟩
  | false =>
    obtain ⟨ρ, _, _, r, hr, -, hrun⟩ := takeOver_copy hw hn he hc hf
    rw [hrun]
    exact ⟨_, rfl, took_copy h hw hn ho (hw.row he hc).1 hs hapart hr hc ha⟩

/-- A key that a list can be read with: it stands for a row of the module that has no
container of the other sort. -/
structure Candidate (g : Graph) (e : Edge) (l : Nat) (s : Store) (c : Key) : Prop where
  made : g.entities.contains ⟨e.childKind, c⟩
  row : ∃ p, c = .row l p ∧ ∀ e', e.rival? = some e' → s.contains e' p = false

/-- **Taking over children, none of them twice.** -/
theorem took_adopt (he : e ≠ .assemblyModules) {s : Store} : ∀ (cs : List Key) {g : Graph},
    g.Owned → g.WellMade → g.Numbered → g.IsContainer e o → g.store? l = some s → cs.Nodup →
    (∀ c ∈ cs, g.Candidate e l s c) →
    Took e o cs g ((Ownership.adopt e l o cs).run g).2 ((Ownership.adopt e l o cs).run g).1
  | [], _, h, hw, _, _, _, _, _ => Took.nil h hw
  | c :: cs, g, h, hw, hn, ho, hs, hcs, hc => by
    obtain ⟨p, rfl, hapart⟩ := (hc c List.mem_cons_self).row
    obtain ⟨x, hx, htook⟩ :=
      took_takeOver h hw hn he ho hs (hc _ List.mem_cons_self).made hapart
    let g₁ := ((Ownership.takeOver e l o (.row l p)).run g).2
    have hcs₁ : ∀ c ∈ cs, g₁.Candidate e l s c := fun c hmem =>
      ⟨htook.contains (hc c (List.mem_cons_of_mem _ hmem)).made,
        (hc c (List.mem_cons_of_mem _ hmem)).row⟩
    -- the rest are candidates still, since taking one over takes no entity away
    have hrest := took_adopt he cs htook.owned htook.wellMade (hn.congr htook.loader)
      (ho.mono htook.contains) (by rw [store?_congr htook.loader, hs])
      (List.nodup_cons.mp hcs).2 hcs₁
    rw [adopt_cons]
    dsimp only
    rw [hx, Option.toList_some, List.singleton_append]
    exact htook.cons hrest (List.nodup_cons.mp hcs).1
      fun x hmem => (hc x (List.mem_cons_of_mem _ hmem)).made

end TakeOver

/-! ## Reading a list -/

section Items

variable {e : Edge} {o : Node} {l rid : Nat}

/-- The entity of a row, looked up or made. -/
theorem sharedChild_run (he : e ≠ .assemblyModules) (g : Graph) (l p : Nat) :
    g.Asked (fun _ => False) ((Ownership.sharedChild e l p).run g).2 ∧
      ((Ownership.sharedChild e l p).run g).1 =
        (if g.present ⟨e.childKind, .row l p⟩ then some (.row l p) else none) ∧
      (g.present ⟨e.childKind, .row l p⟩ →
        ((Ownership.sharedChild e l p).run g).2.entities.contains ⟨e.childKind, .row l p⟩) := by
  obtain ⟨ρ, _, _, hshared, -⟩ := e.tabled he
  rw [hshared]
  refine ⟨keepsAsked_shared l p g, ?_, ?_⟩
  · show ((shared e.childKind l p).run g).1.map (·.key) = _
    rw [shared_value]
    split
    · rfl
    · rfl
  · exact shared_contains (k := e.childKind) (ρ := ρ) g l p

/-- The entities of the rows that exist among some. -/
theorem sharedChildren_run (he : e ≠ .assemblyModules) (l : Nat) : ∀ (ps : List Nat) (g : Graph),
    g.Asked (fun _ => False) ((collect (Ownership.sharedChild e l) ps).run g).2 ∧
      ((collect (Ownership.sharedChild e l) ps).run g).1 =
        (ps.filter fun p => g.present ⟨e.childKind, .row l p⟩).map (.row l) ∧
      ∀ c ∈ ((collect (Ownership.sharedChild e l) ps).run g).1,
        ((collect (Ownership.sharedChild e l) ps).run g).2.entities.contains ⟨e.childKind, c⟩
  | [], g => ⟨Asked.refl g, rfl, fun _ hc => absurd hc List.not_mem_nil⟩
  | p :: ps, g => by
    obtain ⟨hasked, hvalue, hmade⟩ := sharedChild_run he g l p
    obtain ⟨hrest, hvalues, hmades⟩ :=
      sharedChildren_run he l ps ((Ownership.sharedChild e l p).run g).2
    simp only [hasked.present] at hvalues
    rw [collect, run_bind, hvalue, List.filter_cons]
    cases hp : g.present ⟨e.childKind, .row l p⟩ with
    | false => exact ⟨hasked.trans hrest, hvalues, hmades⟩
    | true =>
      refine ⟨hasked.trans hrest, congrArg (Key.row l p :: ·) hvalues, ?_⟩
      intro c hc
      rcases List.mem_cons.mp hc with rfl | hc
      · exact hrest.contains (hmade hp)
      · exact hmades c hc

theorem children_run (g : Graph) (l : Nat) (relation : Relation) (owner : Token) :
    g.Asked (fun _ => False) ((children l relation owner).run g).2 ∧
      ((children l relation owner).run g).1 =
        ((g.store? l).map fun s => s.children relation owner).getD [] := by
  have halike : g.Alike ((children l relation owner).run g).2 := ⟨fun _ => rfl, fun _ _ _ => rfl⟩
  refine ⟨⟨halike, fun _ => rfl, fun hc => hc, contains_present, rfl, rfl, fun hv => hv,
    fun _ => rfl, fun e c => ?_, Or.inl⟩, rfl⟩
  rw [noted, noted, halike.stored rfl]
  rfl

theorem collect_none {ι β : Type} : ∀ (is : List ι) (g : Graph),
    (collect (fun _ => (return none : GraphM (Option β))) is).run g = ([], g)
  | [], _ => rfl
  | _ :: is, g => collect_none is g

/-- Asking for entities of rows before taking over. -/
theorem Took.of_asked {cs xs : List Key} {g₁ : Graph} (ha : g.Asked (fun _ => False) g₁)
    (h : Took e o cs g₁ g' xs) : Took e o cs g g' xs where
  wellMade := h.wellMade
  owned := h.owned
  loader l' := (h.loader l').trans (ha.loader l')
  lists := h.lists.trans ha.lists
  contains hx := h.contains (ha.contains hx)
  recorded hx hcx hv := h.recorded hx (ha.contains hcx) (ha.recorded hv)
  noted hx hcx := (h.noted hx (ha.contains hcx)).trans (ha.noted _ _)
  taken := h.taken
  apart := h.apart
  source x hx := (h.source x hx).imp_right fun hnew hg => hnew (ha.contains hg)
  nodup := h.nodup

/-- Reading the children of a row is taking over those that the store lists for it, in
their order. -/
theorem storedItems_run (he : e ≠ .assemblyModules) (o : Node) (rid : Nat) {s : Store}
    (hs : g.store? l = some s)
    (hrow : ∀ p, g.present ⟨e.childKind, .row l p⟩ = (s.row? e.childKind.table p).isSome) :
    ∃ g₁ : Graph, g.Asked (fun _ => False) g₁ ∧
      (∀ p ∈ s.listedRows e o.kind rid, g₁.entities.contains ⟨e.childKind, .row l p⟩) ∧
      (Ownership.storedItems e o l rid).run g = (Ownership.adopt e l o
        (Ownership.ordered g₁ e ((s.listedRows e o.kind rid).map (.row l)))).run g₁ := by
  let owner := if e = .moduleTypes then Store.moduleToken else Token.ofParts o.kind.table rid
  let rids := s.children (Ownership.relation e) owner
  let listed := if e = .nestedTypes then rids.filter (· != rid) else rids
  obtain ⟨hasked, hvalue⟩ := children_run g l (Ownership.relation e) owner
  let g₁ := ((children l (Ownership.relation e) owner).run g).2
  let candidates := (collect (Ownership.sharedChild e l) listed).run g₁
  have hrids : ((children l (Ownership.relation e) owner).run g).1 = rids := by
    rw [hvalue, hs]
    rfl
  obtain ⟨hshared, hcandidates, hmade⟩ := sharedChildren_run he l listed g₁
  have hrows : candidates.1 = (s.listedRows e o.kind rid).map (.row l) := by
    rw [hcandidates]
    simp only [g₁, hasked.present, hrow]
    rfl
  refine ⟨candidates.2, hasked.trans hshared, fun p hp => hmade _ ?_, ?_⟩
  · show Key.row l p ∈ candidates.1
    rw [hrows]
    exact List.mem_map_of_mem hp
  · rw [← hrows]
    unfold Ownership.storedItems
    show (do
      let candidates ← collect (Ownership.sharedChild e l)
        (if e = .nestedTypes then
          ((children l (Ownership.relation e) owner).run g).1.filter (· != rid)
        else ((children l (Ownership.relation e) owner).run g).1)
      Ownership.adopt e l o (Ownership.ordered (← MonadState.get) e candidates) : GraphM _).run g₁ = _
    rw [hrids]
    rfl

/-- Reading the children of a row is taking over those that the store lists for it, in
some order. -/
theorem storedItems_eq (hw : g.WellMade) (he : e ≠ .assemblyModules) (o : Node) (rid : Nat)
    {s : Store} (hs : g.store? l = some s) :
    ∃ (g₁ : Graph) (cs : List Key), g.Asked (fun _ => False) g₁ ∧
      cs.Perm ((s.listedRows e o.kind rid).map (.row l)) ∧
      (∀ c ∈ cs, g₁.entities.contains ⟨e.childKind, c⟩) ∧
      (Ownership.storedItems e o l rid).run g = (Ownership.adopt e l o cs).run g₁ := by
  obtain ⟨g₁, hasked, hmade, hrun⟩ := storedItems_run he o rid hs (hw.present_row he hs)
  have hperm := ordered_perm g₁ e ((s.listedRows e o.kind rid).map (.row l))
  refine ⟨g₁, _, hasked, hperm, fun c hc => ?_, hrun⟩
  obtain ⟨p, hp, rfl⟩ := List.mem_map.mp (hperm.mem_iff.mp hc)
  exact hmade p hp

/-- Nothing is listed for an assembly. -/
theorem storedItems_assembly (o : Node) (rid : Nat) (g : Graph) :
    ∃ g₁, g.Asked (fun _ => False) g₁ ∧
      (Ownership.storedItems .assemblyModules o l rid).run g = ([], g₁) := by
  let owner := Token.ofParts o.kind.table rid
  let g₁ := ((children l (Ownership.relation .assemblyModules) owner).run g).2
  refine ⟨g₁, (children_run g l (Ownership.relation .assemblyModules) owner).1, ?_⟩
  unfold Ownership.storedItems
  rw [run_bind, run_bind]
  show (do
    let read ← MonadState.get
    Ownership.adopt .assemblyModules l o (Ownership.ordered read .assemblyModules
      ((collect (fun _ => return none) _ : GraphM (List Key)).run g₁).1) : GraphM _).run
        ((collect (fun _ => return none) _ : GraphM (List Key)).run g₁).2 = _
  rw [collect_none]
  rfl

/-- Reading the children of a row from an unambiguous store. -/
theorem took_storedItems (h : g.Owned) (hw : g.WellMade) (hn : g.Numbered) (ho : g.IsContainer e o)
    {s : Store} (hs : g.store? l = some s) (hu : s.Unambiguous)
    (hrow : e ≠ .assemblyModules → s.HasContainer o.kind rid) :
    ∃ cs, Took e o cs g ((Ownership.storedItems e o l rid).run g).2
      ((Ownership.storedItems e o l rid).run g).1 := by
  by_cases he : e = .assemblyModules
  · subst he
    obtain ⟨g₁, hasked, hrun⟩ := storedItems_assembly (l := l) o rid g
    rw [hrun]
    exact ⟨[], (Took.nil (h.asked hasked) (hw.asked hn hasked (by rintro _ ⟨⟩))).of_asked hasked⟩
  · obtain ⟨g₁, cs, hasked, hperm, hmade, hrun⟩ := storedItems_eq hw he o rid hs
    have hcontainer := hrow he
    rw [hrun]
    refine ⟨cs, Took.of_asked hasked (took_adopt (s := s) he _ (h.asked hasked)
      (hw.asked hn hasked (by rintro _ ⟨⟩)) (hn.congr hasked.loader) ?_ ?_ ?_ ?_)⟩
    · exact ho.mono hasked.contains
    · rw [store?_congr hasked.loader, hs]
    · rw [hperm.nodup_iff]
      exact (hu.once he ho.kind hcontainer).map fun p q heq => (Key.row.inj heq).2
    · intro c hc
      refine ⟨hmade c hc, ?_⟩
      obtain ⟨p, hp, rfl⟩ := List.mem_map.mp (hperm.mem_iff.mp hc)
      exact ⟨p, rfl, fun e' hrival => hu.apart hrival ho.kind hcontainer hp⟩

/-- Every store that the graph is read from is unambiguous. -/
def Unambiguous (g : Graph) : Prop := ∀ l s, g.store? l = some s → s.Unambiguous

/-- **What reading a list comes to.** -/
structure Listed (e : Edge) (o : Node) (g g' : Graph) (cs : List Key) : Prop where
  wellMade : g'.WellMade
  owned : g'.Owned
  loader : ∀ l, g'.loader? l = g.loader? l
  contains : ∀ {n}, g.entities.contains n → g'.entities.contains n
  list : g'.lists.get? (e, o) = some cs
  others : ∀ {e' o'}, (e, o) ≠ (e', o') → g'.lists.get? (e', o') = g.lists.get? (e', o')

/-- What has been taken over becomes the list of the container. -/
theorem Took.listed {cs xs : List Key} (h : Took e o cs g g' xs) :
    Listed e o g (g'.setList e o xs) xs where
  wellMade := h.wellMade.setList e o xs
  owned := h.owned.setList h.nodup h.taken fun _ hrival => h.apart hrival
  loader := h.loader
  contains := h.contains
  list := Index.get?_set_same _ _ _
  others hne := (Index.get?_set_other _ _ hne).trans (congrArg (Index.get? · _) h.lists)

/-- A container that comes from a row comes from one that its store has. -/
theorem hasContainer_of_origin (hw : g.WellMade) (ho : g.IsContainer e o)
    (horigin : g.origin o = .row l rid) {s : Store}
    (hs : g.store? l = some s) (he : e ≠ .assemblyModules) : s.HasContainer o.kind rid := by
  -- a container that is not a module is itself a child on some edge
  have backed : ∀ e' : Edge, e' ≠ .assemblyModules → o.kind = e'.childKind →
      (s.row? o.kind.table rid).isSome := by
    intro e' he' hkind
    have hnode : o = ⟨e'.childKind, o.key⟩ := Node.ext hkind rfl
    have hc := ho.made
    rw [hnode] at hc horigin
    have hrow : ((g.store? l).bind (·.row? e'.childKind.table rid)).isSome :=
      hw.backed he' hc horigin (loader?_of_store? hs)
    rw [hs, Option.bind_some, ← hkind] at hrow
    exact hrow
  have hk := ho.kind
  cases e with
  | moduleTypes => exact Or.inl (List.mem_singleton.mp hk)
  | nestedTypes | fields | methods | properties | events =>
    exact Or.inr (backed .nestedTypes (by decide) (List.mem_singleton.mp hk))
  | params => exact Or.inr (backed .methods (by decide) (List.mem_singleton.mp hk))
  | genericParams =>
    rcases List.mem_cons.mp hk with hk | hk
    · exact Or.inr (backed .nestedTypes (by decide) hk)
    · exact Or.inr (backed .methods (by decide) (List.mem_singleton.mp hk))
  | assemblyModules => exact absurd rfl he

theorem reader?_some {origin : Origin} (h : g.reader? origin = some (l, rid)) :
    origin = .row l rid ∧ ∃ s, g.store? l = some s := by
  cases origin with
  | inMemory => cases h
  | row l' rid' =>
    have hif : (if (g.loader? l').isSome then some (l', rid') else none) = some (l, rid) := h
    split at hif
    · next hl =>
      cases hif
      obtain ⟨loader, hl⟩ := Option.isSome_iff_exists.mp hl
      exact ⟨rfl, loader.store, by rw [store?, hl]; rfl⟩
    · cases hif

theorem alive_of_contains {n : Node} (h : g.entities.contains n) : g.alive n :=
  present_alive (contains_present h)

/-- A list that has been read stays as it is. -/
theorem items_held {cs : List Key} (h : g.lists.get? (e, o) = some cs) :
    (Ownership.items e o).run g = (cs, g) :=
  getRelaxed_held (show (listSlot e o).peek g = some cs from h)

section Unread

variable (h : g.lists.get? (e, o) = none)
include h

/-- A container without a row is read as containing nothing. -/
theorem items_memory (hreader : g.reader? (g.origin o) = none) :
    (Ownership.items e o).run g = ([], g.setList e o []) := by
  let compute := fromStore (g.origin o) [] (Ownership.storedItems e o)
  have hcompute : compute.run g = ([], g) := by
    show (fromStore _ _ _).run g = _
    unfold fromStore
    rw [run_get_bind, hreader]
    rfl
  have hread : (Ownership.items e o).run g = ((listSlot e o).getRelaxed compute).run g := rfl
  rw [hread, getRelaxed_empty (show (listSlot e o).peek g = none from h)
    (show (listSlot e o).peek (compute.run g).2 = none from hcompute ▸ h), hcompute]
  rfl

/-- What is read for the row of a container becomes its list. -/
theorem items_row (hreader : g.reader? (g.origin o) = some (l, rid))
    (hlist : ((Ownership.storedItems e o l rid).run g).2.lists.get? (e, o) = none) :
    (Ownership.items e o).run g = (((Ownership.storedItems e o l rid).run g).1,
      ((Ownership.storedItems e o l rid).run g).2.setList e o
        ((Ownership.storedItems e o l rid).run g).1) := by
  let compute := fromStore (g.origin o) [] (Ownership.storedItems e o)
  have hcompute : compute.run g = (Ownership.storedItems e o l rid).run g := by
    show (fromStore _ _ _).run g = _
    unfold fromStore
    rw [run_get_bind, hreader]
  have hread : (Ownership.items e o).run g = ((listSlot e o).getRelaxed compute).run g := rfl
  rw [hread, getRelaxed_empty (show (listSlot e o).peek g = none from h)
    (show (listSlot e o).peek (compute.run g).2 = none from hcompute ▸ hlist), hcompute]
  rfl

end Unread

/-- **Reading a list** keeps the invariant, where every store is unambiguous. -/
theorem items_run (h : g.Owned) (hw : g.WellMade) (hn : g.Numbered) (hu : g.Unambiguous)
    (ho : g.IsContainer e o) :
    Listed e o g ((Ownership.items e o).run g).2 ((Ownership.items e o).run g).1 := by
  cases hg : g.lists.get? (e, o) with
  | some cs =>
    rw [items_held hg]
    exact ⟨hw, h, fun _ => rfl, fun hx => hx, hg, fun _ => rfl⟩
  | none =>
    cases hreader : g.reader? (g.origin o) with
    | none =>
      rw [items_memory hg hreader]
      exact (Took.nil h hw).listed
    | some row =>
      obtain ⟨l, rid⟩ := row
      obtain ⟨horigin, s, hs⟩ := reader?_some hreader
      obtain ⟨cs, htook⟩ :=
        took_storedItems h hw hn ho hs (hu l s hs) (hasContainer_of_origin hw ho horigin hs)
      rw [items_row hg hreader (by rw [htook.lists, hg])]
      exact htook.listed

end Items
end Graph
end CliMetadata
