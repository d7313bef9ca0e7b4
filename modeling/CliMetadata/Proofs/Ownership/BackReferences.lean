import CliMetadata.Proofs.Graph.Reading

/-!
# What a back-reference reads as

A back-reference that has not been read yet is computed from the store when it is
asked for.  `Graph.noted g e c` is what asking for it gives: what has been recorded,
or else what the store says of the child's row (`Graph.stored`).

**Asking changes nothing that asking depends on.**  `Graph.Asked children g g'` says
that `g'` is `g` after entities of rows and back-references of some children have been
asked for: the lists are the same, entities read the same, and so does every
back-reference (`Asked.noted`).  The entities made on the way all stand for rows that
the stores have (`Graph.present`), which is why what was there for `shared` to find is
there still, and nothing else is.
-/

namespace CliMetadata

open CliMetadata.Graph Loading Stateful

/-! ## Entities of rows -/

theorem Store.nth_map {α β : Type} (f : α → β) (rows : List α) (place : Nat) :
    nth (rows.map f) place = (nth rows place).map f := by
  unfold nth
  split
  · rfl
  · rw [List.getElem?_map]

/-- The structure of a kind whose entities are made from the rows of its table. -/
class Recorded.Rowed (k : Kind) {ρ : Type} [Recorded k ρ] : Prop extends Recorded.Lawful k where
  ne_module : k ≠ .module
  isSome_ofRow : ∀ (s : Store) (loader place : Nat),
    (Recorded.ofRow? k s loader place).isSome = (s.row? k.table place).isSome

/-- One whose entities remember the rows that they are made from. -/
class Recorded.Tabled (k : Kind) {ρ : Type} [Recorded k ρ] : Prop extends Recorded.Rowed k where
  origin_ofRow : ∀ (s : Store) (loader place : Nat),
    (Recorded.ofRow? k s loader place).map (fun r => (Recorded.pack k r).origin?) =
      (s.row? k.table place).map fun row => some (.row loader row.head.rid)
  rid_ofRow : ∀ (s : Store) (loader place : Nat),
    (Recorded.ofRow? k s loader place).map (fun r => (Recorded.pack k r).rid) =
      (s.row? k.table place).map fun row => row.head.rid

/-- A table whose rows are wrapped as rows of any kind, and what is read off the entities
made of them. -/
theorem Store.nth_made {α ρ β : Type} {rows : List α} {make : α → ρ} {part : ρ → β}
    {wrap : α → Row} {rowPart : Row → β} {place : Nat} (h : ∀ r, part (make r) = rowPart (wrap r)) :
    ((nth rows place).map make).map part = (nth (rows.map wrap) place).map rowPart := by
  rw [nth_map, Option.map_map, Option.map_map]
  exact congrArg (Option.map · _) (funext h)

/-- A table whose rows are wrapped as rows of any kind gives an entity for each of them. -/
theorem Store.isSome_made {α ρ : Type} {rows : List α} {make : α → ρ} {wrap : α → Row}
    {place : Nat} : ((nth rows place).map make).isSome = (nth (rows.map wrap) place).isSome := by
  rw [nth_map, Option.isSome_map, Option.isSome_map]

instance : Recorded.Rowed .typeDef := ⟨by decide, fun _ _ _ => Store.isSome_made⟩
instance : Recorded.Rowed .field := ⟨by decide, fun _ _ _ => Store.isSome_made⟩
instance : Recorded.Rowed .methodDef := ⟨by decide, fun _ _ _ => Store.isSome_made⟩
instance : Recorded.Rowed .param := ⟨by decide, fun _ _ _ => Store.isSome_made⟩
instance : Recorded.Rowed .property := ⟨by decide, fun _ _ _ => Store.isSome_made⟩
instance : Recorded.Rowed .event := ⟨by decide, fun _ _ _ => Store.isSome_made⟩
instance : Recorded.Rowed .genericParam := ⟨by decide, fun _ _ _ => Store.isSome_made⟩
instance : Recorded.Rowed .typeRef := ⟨by decide, fun _ _ _ => Store.isSome_made⟩
instance : Recorded.Rowed .typeSpec := ⟨by decide, fun _ _ _ => Store.isSome_made⟩
instance : Recorded.Rowed .memberRef := ⟨by decide, fun _ _ _ => Store.isSome_made⟩
instance : Recorded.Rowed .moduleRef := ⟨by decide, fun _ _ _ => Store.isSome_made⟩
instance : Recorded.Rowed .assemblyRef := ⟨by decide, fun _ _ _ => Store.isSome_made⟩
instance : Recorded.Rowed .file := ⟨by decide, fun _ _ _ => Store.isSome_made⟩
instance : Recorded.Rowed .exportedType := ⟨by decide, fun _ _ _ => Store.isSome_made⟩
instance : Recorded.Rowed .resource := ⟨by decide, fun _ _ _ => Store.isSome_made⟩
instance : Recorded.Rowed .methodSpec := ⟨by decide, fun _ _ _ => Store.isSome_made⟩

instance : Recorded.Tabled .typeDef :=
  ⟨fun _ _ _ => Store.nth_made fun _ => rfl, fun _ _ _ => Store.nth_made fun _ => rfl⟩
instance : Recorded.Tabled .field :=
  ⟨fun _ _ _ => Store.nth_made fun _ => rfl, fun _ _ _ => Store.nth_made fun _ => rfl⟩
instance : Recorded.Tabled .methodDef :=
  ⟨fun _ _ _ => Store.nth_made fun _ => rfl, fun _ _ _ => Store.nth_made fun _ => rfl⟩
instance : Recorded.Tabled .param :=
  ⟨fun _ _ _ => Store.nth_made fun _ => rfl, fun _ _ _ => Store.nth_made fun _ => rfl⟩
instance : Recorded.Tabled .property :=
  ⟨fun _ _ _ => Store.nth_made fun _ => rfl, fun _ _ _ => Store.nth_made fun _ => rfl⟩
instance : Recorded.Tabled .event :=
  ⟨fun _ _ _ => Store.nth_made fun _ => rfl, fun _ _ _ => Store.nth_made fun _ => rfl⟩
instance : Recorded.Tabled .genericParam :=
  ⟨fun _ _ _ => Store.nth_made fun _ => rfl, fun _ _ _ => Store.nth_made fun _ => rfl⟩

namespace Graph

/-- Whether an entity stands for a row that the store of an open module has. -/
def hasRow (g : Graph) (n : Node) : Bool :=
  match n.key with
  | .row loader place => ((g.store? loader).bind (·.row? n.kind.table place)).isSome
  | .built _ => false

/-- Whether there is an entity for `shared` to find or to make. -/
def present (g : Graph) (n : Node) : Bool := g.entities.contains n || g.hasRow n

variable {g g' : Graph}

theorem store?_congr (hl : ∀ l, g'.loader? l = g.loader? l) (l : Nat) : g'.store? l = g.store? l :=
  congrArg (Option.map _) (hl l)

theorem hasRow_congr (hl : ∀ l, g'.loader? l = g.loader? l) (n : Node) :
    g'.hasRow n = g.hasRow n := by
  unfold hasRow
  split
  · rw [store?_congr hl]
  · rfl

theorem hasRow_alive {n : Node} (h : g.hasRow n) : g.alive n := by
  obtain ⟨kind, key⟩ := n
  cases key with
  | built _ => cases h
  | row loader place =>
    have hrow : ((g.store? loader).bind (·.row? kind.table place)).isSome := h
    unfold alive
    rw [Bool.or_eq_true]
    right
    show (g.loader? loader).isSome
    cases hl : g.loader? loader with
    | none =>
      rw [store?, hl] at hrow
      cases hrow
    | some _ => rfl

theorem present_alive {n : Node} (h : g.present n) : g.alive n := by
  rcases Bool.or_eq_true _ _ ▸ h with h | h
  · unfold alive
    rw [h, Bool.true_or]
  · exact hasRow_alive h

/-- An entity exists where it is present or its module is open. -/
theorem alive_eq_present (n : Node) :
    g.alive n = (g.present n ||
      match n.key with
      | .row loader _ => (g.loader? loader).isSome
      | .built _ => false) := by
  cases hr : g.hasRow n with
  | false =>
    rw [present, hr, Bool.or_false]
    rfl
  | true => rw [present, hr, Bool.or_true, Bool.true_or, hasRow_alive hr]

theorem alive_mono (hl : ∀ l, g'.loader? l = g.loader? l) {n : Node}
    (hc : g.entities.contains n → g'.entities.contains n) (h : g.alive n) : g'.alive n := by
  unfold alive at h ⊢
  simp only [hl]
  rw [Bool.or_eq_true] at h ⊢
  exact h.imp_left hc

end Graph

section Shared

variable {k : Kind} {ρ : Type} [Recorded k ρ] [Recorded.Rowed k] (g : Graph) (loader place : Nat)

/-- A kind's structure is made of a row exactly where there is one. -/
theorem ofRow?_isSome :
    ((g.store? loader).bind fun s => Recorded.ofRow? k s loader place).isSome =
      g.hasRow ⟨k, .row loader place⟩ := by
  show _ = ((g.store? loader).bind fun s => s.row? k.table place).isSome
  cases g.store? loader with
  | none => rfl
  | some s => exact Recorded.Rowed.isSome_ofRow s loader place

/-- `shared` gives the entity of a row where it is there or can be made. -/
theorem shared_value :
    ((shared k loader place).run g).1 =
      if g.present ⟨k, .row loader place⟩ then some ⟨.row loader place⟩ else none := by
  have hrow := ofRow?_isSome (k := k) (ρ := ρ) g loader place
  rw [shared_run]
  unfold present
  show Prod.fst (if g.entities.contains ⟨k, .row loader place⟩ then _ else _) = _
  cases hc : g.entities.contains ⟨k, .row loader place⟩ with
  | true => rfl
  | false =>
    rw [Bool.false_or, ← hrow]
    cases (g.store? loader).bind fun s => Recorded.ofRow? k s loader place <;> rfl

/-- What `shared` finds or makes is there afterwards. -/
theorem shared_contains (h : g.present ⟨k, .row loader place⟩) :
    ((shared k loader place).run g).2.entities.contains ⟨k, .row loader place⟩ := by
  rw [shared_run]
  cases hc : g.entities.contains ⟨k, .row loader place⟩ with
  | true =>
    rw [if_pos (show g.entities.contains (⟨.row loader place⟩ : Id k).node = true from hc)]
    exact hc
  | false =>
    rw [if_neg (show ¬g.entities.contains (⟨.row loader place⟩ : Id k).node = true from
      fun ht => Bool.false_ne_true (hc.symm.trans ht))]
    rw [present, hc, Bool.false_or, ← ofRow?_isSome (k := k) (ρ := ρ)] at h
    obtain ⟨r, hr⟩ := Option.isSome_iff_exists.mp h
    rw [hr]
    show ((g.entities.set _ _).get? _).isSome = true
    rw [show (⟨k, .row loader place⟩ : Node) = (⟨.row loader place⟩ : Id k).node from rfl,
      Index.get?_set_same]
    rfl

end Shared

/-! ## What depends on rows alone -/

namespace Graph

/-- Two graphs that read the same from rows. -/
structure Alike (g g' : Graph) : Prop where
  loader : ∀ l, g'.loader? l = g.loader? l
  rows : ∀ k l p, g'.present ⟨k, .row l p⟩ = g.present ⟨k, .row l p⟩

/-- What the store says of the container of a child. -/
def stored (g : Graph) (e : Edge) (c : Key) : Option Node :=
  ((fromStore (g.origin ⟨e.childKind, c⟩) none (Ownership.storedOwner e)).run g).1

/-- What a back-reference reads as: what has been recorded, else what the store says. -/
def noted (g : Graph) (e : Edge) (c : Key) : Option Node :=
  (g.owners.get? (e, c)).getD (g.stored e c)

variable {g g' : Graph}

/-- What the stores say of the container of a child is told by the rows that may be one. -/
theorem stored_congr {e : Edge} {c : Key} (hl : ∀ l, g'.loader? l = g.loader? l)
    (hp : ∀ k ∈ e.ownerKinds, k ≠ .module → ∀ l p,
      g'.present ⟨k, .row l p⟩ = g.present ⟨k, .row l p⟩)
    (ho : g'.origin ⟨e.childKind, c⟩ = g.origin ⟨e.childKind, c⟩) :
    g'.stored e c = g.stored e c := by
  have shared : ∀ {k : Kind} {ρ : Type} [Recorded k ρ] [Recorded.Rowed k], k ∈ e.ownerKinds →
      ∀ l p, ((Loading.shared k l p).run g').1 = ((Loading.shared k l p).run g).1 := by
    intro k ρ _ hrowed hk l p
    rw [shared_value, shared_value, hp k hk hrowed.ne_module]
  have howner : ∀ l rid, ((Ownership.storedOwner e l rid).run g').1 =
      ((Ownership.storedOwner e l rid).run g).1 := by
    intro l rid
    unfold Ownership.storedOwner
    cases e with
    | moduleTypes =>
      simp only [run_bind, parent?_run, store?_congr hl]
      rfl
    | nestedTypes | fields | methods | properties | events | params =>
      simp only [run_bind, parent?_run, store?_congr hl]
      split
      · rfl
      · split
        · exact congrArg (Option.map Id.node) (shared (by decide) _ _)
        · rfl
    | genericParams =>
      simp only [run_bind, rowAt_run, store?_congr hl]
      split
      · rfl
      · unfold typeOrMethod
        split
        · split
          · exact congrArg (Option.map Id.node) (shared (by decide) _ _)
          · exact congrArg (Option.map Id.node) (shared (by decide) _ _)
          · rfl
        · rfl
    | assemblyModules => rfl
  have hreader : g'.reader? (g.origin ⟨e.childKind, c⟩) = g.reader? (g.origin ⟨e.childKind, c⟩) := by
    unfold reader?
    simp only [hl]
  unfold Graph.stored fromStore
  rw [run_get_bind, run_get_bind, ho, hreader]
  split
  · exact howner _ _
  · rfl

namespace Alike

theorem store? (h : g.Alike g') (l : Nat) : g'.store? l = g.store? l := store?_congr h.loader l

theorem stored (h : g.Alike g') {e : Edge} {c : Key}
    (ho : g'.origin ⟨e.childKind, c⟩ = g.origin ⟨e.childKind, c⟩) :
    g'.stored e c = g.stored e c :=
  stored_congr h.loader (fun k _ _ => h.rows k) ho

end Alike

/-! ## Asking -/

/-- **The graph after some asking**: entities of rows may have been made, and
back-references of some children may have been recorded as they read. -/
structure Asked (children : Node → Prop) (g g' : Graph) : Prop extends Alike g g' where
  entity : ∀ n, g'.entity n = g.entity n
  contains : ∀ {n}, g.entities.contains n → g'.entities.contains n
  made : ∀ {n}, g'.entities.contains n → g.present n
  lists : g'.lists = g.lists
  built : g'.built = g.built
  recorded : ∀ {e c v}, g.owners.get? (e, c) = some v → g'.owners.get? (e, c) = some v
  others : ∀ {e : Edge} {c}, ¬children ⟨e.childKind, c⟩ → g'.owners.get? (e, c) = g.owners.get? (e, c)
  noted : ∀ e c, g'.noted e c = g.noted e c
  /-- A container that has been recorded on the way has been made. -/
  container : ∀ {e c o}, g'.owners.get? (e, c) = some (some o) →
    g.owners.get? (e, c) = some (some o) ∨ g'.entities.contains o

theorem contains_present {n : Node} (h : g.entities.contains n) : g.present n := by
  unfold present
  rw [h, Bool.true_or]

/-- Entities that are made for rows add nothing to what is present. -/
theorem present_congr (hl : ∀ l, g'.loader? l = g.loader? l) {n : Node}
    (hcontains : g.entities.contains n → g'.entities.contains n)
    (hmade : g'.entities.contains n → g.present n) : g'.present n = g.present n := by
  have hrow := hasRow_congr hl n
  rw [Bool.eq_iff_iff]
  unfold present at *
  rw [Bool.or_eq_true, hrow, Bool.or_eq_true]
  constructor
  · rintro (hc | hr)
    · exact Bool.or_eq_true _ _ ▸ hmade hc
    · exact Or.inr hr
  · exact Or.imp_left hcontains

section Put

variable {k : Kind} {ρ : Type} [Recorded k ρ] {id : Id k} {r : ρ}

theorem contains_put {n : Node} (h : g.entities.contains n) : (g.put id r).entities.contains n := by
  rw [Index.contains, put, Index.get?_set]
  split
  · rfl
  · exact h

theorem made_put (hp : g.present id.node) {n : Node} (h : (g.put id r).entities.contains n) :
    g.present n := by
  by_cases hid : id.node = n
  · exact hid ▸ hp
  · rw [Index.contains, put, Index.get?_set_other _ _ hid] at h
    exact contains_present h

/-- What is written for an entity that is present adds nothing to what is present. -/
theorem present_put (hl : ∀ l, (g.put id r).loader? l = g.loader? l) (hp : g.present id.node)
    (n : Node) : (g.put id r).present n = g.present n :=
  present_congr hl contains_put (made_put hp)

/-- What is written for another entity adds nothing to what there is of this one. -/
theorem present_put_of_ne {n : Node}
    (hl : ∀ l, (g.put id r).loader? l = g.loader? l) (hn : id.node ≠ n) :
    (g.put id r).present n = g.present n := by
  refine present_congr hl contains_put fun h => contains_present ?_
  rwa [Index.contains, put, Index.get?_set_other _ _ hn] at h

theorem Alike.of_put (hl : ∀ l, (g.put id r).loader? l = g.loader? l) (hp : g.present id.node) :
    g.Alike (g.put id r) :=
  ⟨hl, fun _ _ _ => present_put hl hp _⟩

end Put

namespace Asked

variable {children : Node → Prop} {g'' : Graph}

theorem present (h : g.Asked children g') (n : Node) : g'.present n = g.present n :=
  present_congr h.loader h.contains h.made

theorem alive (h : g.Asked children g') (n : Node) : g'.alive n = g.alive n := by
  rw [alive_eq_present, alive_eq_present, h.present]
  simp only [h.loader]

theorem origin (h : g.Asked children g') (n : Node) : g'.origin n = g.origin n :=
  congrArg (fun e => (Entity.origin? e).getD .inMemory) (h.entity n)

theorem refl (g : Graph) : g.Asked children g where
  loader _ := rfl
  rows _ _ _ := rfl
  entity _ := rfl
  contains h := h
  made := contains_present
  lists := rfl
  built := rfl
  recorded h := h
  others _ := rfl
  noted _ _ := rfl
  container h := Or.inl h

theorem trans (h : g.Asked children g') (k : g'.Asked children g'') : g.Asked children g'' where
  loader l := (k.loader l).trans (h.loader l)
  rows i l p := (k.rows i l p).trans (h.rows i l p)
  entity n := (k.entity n).trans (h.entity n)
  contains hn := k.contains (h.contains hn)
  made hn := h.present _ ▸ k.made hn
  lists := k.lists.trans h.lists
  built := k.built.trans h.built
  recorded hv := k.recorded (h.recorded hv)
  others hc := (k.others hc).trans (h.others hc)
  noted e c := (k.noted e c).trans (h.noted e c)
  container ho := by
    rcases k.container ho with ho | ho
    · exact (h.container ho).imp_right k.contains
    · exact Or.inr ho

/-- More children may have been asked for. -/
theorem mono {some : Node → Prop} (h : g.Asked some g') (hc : ∀ n, some n → children n) :
    g.Asked children g' :=
  { h with others := fun hn => h.others fun hs => hn (hc _ hs) }

instance : IsPreorder Graph (Asked children) where
  refl := refl
  trans _ _ _ := trans

/-- An entity of a row is made as the row has it. -/
theorem of_put {k : Kind} {ρ : Type} [Recorded k ρ] [Recorded.Rowed k] {loader place : Nat} {r : ρ}
    (hc : ¬g.entities.contains (⟨.row loader place⟩ : Id k).node)
    (hr : ((g.store? loader).bind fun s => Recorded.ofRow? k s loader place) = some r) :
    g.Asked children (g.put (⟨.row loader place⟩ : Id k) r) := by
  let id : Id k := ⟨.row loader place⟩
  have hl : ∀ l, (g.put id r).loader? l = g.loader? l :=
    loader?_put (Recorded.Rowed.ne_module (ρ := ρ)) id r
  have hrow : g.hasRow id.node := by
    show g.hasRow ⟨k, .row loader place⟩ = true
    rw [← ofRow?_isSome (k := k) (ρ := ρ), hr]
    rfl
  -- the entity reads as it did before it was made
  have hentity : ∀ n, (g.put id r).entity n = g.entity n := by
    intro n
    by_cases hn : id.node = n
    · rw [← hn, entity_put, Recorded.Lawful.entity_node (ρ := ρ), get_of_not_contains hc hr]
    · exact entity_put_of_ne hl hn
  have hpresent : g.present id.node := by rw [Graph.present, hrow, Bool.or_true]
  have halike := Alike.of_put hl hpresent
  refine ⟨halike, hentity, contains_put, made_put hpresent, rfl, rfl, fun h => h, fun _ => rfl,
    ?_, Or.inl⟩
  intro e c
  rw [Graph.noted, Graph.noted, halike.stored]
  · rfl
  · exact congrArg (fun e => (Entity.origin? e).getD .inMemory) (hentity _)

/-- A back-reference that has not been read is recorded as it reads. -/
theorem of_fill {e : Edge} {c : Key} (hc : children ⟨e.childKind, c⟩)
    (hn : g.owners.get? (e, c) = none)
    (ho : ∀ o, g.noted e c = some o → g.entities.contains o) :
    g.Asked children ((ownerSlot e c).publish (g.noted e c) g) := by
  have halike : g.Alike ((ownerSlot e c).publish (g.noted e c) g) :=
    ⟨fun _ => rfl, fun _ _ _ => rfl⟩
  have hget : ∀ key, ((ownerSlot e c).publish (g.noted e c) g).owners.get? key =
      if (e, c) = key then some (g.noted e c) else g.owners.get? key :=
    fun key => Index.get?_set _ _ _ _
  refine ⟨halike, fun _ => rfl, id, contains_present, rfl, rfl, ?_, ?_, ?_, ?_⟩
  · intro e' c' v hv
    rw [hget, if_neg]
    · exact hv
    · intro h
      rw [← h, hn] at hv
      cases hv
  · intro e' c' hc'
    rw [hget, if_neg]
    intro h
    obtain ⟨rfl, rfl⟩ := Prod.mk.inj h
    exact hc' hc
  · intro e' c'
    rw [Graph.noted, hget, halike.stored rfl]
    split
    · next h =>
      rw [← (Prod.mk.inj h).1, ← (Prod.mk.inj h).2]
      rfl
    · rfl
  · intro e' c' o hv
    rw [hget] at hv
    split at hv
    · exact Or.inr (ho o (Option.some.inj hv))
    · exact Or.inl hv

end Asked
end Graph

/-! ## The computations that ask -/

section Keeps

variable {children : Node → Prop}

theorem keepsAsked_shared {k : Kind} {ρ : Type} [Recorded k ρ] [Recorded.Rowed k]
    (loader place : Nat) : Keeps (Asked children) (shared k loader place) := by
  intro g
  rw [shared_run]
  split
  · exact Asked.refl g
  · next hc =>
    split
    · exact Asked.refl g
    · next r hr => exact Asked.of_put hc hr

theorem keepsAsked_rowAt {α : Type} (table : Store → List α) (loader rid : Nat) :
    Keeps (Asked children) (rowAt table loader rid) := fun g => Asked.refl g

theorem keepsAsked_parent? (loader : Nat) (relation : Relation) (child : Token) :
    Keeps (Asked children) (parent? loader relation child) := fun g => Asked.refl g

theorem keepsAsked_typeOrMethod (loader : Nat) (index : CodedIndex) :
    Keeps (Asked children) (typeOrMethod loader index) := by
  unfold typeOrMethod
  split
  · split
    · exact (keepsAsked_shared _ _).bind fun _ => Keeps.pure _
    · exact (keepsAsked_shared _ _).bind fun _ => Keeps.pure _
    · exact Keeps.pure _
  · exact Keeps.pure _

theorem keepsAsked_storedOwner (e : Edge) (loader rid : Nat) :
    Keeps (Asked children) (Ownership.storedOwner e loader rid) := by
  unfold Ownership.storedOwner
  cases e with
  | moduleTypes => exact (keepsAsked_parent? _ _ _).bind fun _ => Keeps.pure _
  | nestedTypes | fields | methods | properties | events | params =>
    refine (keepsAsked_parent? _ _ _).bind fun owner => ?_
    cases owner with
    | none => exact Keeps.pure _
    | some owner =>
      exact Keeps.ite ((keepsAsked_shared _ _).bind fun _ => Keeps.pure _) (Keeps.pure _)
  | genericParams =>
    refine (keepsAsked_rowAt _ _ _).bind fun row => ?_
    cases row with
    | none => exact Keeps.pure _
    | some row => exact keepsAsked_typeOrMethod _ _
  | assemblyModules => exact Keeps.pure _

theorem shared_container {k : Kind} {ρ : Type} [Recorded k ρ] [Recorded.Rowed k] {g : Graph}
    {l p : Nat} {o : Node} (h : ((shared k l p).run g).1.map Id.node = some o) :
    ((shared k l p).run g).2.entities.contains o ∧ o.kind = k := by
  rw [shared_value] at h
  split at h
  · next hp =>
    cases h
    exact ⟨shared_contains g l p hp, rfl⟩
  · cases h

/-- Where the store says that a child is, there is a container. -/
theorem storedOwner_container {g : Graph} {e : Edge} {l rid : Nat} {o : Node}
    (hl : (g.loader? l).isSome) (h : ((Ownership.storedOwner e l rid).run g).1 = some o) :
    ((Ownership.storedOwner e l rid).run g).2.entities.contains o ∧ o.kind ∈ e.ownerKinds := by
  unfold Ownership.storedOwner at h ⊢
  cases e with
  | moduleTypes =>
    have hm : (if ((g.store? l).bind fun s => s.parent? .typeDefs (Token.ofParts .typeDef rid)) =
        some Store.moduleToken then some (⟨.module, .built l⟩ : Node) else none) = some o := h
    -- a module that is open has been made
    have hmodule : g.entities.contains ⟨.module, .built l⟩ := by
      unfold Graph.loader? at hl
      unfold Index.contains
      cases he : g.entities.get? ⟨.module, .built l⟩ with
      | none =>
        rw [he] at hl
        cases hl
      | some _ => rfl
    split at hm
    · cases hm
      exact ⟨hmodule, List.mem_singleton.mpr rfl⟩
    · cases hm
  | nestedTypes | fields | methods | properties | events | params =>
    simp only [run_bind, parent?_run] at h ⊢
    split at h
    · cases h
    · split at h
      · next ht =>
        rw [if_pos ht]
        exact (shared_container h).imp_right fun hk => List.mem_singleton.mpr hk
      · cases h
  | genericParams =>
    simp only [run_bind, rowAt_run] at h ⊢
    split at h
    · cases h
    · unfold typeOrMethod at h ⊢
      split at h
      · next hvalid =>
        rw [if_pos hvalid]
        split at h
        · exact (shared_container h).imp_right fun hk => List.mem_cons.mpr (Or.inl hk)
        · refine (shared_container h).imp_right fun hk => ?_
          exact List.mem_cons_of_mem _ (List.mem_singleton.mpr hk)
        · cases h
      · cases h
  | assemblyModules => cases h

theorem stored_container {g : Graph} {e : Edge} {c : Key} {o : Node} (h : g.stored e c = some o) :
    ((fromStore (g.origin ⟨e.childKind, c⟩) none (Ownership.storedOwner e)).run g).2.entities.contains
      o ∧ o.kind ∈ e.ownerKinds := by
  unfold stored fromStore at *
  rw [run_get_bind] at *
  cases horigin : g.origin ⟨e.childKind, c⟩ with
  | inMemory =>
    rw [horigin] at h
    cases h
  | row l rid =>
    rw [horigin] at h
    by_cases hl : (g.loader? l).isSome
    · have hreader : g.reader? (.row l rid) = some (l, rid) := if_pos hl
      rw [hreader] at h ⊢
      exact storedOwner_container hl h
    · have hreader : g.reader? (.row l rid) = none := if_neg hl
      rw [hreader] at h
      cases h

theorem keepsAsked_stored {children : Node → Prop} (g : Graph) (e : Edge) (c : Key) :
    g.Asked children
      ((fromStore (g.origin ⟨e.childKind, c⟩) none (Ownership.storedOwner e)).run g).2 :=
  keeps_fromStore (keepsAsked_storedOwner e) g

/-- Reading a back-reference: what it gives, and what is recorded then. -/
theorem owner_run (g : Graph) (e : Edge) (c : Key) :
    g.Asked (· = ⟨e.childKind, c⟩) ((Ownership.owner e c).run g).2 ∧
      ((Ownership.owner e c).run g).1 = (g.noted e c).filter g.alive ∧
      ((Ownership.owner e c).run g).2.owners.get? (e, c) = some (g.noted e c) := by
  let compute := fromStore (g.origin ⟨e.childKind, c⟩) none (Ownership.storedOwner e)
  have hrun : (Ownership.owner e c).run g =
      ((((ownerSlot e c).getRelaxed compute).run g).1.filter
        (((ownerSlot e c).getRelaxed compute).run g).2.alive,
        (((ownerSlot e c).getRelaxed compute).run g).2) := rfl
  have hcompute : g.Asked (· = ⟨e.childKind, c⟩) (compute.run g).2 := keepsAsked_stored g e c
  rw [hrun]
  cases hg : g.owners.get? (e, c) with
  | some v =>
    have hnoted : g.noted e c = v := by rw [noted, hg]; rfl
    rw [getRelaxed_held (show (ownerSlot e c).peek g = some v from hg), hnoted]
    exact ⟨Asked.refl g, rfl, hg⟩
  | none =>
    -- what is computed is what the store says, whether or not it is published
    have hnoted : g.noted e c = (compute.run g).1 := by rw [noted, hg]; rfl
    cases hv : (compute.run g).2.owners.get? (e, c) with
    | some v =>
      -- it has been filled on the way, with the same
      have hsame : v = g.noted e c := by rw [← hcompute.noted, noted, hv]; rfl
      rw [getRelaxed_filled (show (ownerSlot e c).peek g = none from hg)
        (show (ownerSlot e c).peek (compute.run g).2 = some v from hv), hsame]
      exact ⟨hcompute, congrArg (Option.filter · (g.noted e c)) (funext hcompute.alive), hsame ▸ hv⟩
    | none =>
      have hsame : (compute.run g).1 = (compute.run g).2.noted e c := by
        rw [hcompute.noted, hnoted]
      rw [getRelaxed_empty (show (ownerSlot e c).peek g = none from hg)
        (show (ownerSlot e c).peek (compute.run g).2 = none from hv), hnoted, hsame]
      have hcontainer : ∀ o, (compute.run g).2.noted e c = some o →
          (compute.run g).2.entities.contains o := by
        intro o ho
        rw [← hsame] at ho
        exact (stored_container ho).1
      have hrecord : (compute.run g).2.Asked (· = ⟨e.childKind, c⟩) _ :=
        Asked.of_fill rfl hv hcontainer
      have hfill := hcompute.trans hrecord
      exact ⟨hfill, congrArg (Option.filter · _) (funext hfill.alive), Index.get?_set_same _ _ _⟩

end Keeps
end CliMetadata
