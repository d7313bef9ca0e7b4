import CliMetadata.Graph.Types
import Mathlib.Order.Defs.Unbundled

/-!
# Later graphs

Reading an entity changes the graph: slots are filled, entities of rows are made,
private copies and what is carried get numbers of their own.  But nothing that was
there before is lost by it.  `Graph.Later g g'` says so: `g'` is `g` after some
reading.  **Slots that are filled stay as they are** and columns do not change
(`Entity.Le`), modules stay open, entities stay alive, and a list or a
back-reference that has been read is not read again.

The statements about entities are for those that are **known**: numbers are given
out in order (`Graph.built`), and only a number that has been given out already is
safe from being given to an entity that is yet to be made.  `Graph.Closed` says that the
lists of a graph hold nothing else.  A reference to a type is safe in any case, since
reading makes none but those of rows.

`Keeps R x` says that a computation leads from every state to one in the relation
`R` with it.  It follows the way in which the computation is built, and so each
accessor of the library needs one line.
-/

namespace CliMetadata

/-! ## Running computations over a state -/

namespace Stateful

variable {σ α β : Type} (s : σ)

theorem run_pure (a : α) : (pure a : StateM σ α).run s = (a, s) := rfl

theorem run_bind (x : StateM σ α) (f : α → StateM σ β) :
    (x >>= f).run s = (f (x.run s).1).run (x.run s).2 := rfl

theorem run_get_bind (f : σ → StateM σ β) : (get >>= f).run s = (f s).run s := rfl

end Stateful

/-- Every run of a computation ends in a state that is in the relation with the one it
began in. -/
def Keeps {σ α : Type} (R : σ → σ → Prop) (x : StateM σ α) : Prop :=
  ∀ s, R s (x.run s).2

namespace Keeps

variable {σ α β : Type} {R : σ → σ → Prop}

theorem result {x : StateM σ α} (hx : Keeps R x) {s s' : σ} {a : α} (h : x.run s = (a, s')) :
    R s s' := by
  have hrun := hx s
  rwa [h] at hrun

section Preorder
variable [IsPreorder σ R]

theorem pure (a : α) : Keeps R (Pure.pure a : StateM σ α) := fun s => refl_of R s

theorem get : Keeps R (MonadState.get : StateM σ σ) := fun s => refl_of R s

theorem bind {x : StateM σ α} {f : α → StateM σ β} (hx : Keeps R x) (hf : ∀ a, Keeps R (f a)) :
    Keeps R (x >>= f) := fun s => trans_of R (hx s) (hf _ _)

/-- A list is gone through entry by entry. -/
theorem mapM {f : α → StateM σ β} (hf : ∀ a, Keeps R (f a)) : ∀ as : List α, Keeps R (as.mapM f)
  | [] => pure []
  | a :: as => by
    rw [List.mapM_cons]
    exact (hf a).bind fun _ => (mapM hf as).bind fun _ => pure _

end Preorder

theorem map {f : α → β} {x : StateM σ α} (hx : Keeps R x) : Keeps R (f <$> x) := hx

theorem ite {c : Prop} [Decidable c] {x y : StateM σ α} (hx : Keeps R x) (hy : Keeps R y) :
    Keeps R (if c then x else y) := by
  split
  · exact hx
  · exact hy

/-- The continuation of a computation that gives something or nothing. -/
theorem option {x : Option α} {y : StateM σ β} {f : α → StateM σ β} (hy : Keeps R y)
    (hf : ∀ a, Keeps R (f a)) :
    Keeps R (match x with | none => y | some a => f a) := by
  cases x with
  | none => exact hy
  | some a => exact hf a

end Keeps

/-- A sort of computations over a graph: those that do nothing are of it, and so is one of it after
another. -/
structure Sequential (C : (α : Type) → GraphM α → Prop) : Prop where
  pure : ∀ {α : Type} (a : α), C α (Pure.pure a)
  bind : ∀ {α β : Type} {x : GraphM α} {f : α → GraphM β},
    C α x → (∀ a, C β (f a)) → C β (x >>= f)

theorem Keeps.sequential {R : Graph → Graph → Prop} [IsPreorder Graph R] :
    Sequential fun _ x => Keeps R x := ⟨Keeps.pure, Keeps.bind⟩

/-- Where a state has a property, a computation gives a value, and the state keeps the
property. -/
def Yields {σ α : Type} (S : σ → Prop) (x : StateM σ α) (a : α) : Prop :=
  ∀ s, S s → (x.run s).1 = a ∧ S (x.run s).2

namespace Yields

variable {σ α β : Type} {S : σ → Prop}

theorem pure (a : α) : Yields S (Pure.pure a) a := fun _ hs => ⟨rfl, hs⟩

theorem bind {x : StateM σ α} {f : α → StateM σ β} {a : α} {b : β} (hx : Yields S x a)
    (hf : Yields S (f a) b) : Yields S (x >>= f) b := by
  intro s hs
  obtain ⟨hvalue, hkept⟩ := hx s hs
  rw [Stateful.run_bind, hvalue]
  exact hf _ hkept

theorem map {x : StateM σ α} {a : α} (f : α → β) (hx : Yields S x a) : Yields S (f <$> x) (f a) :=
  fun s hs => ⟨congrArg f (hx s hs).1, (hx s hs).2⟩

/-- A list is read entry by entry. -/
theorem mapM {f : α → StateM σ β} {value : α → β} : ∀ {xs : List α},
    (∀ x ∈ xs, Yields S (f x) (value x)) → Yields S (xs.mapM f) (xs.map value)
  | [], _ => pure []
  | x :: xs, h => by
    rw [List.mapM_cons]
    refine (h x List.mem_cons_self).bind ?_
    exact (mapM fun y hy => h y (List.mem_cons_of_mem _ hy)).bind (pure _)

end Yields

/-- Where a state has a property, a computation gives one value, which does not depend on
the state and has a property of its own. -/
def Settles {σ α : Type} (S : σ → Prop) (x : StateM σ α) (P : α → Prop) : Prop :=
  ∃ a, Yields S x a ∧ P a

namespace Settles

variable {σ α β : Type} {S : σ → Prop} {x : StateM σ α} {P : α → Prop} {Q : β → Prop}

theorem pure {a : α} (h : P a) : Settles S (Pure.pure a) P := ⟨a, .pure a, h⟩

theorem bind {f : α → StateM σ β} (hx : Settles S x P) (hf : ∀ a, P a → Settles S (f a) Q) :
    Settles S (x >>= f) Q := by
  obtain ⟨a, ha, hp⟩ := hx
  obtain ⟨b, hb, hq⟩ := hf a hp
  exact ⟨b, ha.bind hb, hq⟩

/-- What comes after a computation whose value is known. -/
theorem after {f : α → StateM σ β} {a : α} (hx : Yields S x a) (hf : Settles S (f a) Q) :
    Settles S (x >>= f) Q := by
  obtain ⟨b, hb, hq⟩ := hf
  exact ⟨b, hx.bind hb, hq⟩

theorem map {f : α → β} (hx : Settles S x P) (hf : ∀ a, P a → Q (f a)) : Settles S (f <$> x) Q := by
  obtain ⟨a, ha, hp⟩ := hx
  exact ⟨f a, fun s hs => ⟨congrArg f (ha s hs).1, (ha s hs).2⟩, hf a hp⟩

/-- What is read off the state, where it is the same in all of them. -/
theorem reads {f : σ → α} {a : α} (hf : ∀ s, S s → f s = a) (h : P a) :
    Settles S (do return f (← get)) P :=
  ⟨a, fun s hs => ⟨hf s hs, hs⟩, h⟩

/-- The value is what the computation gives in any of the states. -/
theorem value (h : Settles S x P) {s : σ} (hs : S s) : Yields S x (x.run s).1 ∧ P (x.run s).1 := by
  obtain ⟨a, ha, hp⟩ := h
  rw [(ha s hs).1]
  exact ⟨ha, hp⟩

end Settles

/-- Where a state has a property, a test answers whether something is so. -/
abbrev Decides {σ : Type} (S : σ → Prop) (x : StateM σ Bool) (p : Prop) : Prop :=
  Settles S x fun b => b = true ↔ p

namespace Decides

variable {σ : Type} {S : σ → Prop} {x y : StateM σ Bool} {p q : Prop}

theorem congr (h : Decides S x p) (hpq : p ↔ q) : Decides S x q := by
  obtain ⟨b, hb, hp⟩ := h
  exact ⟨b, hb, hp.trans hpq⟩

theorem refute (h : ¬p) : Decides S (pure false) p := .pure (by simp [h])

/-- A test that is made once another one has been passed. -/
theorem andThen (hx : Decides S x p) (hy : p → Decides S y q) :
    Decides S (do if ← x then y else return false) (p ∧ q) := by
  refine Settles.bind hx fun b hb => ?_
  cases b with
  | false => exact refute fun h => Bool.false_ne_true (hb.mpr h.1)
  | true => exact (hy (hb.mp rfl)).congr ⟨fun h => ⟨hb.mp rfl, h⟩, fun h => h.2⟩

/-- A test that is made once another one has failed. -/
theorem orElse (hx : Decides S x p) (hy : ¬p → Decides S y q) :
    Decides S (do if ← x then return true else y) (p ∨ q) := by
  refine Settles.bind hx fun b hb => ?_
  cases b with
  | true => exact .pure (by simp [hb.mp rfl])
  | false =>
    have hp : ¬p := fun h => Bool.false_ne_true (hb.mpr h)
    exact (hy hp).congr (or_iff_right hp).symm

/-- A test that is made where a condition holds. -/
theorem where_ {c : Prop} [Decidable c] (hx : c → Decides S x p) :
    Decides S (if c then x else return false) (c ∧ p) := by
  split
  · next hc => exact (hx hc).congr ⟨fun h => ⟨hc, h⟩, fun h => h.2⟩
  · next hc => exact refute fun h => hc h.1

end Decides

/-! ## Slots and entities -/

variable {α : Type}

/-- A slot that holds nothing, or the same. -/
def Slot.Le (s t : Slot α) : Prop := s = none ∨ s = t

theorem Slot.Le.refl (s : Slot α) : s.Le s := Or.inr rfl

theorem Slot.Le.trans {s t u : Slot α} (h : s.Le t) (k : t.Le u) : s.Le u := by
  rcases h with h | rfl
  · exact Or.inl h
  · exact k

theorem Slot.Le.held {s t : Slot α} (h : s.Le t) {v : α} (hv : s = some v) : t = some v := by
  rcases h with h | h
  · rw [h] at hv
    cases hv
  · rw [← h, hv]

theorem Slot.Le.fill {s : Slot α} (h : s = none) (v : α) : s.Le (some v) := Or.inl h

/-- An entity with more of its slots filled. -/
inductive Entity.Le : Entity → Entity → Prop
  | same (e : Entity) : Le e e
  | module {e e' : Module} (exportedTypes : e.exportedTypes.Le e'.exportedTypes)
      (resources : e.resources.Le e'.resources)
      (columns : e' = { e with exportedTypes := e'.exportedTypes, resources := e'.resources }) :
      Le (.module e) (.module e')
  | typeRef {e e' : TypeRef} (scope : e.scope.Le e'.scope)
      (columns : e' = { e with scope := e'.scope }) : Le (.typeRef e) (.typeRef e')
  | exportedType {e e' : ExportedType} (implementation : e.implementation.Le e'.implementation)
      (columns : e' = { e with implementation := e'.implementation }) :
      Le (.exportedType e) (.exportedType e')

namespace Entity.Le

variable {e e' e'' : Entity}

theorem trans (h : e.Le e') (k : e'.Le e'') : e.Le e'' := by
  cases h with
  | same => exact k
  | module exportedTypes resources columns =>
    cases k with
    | same => exact .module exportedTypes resources columns
    | module exportedTypes' resources' columns' =>
      refine .module (exportedTypes.trans exportedTypes') (resources.trans resources') ?_
      rw [columns', columns]
  | typeRef scope columns =>
    cases k with
    | same => exact .typeRef scope columns
    | typeRef scope' columns' =>
      refine .typeRef (scope.trans scope') ?_
      rw [columns', columns]
  | exportedType implementation columns =>
    cases k with
    | same => exact .exportedType implementation columns
    | exportedType implementation' columns' =>
      refine .exportedType (implementation.trans implementation') ?_
      rw [columns', columns]

theorem of_typeRef {r r' : TypeRef} (h : (Entity.typeRef r).Le (.typeRef r')) :
    r.scope.Le r'.scope ∧ r' = { r with scope := r'.scope } := by
  cases h with
  | same => exact ⟨.refl _, rfl⟩
  | typeRef scope columns => exact ⟨scope, columns⟩

theorem of_typeDef {t t' : TypeDef} (h : (Entity.typeDef t).Le (.typeDef t')) : t' = t := by
  cases h
  rfl

end Entity.Le

/-! ## Looking entities up in changed graphs -/

/-- The structure of a kind that `Graph.entity` reads it by. -/
class Recorded.Lawful (k : Kind) {ρ : Type} [Recorded k ρ] : Prop where
  entity_node : ∀ (g : Graph) (id : Id k), g.entity id.node = Recorded.pack k (g.get id)

instance : Recorded.Lawful .module := ⟨fun _ _ => rfl⟩
instance : Recorded.Lawful .typeDef := ⟨fun _ _ => rfl⟩
instance : Recorded.Lawful .typeRef := ⟨fun _ _ => rfl⟩
instance : Recorded.Lawful .field := ⟨fun _ _ => rfl⟩
instance : Recorded.Lawful .methodDef := ⟨fun _ _ => rfl⟩
instance : Recorded.Lawful .param := ⟨fun _ _ => rfl⟩
instance : Recorded.Lawful .property := ⟨fun _ _ => rfl⟩
instance : Recorded.Lawful .event := ⟨fun _ _ => rfl⟩
instance : Recorded.Lawful .memberRef := ⟨fun _ _ => rfl⟩
instance : Recorded.Lawful .genericParam := ⟨fun _ _ => rfl⟩
instance : Recorded.Lawful .assemblyRef := ⟨fun _ _ => rfl⟩
instance : Recorded.Lawful .moduleRef := ⟨fun _ _ => rfl⟩
instance : Recorded.Lawful .file := ⟨fun _ _ => rfl⟩
instance : Recorded.Lawful .exportedType := ⟨fun _ _ => rfl⟩
instance : Recorded.Lawful .customAttribute := ⟨fun _ _ => rfl⟩
instance : Recorded.Lawful .assembly := ⟨fun _ _ => rfl⟩
instance : Recorded.Lawful .typeSpec := ⟨fun _ _ => rfl⟩
instance : Recorded.Lawful .methodSpec := ⟨fun _ _ => rfl⟩
instance : Recorded.Lawful .constraint := ⟨fun _ _ => rfl⟩
instance : Recorded.Lawful .resource := ⟨fun _ _ => rfl⟩
instance : Recorded.Lawful .constant := ⟨fun _ _ => rfl⟩
instance : Recorded.Lawful .implMap := ⟨fun _ _ => rfl⟩
instance : Recorded.Lawful .security := ⟨fun _ _ => rfl⟩

namespace Graph

variable {g g' : Graph} {k : Kind} {ρ : Type} [Recorded k ρ]

/-- Two graphs that hold the same at an entity and open the same modules read the
entity alike. -/
theorem get_congr (id : Id k) (he : g'.entities.get? id.node = g.entities.get? id.node)
    (hl : ∀ l, g'.loader? l = g.loader? l) : g'.get id = g.get id := by
  have hs : ∀ l, g'.store? l = g.store? l := fun l => congrArg (Option.map _) (hl l)
  unfold get
  rw [he]
  simp only [hs]

theorem entity_congr {n : Node} (he : g'.entities.get? n = g.entities.get? n)
    (hl : ∀ l, g'.loader? l = g.loader? l) : g'.entity n = g.entity n := by
  obtain ⟨kind, key⟩ := n
  cases kind <;> exact congrArg _ (get_congr ⟨key⟩ he hl)

theorem get_put (id : Id k) (r : ρ) : (g.put id r).get id = r := by
  simp [get, put, Recorded.unpack?_pack]

theorem entity_put [Recorded.Lawful k] (id : Id k) (r : ρ) :
    (g.put id r).entity id.node = Recorded.pack k r :=
  (Recorded.Lawful.entity_node _ id).trans (congrArg _ (get_put id r))

theorem loader?_put (hk : k ≠ .module) (id : Id k) (r : ρ) (l : Nat) :
    (g.put id r).loader? l = g.loader? l := by
  have hne : id.node ≠ ⟨.module, .built l⟩ := fun h => hk (congrArg Node.kind h)
  simp only [loader?, put, Index.get?_set_other _ _ hne]

/-- What is an entity's own does not depend on what another one's is. -/
theorem entity_put_of_ne {id : Id k} {r : ρ} {n : Node}
    (hl : ∀ l, (g.put id r).loader? l = g.loader? l) (hn : id.node ≠ n) :
    (g.put id r).entity n = g.entity n :=
  entity_congr (Index.get?_set_other _ _ hn) hl

theorem alive_put {id : Id k} {r : ρ} (hl : ∀ l, (g.put id r).loader? l = g.loader? l) {n : Node}
    (h : g.alive n) : (g.put id r).alive n := by
  unfold alive at h ⊢
  simp only [hl]
  rw [Bool.or_eq_true] at h ⊢
  refine h.imp_left fun hc => ?_
  simp only [put, Index.contains, Index.get?_set] at hc ⊢
  split
  · rfl
  · exact hc

/-! ## The relation -/

/-- A row, or a number that has been given out. -/
def Known (g : Graph) : Key → Prop
  | .built number => number < g.built
  | .row _ _ => True

theorem Known.mono (hb : g.built ≤ g'.built) {key : Key} (h : g.Known key) : g'.Known key := by
  cases key with
  | built number => exact Nat.lt_of_lt_of_le h hb
  | row => exact trivial

/-- **The graph after some reading.** -/
structure Later (g g' : Graph) : Prop where
  built : g.built ≤ g'.built
  loader : ∀ l, g'.loader? l = g.loader? l
  alive : ∀ {n}, g.alive n → g'.alive n
  entity : ∀ {n}, g.Known n.key ∨ n.kind = .typeRef → (g.entity n).Le (g'.entity n)
  list : ∀ {e o cs}, g.lists.get? (e, o) = some cs → g'.lists.get? (e, o) = some cs
  owner : ∀ {e c o}, g.Known c → g.alive o → g.owners.get? (e, c) = some (some o) →
    g'.owners.get? (e, c) = some (some o)
  /-- A list that has been read lists what is known. -/
  listed : ∀ {e o cs c}, g'.lists.get? (e, o) = some cs → c ∈ cs →
    g'.Known c ∨ g.lists.get? (e, o) = some cs

namespace Later

variable {g'' : Graph}

theorem refl (g : Graph) : g.Later g where
  built := Nat.le_refl _
  loader _ := rfl
  alive h := h
  entity _ := .same _
  list h := h
  owner _ _ h := h
  listed h _ := Or.inr h

theorem trans (h : g.Later g') (k : g'.Later g'') : g.Later g'' where
  built := Nat.le_trans h.built k.built
  loader l := (k.loader l).trans (h.loader l)
  alive ha := k.alive (h.alive ha)
  entity hn := (h.entity hn).trans (k.entity (hn.imp_left (Known.mono h.built)))
  list hl := k.list (h.list hl)
  owner hc ho hs := k.owner (hc.mono h.built) (h.alive ho) (h.owner hc ho hs)
  listed hl hc := by
    rcases k.listed hl hc with hk | hl'
    · exact Or.inl hk
    · exact (h.listed hl' hc).imp_left (Known.mono k.built)

instance : IsPreorder Graph Later where
  refl := refl
  trans _ _ _ := trans

/-- A change of the entities alone. -/
theorem of_entities (hlists : g'.lists = g.lists) (howners : g'.owners = g.owners)
    (built : g.built ≤ g'.built) (loader : ∀ l, g'.loader? l = g.loader? l)
    (alive : ∀ {n}, g.alive n → g'.alive n)
    (entity : ∀ {n}, g.Known n.key ∨ n.kind = .typeRef → (g.entity n).Le (g'.entity n)) :
    g.Later g' where
  built := built
  loader := loader
  alive := alive
  entity := entity
  list h := hlists ▸ h
  owner _ _ h := howners ▸ h
  listed h _ := Or.inr (hlists ▸ h)

/-- A change of nothing that reading depends on. -/
theorem of_eq (hlists : g'.lists = g.lists) (howners : g'.owners = g.owners)
    (hentities : g'.entities = g.entities) (hbuilt : g'.built = g.built) : g.Later g' := by
  have hl : ∀ l, g'.loader? l = g.loader? l := fun l => by
    unfold Graph.loader?
    rw [hentities]
  refine of_entities hlists howners (Nat.le_of_eq hbuilt.symm) hl ?_ ?_
  · intro n h
    unfold Graph.alive at h ⊢
    simpa only [hl, hentities] using h
  · intro n _
    rw [entity_congr (by rw [hentities]) hl]
    exact .same _

/-- An entity is given other contents, with more of its slots filled. -/
theorem of_put {k : Kind} {ρ : Type} [Recorded k ρ] [Recorded.Lawful k] {id : Id k} {r : ρ}
    (hl : ∀ l, (g.put id r).loader? l = g.loader? l)
    (he : (g.entity id.node).Le (Recorded.pack k r)) : g.Later (g.put id r) := by
  refine of_entities rfl rfl (Nat.le_refl _) hl (alive_put hl) fun {n} _ => ?_
  by_cases hid : id.node = n
  · subst hid
    rw [entity_put]
    exact he
  · rw [entity_put_of_ne hl hid]
    exact .same _

/-- What is written down is what was read already. -/
theorem of_put_same {k : Kind} {ρ : Type} [Recorded k ρ] [Recorded.Lawful k] {id : Id k} {r : ρ}
    (hl : ∀ l, (g.put id r).loader? l = g.loader? l)
    (he : g.entity id.node = Recorded.pack k r) : g.Later (g.put id r) :=
  of_put hl (he ▸ .same _)

/-- A slot that is empty is filled. -/
theorem of_update {k : Kind} {ρ : Type} [Recorded k ρ] [Recorded.Lawful k] {id : Id k}
    {f : ρ → ρ} (hl : ∀ l, (g.update id f).loader? l = g.loader? l)
    (he : (Recorded.pack k (g.get id)).Le (Recorded.pack k (f (g.get id)))) :
    g.Later (g.update id f) := by
  refine of_put hl ?_
  rw [Recorded.Lawful.entity_node (ρ := ρ)]
  exact he

end Later

/-! ## Closed graphs -/

/-- **What the lists of a graph hold is known.** -/
structure Closed (g : Graph) : Prop where
  listed : ∀ {e o cs c}, g.lists.get? (e, o) = some cs → c ∈ cs → g.Known c

/-- Reading keeps a graph closed. -/
theorem Closed.later (h : g.Closed) (k : g.Later g') : g'.Closed where
  listed hl hc := by
    rcases k.listed hl hc with hknown | hl'
    · exact hknown
    · exact (h.listed hl' hc).mono k.built

/-- So does what leaves the lists alone. -/
theorem Closed.of_lists (h : g.Closed) (hlists : g'.lists = g.lists) (built : g.built ≤ g'.built) :
    g'.Closed where
  listed hl hc := (h.listed (hlists ▸ hl) hc).mono built

end Graph

end CliMetadata
