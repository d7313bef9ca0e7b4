import CliMetadata.Proofs.Graph.ReadCalls

/-!
# Reading again

What has been read is read again as it was.  A computation is run from a graph `g`, the graph that
this leads to is read in some way or other, and then the computation is run once more, or one like
it over references that have been made anew: `Again P x y Q` says that what the two runs give is
related by `Q`, where the graphs that they begin in have `P`.  The second run **takes nothing over**
(`Graph.Rested`), since whatever it reads has been read.

What is assumed of the two graphs and what is said of the two results are **facts that reading
leaves as they are** (`Fact`), and so whatever is known at some point of the runs is known from then
on.  `Rereads P x y Q` is for computations that give the same, which has the property `Q`; it
follows the way in which a computation is built (`Rereads.bind`).

Slots and lists are read as they were (`rereads_slot`, `items_rereads`).  A back-reference is as
well, **unless it is the back-reference of an orphan that has been taken over** (`owner_rereads`).
-/

namespace CliMetadata

open CliMetadata.Graph Loading Stateful

/-! ## Taking nothing over -/

namespace Graph

variable {g g' g'' : Graph}

/-- **The graph after reading that takes nothing over**: every back-reference reads as before. -/
structure Rested (g g' : Graph) : Prop extends Perused g g' where
  alike : ∀ {e c}, g.Certain e c → g'.noted e c = g.noted e c

namespace Rested

theorem refl (g : Graph) : g.Rested g where
  toPerused := .refl g
  alike _ := rfl

theorem trans (h : g.Rested g') (k : g'.Rested g'') : g.Rested g'' where
  toPerused := h.toPerused.trans k.toPerused
  alike hc := (k.alike (hc.mono h.built)).trans (h.alike hc)

end Rested

/-- Reading leads from a graph that it can rely on to another one and takes nothing over. -/
def Rests (g g' : Graph) : Prop := g.Grounded → g'.Grounded ∧ g.Rested g'

instance : IsPreorder Graph Rests where
  refl g h := ⟨h, .refl g⟩
  trans _ _ _ h k hg := ⟨(k (h hg).1).1, (h hg).2.trans (k (h hg).1).2⟩

/-- Asking for back-references takes nothing over. -/
theorem Rests.of_asked {children : Node → Prop} (h : g.Asked children g') : g.Rests g' :=
  fun hg => ⟨(Peruses.of_asked h hg).1, (Peruses.of_asked h hg).2, fun _ => h.noted _ _⟩

end Graph

theorem owner_rests (e : Edge) (c : Key) : Keeps Rests (Ownership.owner e c) :=
  fun g => .of_asked (owner_run g e c).1

/-- **No type has been taken over**: of what the stores list as nested in some type, and the first
graph has in no type and in no module, the second has nothing nested in a type either. -/
def Graph.Calm (g u : Graph) : Prop := ∀ c, g.Orphan .nestedTypes c → u.noted .nestedTypes c = none

/-! ## Facts -/

/-- **What is known of two graphs and stays known** while both are read, the second one without
taking anything over. -/
structure Fact where
  holds : Graph → Graph → Prop
  stays : ∀ {g u g' u' : Graph}, holds g u → g.Perused g' → u.Rested u' → holds g' u'

namespace Fact

/-- What does not depend on the graphs. -/
def of (φ : Prop) : Fact := ⟨fun _ _ => φ, fun h _ _ => h⟩

/-- Two facts. -/
def and (P Q : Fact) : Fact :=
  ⟨fun g u => P.holds g u ∧ Q.holds g u, fun h hg hu => h.imp (P.stays · hg hu) (Q.stays · hg hu)⟩

/-- One of two facts. -/
def or (P Q : Fact) : Fact :=
  ⟨fun g u => P.holds g u ∨ Q.holds g u, fun h hg hu => h.imp (P.stays · hg hu) (Q.stays · hg hu)⟩

/-- A fact about every entry of a list. -/
def all {α : Type} (xs : List α) (Q : α → Fact) : Fact :=
  ⟨fun g u => ∀ x ∈ xs, (Q x).holds g u, fun h hg hu x hx => (Q x).stays (h x hx) hg hu⟩

/-- A fact about what there is. -/
def maybe {α : Type} (o : Option α) (Q : α → Fact) : Fact := all o.toList Q

/-- Two lists whose entries are related pairwise. -/
def forall₂ {α : Type} (Q : α → α → Fact) (xs ys : List α) : Fact :=
  ⟨fun g u => List.Forall₂ (fun x y => (Q x y).holds g u) xs ys,
    fun h hg hu => h.imp fun _ _ hxy => (Q _ _).stays hxy hg hu⟩

/-- Two values that are both missing, or related. -/
def both {α : Type} (Q : α → α → Fact) (x y : Option α) : Fact :=
  ⟨fun g u => Option.Rel (fun x y => (Q x y).holds g u) x y, fun h hg hu => by
    cases h with
    | some hxy => exact .some ((Q _ _).stays hxy hg hu)
    | none => exact .none⟩

/-- A key of a row, or one that has been given out in the first graph. -/
def known (c : Key) : Fact := ⟨fun g _ => g.Known c, fun h hg _ => h.mono hg.built⟩

/-- An entity that reading does not make. -/
def settled (n : Node) : Fact := ⟨fun g _ => g.Settled n, fun h hg _ => h.mono hg.built⟩

/-- An entity that exists in the first graph. -/
def alive (n : Node) : Fact := ⟨fun g _ => g.alive n, fun h hg _ => hg.alive h⟩

/-- What was nested in no type still is nested in none. -/
def calm : Fact where
  holds := Calm
  stays h hg hu c hc :=
    (hu.alike (.inl (hc.offered.isRow.known))).trans (h c (hg.orphan hc))

/-- A fact that is known wherever another one is. -/
instance : LE Fact := ⟨fun P Q => ∀ g u, P.holds g u → Q.holds g u⟩

theorem le_refl (P : Fact) : P ≤ P := fun _ _ h => h

variable {P Q : Fact}

theorem le_of {φ : Prop} (h : φ) : P ≤ of φ := fun _ _ _ => h

/-- What was known before is still known. -/
theorem before {R : Fact} (h : P ≤ R) : P.and Q ≤ R := fun g u hP => h g u hP.1

theorem maybe_none {α : Type} {G : α → Fact} : P ≤ maybe none G := fun _ _ _ => nofun

theorem maybe_some {α : Type} {G : α → Fact} {a : α} : P ≤ maybe (some a) G ↔ P ≤ G a := by
  refine ⟨fun h g u hP => h g u hP a (by simp), fun h g u hP x hx => ?_⟩
  cases Option.mem_toList.mp hx
  exact h g u hP

theorem and_left : P.and Q ≤ P := fun _ _ h => h.1

theorem and_right : P.and Q ≤ Q := fun _ _ h => h.2

theorem both_none {α : Type} {R : α → α → Fact} : P ≤ both R none none := fun _ _ _ => .none

theorem both_some {α : Type} {R : α → α → Fact} {x y : α} (h : P ≤ R x y) :
    P ≤ both R (some x) (some y) := fun g u hP => .some (h g u hP)

theorem both_map {α β : Type} {R : α → α → Fact} {S : β → β → Fact} {f f' : α → β}
    (h : ∀ a b, R a b ≤ S (f a) (f' b)) (o o' : Option α) :
    both R o o' ≤ both S (o.map f) (o'.map f') := by
  intro g u hR
  cases hR with
  | none => exact .none
  | some hR => exact .some (h _ _ g u hR)

theorem both_mono {α : Type} {R S : α → α → Fact} (h : ∀ a b, R a b ≤ S a b) (o o' : Option α) :
    both R o o' ≤ both S o o' := by
  intro g u hR
  cases hR with
  | none => exact .none
  | some hR => exact .some (h _ _ g u hR)

end Fact

/-! ## Two runs -/

/-- A state after some reading that takes nothing over. -/
def Viewed.Rests {σ : Type} [Viewed σ] (s s' : σ) : Prop := (graph s).Rests (graph s')

section Runs

variable {σ : Type} [Viewed σ] {α β γ : Type} {P P' : Fact}

/-- **A computation reads, and after it another one gives what is related to what it gave**, without
taking anything over. -/
structure Again (P : Fact) (x y : StateM σ α) (Q : α → α → Fact) : Prop where
  keeps : Keeps Viewed.Peruses x
  run : ∀ {s t : σ}, P.holds (graph s) (graph t) → (graph s).Grounded → (graph t).Grounded →
    (graph (x.run s).2).Perused (graph t) →
    ((graph (y.run t).2).Grounded ∧ (graph t).Rested (graph (y.run t).2)) ∧
      (Q (x.run s).1 (y.run t).1).holds (graph (x.run s).2) (graph (y.run t).2)

/-- The other computation gives the same, of which something is known. -/
def Rereads (P : Fact) (x y : StateM σ α) (Q : α → Fact) : Prop :=
  Again P x y fun a b => (Fact.of (b = a)).and (Q a)

namespace Again

variable {x y : StateM σ α} {Q Q' : α → α → Fact}

theorem pure {a b : α} (h : P ≤ Q a b) :
    Again P (Pure.pure a : StateM σ α) (Pure.pure b : StateM σ α) Q where
  keeps := Keeps.pure a
  run hP _ hu _ := ⟨⟨hu, .refl _⟩, h _ _ hP⟩

theorem under (h : Again P x y Q) (hP : P' ≤ P) : Again P' x y Q :=
  ⟨h.keeps, fun hP' => h.run (hP _ _ hP')⟩

theorem gives (h : Again P x y Q) (hQ : ∀ a b, Q a b ≤ Q' a b) : Again P x y Q' :=
  ⟨h.keeps, fun hP hs ht hper => (h.run hP hs ht hper).imp_right fun h => hQ _ _ _ _ h⟩

/-- One computation after another. -/
theorem bind {f f' : α → StateM σ β} {R : β → β → Fact} (h : Again P x y Q)
    (k : ∀ a b, Again (P.and (Q a b)) (f a) (f' b) R) : Again P (x >>= f) (y >>= f') R := by
  have hrest : ∀ (s : σ) (a : α), Keeps Viewed.Peruses (f a) := fun s a => (k a (y.run s).1).keeps
  refine ⟨fun s => h.keeps.bind (hrest s) s, fun {s t} hP hs ht hper => ?_⟩
  simp only [run_bind] at hper ⊢
  have hfirst := h.keeps s hs
  have hread := hrest s (x.run s).1 (x.run s).2 hfirst.1
  obtain ⟨hy, hQ⟩ := h.run hP hs ht (hread.2.trans hper)
  obtain ⟨hy', hR⟩ := (k _ _).run ⟨P.stays hP hfirst.2 hy.2, hQ⟩ hfirst.1 hy.1
    (hper.trans hy.2.toPerused)
  exact ⟨⟨hy'.1, hy.2.trans hy'.2⟩, hR⟩

/-- What was known before is still known. -/
theorem also (h : Again P x y Q) : Again P x y fun a b => P.and (Q a b) := by
  refine ⟨h.keeps, fun {s t} hP hs ht hper => ?_⟩
  obtain ⟨hy, hQ⟩ := h.run hP hs ht hper
  exact ⟨hy, P.stays hP (h.keeps s hs).2 hy.2, hQ⟩

/-- What is read is put into something. -/
theorem put_into {R : β → β → Fact} (h : Again P x y Q) (f : α → β)
    (hR : ∀ a b, Q a b ≤ R (f a) (f b)) :
    Again P (do return f (← x)) (do return f (← y)) R :=
  h.bind fun a b => .pure fun _ _ hP => hR a b _ _ hP.2

theorem map {f f' : α → β} {R : β → β → Fact} (h : Again P x y Q)
    (hR : ∀ a b, Q a b ≤ R (f a) (f' b)) : Again P (f <$> x) (f' <$> y) R :=
  ⟨h.keeps.map, fun hP hs ht hper => (h.run hP hs ht hper).imp_right fun h => hR _ _ _ _ h⟩

/-- What is read off the state. -/
theorem reads {f f' : σ → α} (hf : ∀ {s t}, P.holds (graph s) (graph t) → (graph s).Grounded →
      (graph s).Perused (graph t) → (Q (f s) (f' t)).holds (graph s) (graph t)) :
    Again P (do return f (← get)) (do return f' (← get)) Q where
  keeps := Keeps.get.bind fun _ => Keeps.pure _
  run hP hs ht hper := ⟨⟨ht, .refl _⟩, hf hP hs hper⟩

/-- What a computation gives that takes nothing over, whatever that is. -/
theorem of_rests (hx : Keeps Viewed.Peruses x) (hy : Keeps Viewed.Rests y) :
    Again P x y fun _ _ => .of True :=
  ⟨hx, fun _ _ ht _ => ⟨hy _ ht, trivial⟩⟩

/-- One thing or another is known of the graphs. -/
theorem or_elim {A B : Fact} (hP : P ≤ A.or B) (ha : Again (P.and A) x y Q)
    (hb : Again (P.and B) x y Q) : Again P x y Q :=
  ⟨ha.keeps, fun h => (hP _ _ h).elim (fun h' => ha.run ⟨h, h'⟩) fun h' => hb.run ⟨h, h'⟩⟩

/-- What is known of the graphs does not depend on them. -/
theorem of_fact {φ : Prop} (hx : Keeps Viewed.Peruses x) (hP : P ≤ .of φ)
    (h : φ → Again P x y Q) : Again P x y Q :=
  ⟨hx, fun hP' => (h (hP _ _ hP')).run hP'⟩

/-- What cannot be known of any graphs. -/
theorem absurd (hx : Keeps Viewed.Peruses x) (hP : ∀ g u, ¬P.holds g u) : Again P x y Q :=
  ⟨hx, fun h => (hP _ _ h).elim⟩

/-- Two lists whose entries are related are both empty, or begin with entries that are related. -/
theorem forall₂_elim (f f' : List β → StateM σ α) {R : β → β → Fact}
    (hnil : Again P (f []) (f' []) Q)
    (hcons : ∀ a as b bs, Again ((P.and (R a b)).and (.forall₂ R as bs)) (f (a :: as)) (f' (b :: bs)) Q)
    (as bs : List β) : Again (P.and (.forall₂ R as bs)) (f as) (f' bs) Q := by
  have hkeeps : Keeps Viewed.Peruses (f as) := by
    cases as with
    | nil => exact hnil.keeps
    | cons a as => exact (hcons a as a as).keeps
  refine ⟨hkeeps, fun ⟨hP, hR⟩ => ?_⟩
  cases hR with
  | nil => exact hnil.run hP
  | cons h hs => exact (hcons _ _ _ _).run ⟨⟨hP, h⟩, hs⟩

/-- What the runs of two computations over graphs lead to. -/
theorem of_runs {x y : GraphM α} (hx : Keeps Peruses x) (h : ∀ {g u : Graph}, P.holds g u →
      g.Grounded → u.Grounded → (x.run g).2.Perused u →
        ((y.run u).2.Grounded ∧ u.Rested (y.run u).2) ∧
          (Q (x.run g).1 (y.run u).1).holds (x.run g).2 (y.run u).2) : Again P x y Q := ⟨hx, h⟩

/-- Two values that are both missing or related. -/
theorem both_elim {f f' : Option β → StateM σ α} {R : β → β → Fact}
    (hnone : Again P (f none) (f' none) Q)
    (hsome : ∀ a b, Again (P.and (R a b)) (f (some a)) (f' (some b)) Q) (o o' : Option β) :
    Again (P.and (.both R o o')) (f o) (f' o') Q := by
  have hkeeps : Keeps Viewed.Peruses (f o) := by
    cases o with
    | none => exact hnone.keeps
    | some a => exact (hsome a a).keeps
  refine ⟨hkeeps, fun ⟨hP, hboth⟩ => ?_⟩
  cases hboth with
  | none => exact hnone.run hP
  | some hR => exact (hsome _ _).run ⟨hP, hR⟩

/-- What is done with them when they have been read. -/
theorem bind_both {x y : StateM σ (Option β)} {f f' : Option β → StateM σ α} {R : β → β → Fact}
    (h : Again P x y fun o o' => .both R o o') (hnone : Again P (f none) (f' none) Q)
    (hsome : ∀ a b, Again (P.and (R a b)) (f (some a)) (f' (some b)) Q) :
    Again P (x >>= f) (y >>= f') Q :=
  h.bind (both_elim hnone hsome)

theorem ite {c : Prop} [Decidable c] {x' y' : StateM σ α} (h : Again P x y Q)
    (h' : Again P x' y' Q) : Again P (if c then x else x') (if c then y else y') Q := by
  split
  · exact h
  · exact h'

/-- A list is gone through entry by entry. -/
theorem mapM {f f' : β → StateM σ α} : ∀ {bs : List β}, (∀ b ∈ bs, Again P (f b) (f' b) Q) →
    Again P (bs.mapM f) (bs.mapM f') (.forall₂ Q)
  | [], _ => by
    simp only [List.mapM_nil]
    exact .pure fun _ _ _ => .nil
  | b :: bs, h => by
    simp only [List.mapM_cons]
    refine (h b List.mem_cons_self).bind fun a a' => ?_
    refine ((mapM fun b' hb' => h b' (List.mem_cons_of_mem _ hb')).under Fact.and_left).bind
      fun as as' => .pure fun _ _ hP => ?_
    exact .cons hP.1.2 hP.2

end Again

namespace Rereads

variable {x y : StateM σ α} {Q Q' : α → Fact}

theorem pure {a : α} (h : P ≤ Q a) : Rereads P (Pure.pure a : StateM σ α) (Pure.pure a) Q :=
  Again.pure fun _ _ hP => ⟨rfl, h _ _ hP⟩

theorem under (h : Rereads P x y Q) (hP : P' ≤ P) : Rereads P' x y Q := Again.under h hP

theorem gives (h : Rereads P x y Q) (hQ : ∀ a, Q a ≤ Q' a) : Rereads P x y Q' :=
  Again.gives h fun _ _ _ _ h => ⟨h.1, hQ _ _ _ h.2⟩

/-- One computation after another. -/
theorem bind {f f' : α → StateM σ β} {R : β → β → Fact} (h : Rereads P x y Q)
    (k : ∀ a, Again (P.and (Q a)) (f a) (f' a) R) : Again P (x >>= f) (y >>= f') R := by
  refine Again.bind h fun a b => ⟨(k a).keeps, fun ⟨hP, hab, hQ⟩ => ?_⟩
  obtain rfl : b = a := hab
  exact (k b).run ⟨hP, hQ⟩

theorem also (h : Rereads P x y Q) : Rereads P x y fun a => P.and (Q a) :=
  (Again.also h).gives fun _ _ _ _ h => ⟨h.2.1, h.1, h.2.2⟩

/-- What is read is put into something. -/
theorem put_into {R : β → Fact} (h : Rereads P x y Q) (f : α → β) (hR : ∀ a, Q a ≤ R (f a)) :
    Rereads P (do return f (← x)) (do return f (← y)) R :=
  h.bind fun a => pure fun _ _ hP => hR a _ _ hP.2

/-- What is done with a value where there is one. -/
theorem bind_some {x y : StateM σ (Option α)} {f f' : Option α → StateM σ β} {R : β → β → Fact}
    (h : Rereads P x y fun o => .maybe o Q) (hnone : Again P (f none) (f' none) R)
    (hsome : ∀ a, Again (P.and (Q a)) (f (some a)) (f' (some a)) R) :
    Again P (x >>= f) (y >>= f') R := by
  refine h.bind fun o => ?_
  cases o with
  | none => exact hnone.under Fact.and_left
  | some a => exact (hsome a).under fun _ _ h => ⟨h.1, h.2 a (Option.mem_toList.mpr rfl)⟩

/-- What is read off the state, where it is the same in both. -/
theorem reads {f f' : σ → α} (hf : ∀ {s t}, P.holds (graph s) (graph t) → (graph s).Grounded →
      (graph s).Perused (graph t) → f' t = f s ∧ (Q (f s)).holds (graph s) (graph t)) :
    Rereads P (do return f (← get)) (do return f' (← get)) Q := Again.reads hf

/-- What is looked up in the state decides how to go on. -/
theorem look (f f' : σ → β) (k k' : β → StateM σ α) {R : β → Fact} {S : α → α → Fact}
    (hf : ∀ {s t}, P.holds (graph s) (graph t) → (graph s).Grounded →
      (graph s).Perused (graph t) → f' t = f s ∧ (R (f s)).holds (graph s) (graph t))
    (hk : ∀ b, Again (P.and (R b)) (k b) (k' b) S) :
    Again P (get >>= fun s => k (f s)) (get >>= fun s => k' (f' s)) S :=
  (reads hf).bind hk

end Rereads
end Runs

/-! ## Slots -/

section Slots

variable {k : Kind} {ρ α : Type} [Recorded k ρ] [Recorded.Lawful k] {get : ρ → Slot α}
  {set : Slot α → ρ → ρ} {told : α → SlotValue} {absent : α}
  {compute : (loader rid : Nat) → GraphM α} {id : Id k} {g g' : Graph}

/-- What a slot is kept as among what is an entity's own. -/
theorem mem_values (hheld : ∀ r v, told v ∈ (Recorded.pack k r).values ↔ get r = some v) {v : α} :
    told v ∈ (g.entity id.node).values ↔ get (g.get id) = some v := by
  rw [Recorded.Lawful.entity_node (ρ := ρ)]
  exact hheld _ _

/-- A slot that is filled stays as it is. -/
theorem Graph.Perused.held (h : g.Perused g')
    (hheld : ∀ r v, told v ∈ (Recorded.pack k r).values ↔ get r = some v)
    (hid : g.Settled id.node) {v : α} (hv : get (g.get id) = some v) : get (g'.get id) = some v :=
  (mem_values hheld).mp ((h.entity hid).values ((mem_values hheld).mpr hv))

omit [Recorded.Lawful k] in
theorem readSlot_held {v : α} (h : get (g.get id) = some v) :
    (readSlot id (Graph.slot id get set) absent compute).run g = (v, g) := by
  rw [readSlot, run_get_bind]
  exact getRelaxed_held h

omit [Recorded.Lawful k] in
theorem readSlot_read (hset : ∀ v r, get (set (some v) r) = some v) (g : Graph) :
    get (((readSlot id (Graph.slot id get set) absent compute).run g).2.get id) =
      some ((readSlot id (Graph.slot id get set) absent compute).run g).1 := by
  have hslot : ∀ v s, (Graph.slot id get set).peek ((Graph.slot id get set).publish v s) = some v := by
    intro v s
    show get ((s.update id (set (some v))).get id) = some v
    rw [Graph.update, get_put, hset]
  exact getRelaxed_read hslot

/-- An entity that reading does not make and whose slots refer to rows. -/
def Fact.rooted (n : Node) : Fact :=
  ⟨fun g _ => g.Settled n ∧ (n.key.IsRow ∨ n.kind ∉ [.typeRef, .typeSpec, .memberRef]),
    fun h hg _ => h.imp_left (·.mono hg.built)⟩

theorem Fact.rooted_row {P : Fact} {n : Node} (hP : P ≤ .of n.key.IsRow) : P ≤ .rooted n :=
  fun g u h => ⟨.inl (Key.IsRow.known (hP g u h)), .inl (hP g u h)⟩

theorem Fact.rooted_known {P : Fact} {k : Kind} {id : Id k}
    (hk : k ∉ [.typeRef, .typeSpec, .memberRef]) (hP : P ≤ .known id.key) : P ≤ .rooted id.node :=
  fun g u h => ⟨.inl (hP g u h), .inr hk⟩

variable (told) in
/-- **A slot is read as it was.** -/
theorem rereads_slot {P : Fact} (hP : P ≤ .rooted id.node)
    (hheld : ∀ r v, told v ∈ (Recorded.pack k r).values ↔ get r = some v)
    (hset : ∀ v r, get (set (some v) r) = some v)
    (hread : Keeps Peruses (readSlot id (Graph.slot id get set) absent compute)) :
    Rereads P (readSlot id (Graph.slot id get set) absent compute)
      (readSlot id (Graph.slot id get set) absent compute) fun v => .of (told v).OfRows := by
  refine .of_runs hread fun {g u} hP' hg hu hper => ?_
  obtain ⟨hground, hfirst⟩ := hread g hg
  obtain ⟨hsettled, hrows⟩ := hP _ _ hP'
  have hv : get (((readSlot id (Graph.slot id get set) absent compute).run g).2.get id) = some _ :=
    readSlot_read hset g
  rw [readSlot_held (hper.held hheld (hsettled.mono hfirst.built) hv)]
  exact ⟨⟨hu, .refl u⟩, rfl, hground.rooted hrows _ ((mem_values hheld).mpr hv)⟩

omit [Recorded.Lawful k] in
/-- Slots that are filled are read as they are. -/
theorem again_held {P : Fact} {id' : Id k} {Q : α → α → Fact}
    (hread : Keeps Peruses (readSlot id (Graph.slot id get set) absent compute))
    (h : ∀ {g u}, P.holds g u → ∃ v w, get (g.get id) = some v ∧ get (u.get id') = some w ∧
      (Q v w).holds g u) :
    Again P (readSlot id (Graph.slot id get set) absent compute)
      (readSlot id' (Graph.slot id' get set) absent compute) Q := by
  refine .of_runs hread fun {g u} hP _ hu _ => ?_
  obtain ⟨v, w, hv, hw, hQ⟩ := h hP
  rw [readSlot_held hv, readSlot_held hw]
  exact ⟨⟨hu, .refl u⟩, hQ⟩

end Slots

/-! ## Containers -/

section Containers

variable {P : Fact} {e : Edge}

/-- **A list is read as it was.** -/
theorem items_rereads (e : Edge) (o : Node) :
    Rereads P (Ownership.items e o) (Ownership.items e o) fun cs => .all cs .known := by
  refine .of_runs (items_peruses e o) fun {g u} _ hg hu hper => ?_
  have hread := items_read g e o
  rw [items_held (hper.list hread)]
  exact ⟨⟨hu, .refl u⟩, rfl, fun c hc => ((items_peruses e o g hg).1).listed hread hc⟩

/-- **A back-reference is read as it was**, where what the store lists for some container and is in
none stays in none. -/
theorem owner_rereads {c : Key}
    (hP : ∀ {g u}, P.holds g u → g.Certain e c ∧ (g.Orphan e c → u.noted e c = none)) :
    Rereads P (Ownership.owner e c) (Ownership.owner e c) fun o =>
      .maybe o fun o => .known o.key := by
  refine .of_runs (owner_peruses e c) fun {g u} hP' hg hu hper => ?_
  obtain ⟨hcertain, hcalm⟩ := hP hP'
  obtain ⟨hasked, hvalue, hrecorded⟩ := owner_run g e c
  obtain ⟨-, hvalue', -⟩ := owner_run u e c
  have hcertain' := hcertain.mono (Nat.le_of_eq hasked.built.symm)
  refine ⟨owner_rests e c u hu, ?_, ?_⟩
  · show ((Ownership.owner e c).run u).1 = ((Ownership.owner e c).run g).1
    rw [hvalue, hvalue']
    cases hnoted : g.noted e c with
    | some o =>
      have hnoted' : u.noted e c = some o :=
        hper.noted hcertain' ((hasked.noted e c).trans hnoted)
      rw [hnoted', Option.filter_some, Option.filter_some, if_pos (hu.noted hnoted').1,
        if_pos (hg.noted hnoted).1]
    | none =>
      rw [hnoted] at hrecorded
      have hnone : u.noted e c = none := by
        rcases hper.unowned hcertain' hrecorded with h | h
        · rw [Graph.noted, h]
          rfl
        · exact hcalm ((Peruses.of_asked hasked hg).2.orphan h)
      rw [hnone]
      rfl
  · intro o ho
    have ho := Option.mem_toList.mp ho
    rw [hvalue] at ho
    exact (hg.noted (Option.eq_some_of_filter_eq_some ho)).2.mono (Nat.le_of_eq hasked.built.symm)

end Containers
end CliMetadata
