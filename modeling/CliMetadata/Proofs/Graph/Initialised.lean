import CliMetadata.Proofs.Graph.OnDemand
import CliMetadata.Proofs.Ownership.Nesting

/-!
# Modules that have been read ahead

Initialising a module reads what is read on demand of its types, of their members and of the parameters
of their methods.  **What has been read stays read** (`Graph.Retains`), so afterwards it is held, and
reading it computes nothing (`ModuleId.initialise_reads`).

What a reading loses and what it leaves behind, whatever is read later, is said by `Graph.Settles`;
there is one such lemma for the initialisation of each kind of entity, and `Graph.module_settled` puts
them together.

Not all is read (`Demand.isOverlooked`).  Of a generic parameter nothing is read but its container, which
has been recorded with the list that it is in: **its constraints and its attributes are left**, and so is
the module of a private copy of a type that is nested in another.
-/

namespace CliMetadata

open CliMetadata.Graph Loading Stateful

/-- What is read of an entity when it is initialised, the types nested in it apart. -/
def Demand.isAhead : Demand → Bool
  | own p _ => p ≠ .constraints
  | attributes n => n.kind ≠ .genericParam
  | securities _ => true
  | owner e _ => e ≠ .moduleTypes ∧ e ≠ .genericParams
  | items e _ => e ≠ .nestedTypes

/-- What is not read, of what is below a type at a depth, when a module is initialised. -/
def Demand.isOverlooked (depth : Nat) : Demand → Bool
  | own p _ => p = .constraints
  | attributes n => n.kind = .genericParam
  | owner .moduleTypes (.built _) => depth ≠ 0
  | _ => false

namespace Graph

variable {g g' g'' : Graph} {e : Edge} {o n root : Node} {c : Key}

/-! ## What stays -/

/-- Every child that is listed has its containers recorded. -/
def Orderly (g : Graph) : Prop :=
  ∀ e o cs, g.lists.get? (e, o) = some cs → ∀ c ∈ cs, g.Filed e c

/-- **What has been read stays read**, and a list is written down with children whose containers are
recorded. -/
structure Retains (g g' : Graph) : Prop where
  built : g.built ≤ g'.built
  held : ∀ {d : Demand}, g.Known d.node.key → d.held g → d.held g'
  list : ∀ {e o cs}, g.lists.get? (e, o) = some cs → g'.lists.get? (e, o) = some cs
  filed : ∀ {e o cs}, g'.lists.get? (e, o) = some cs →
    g.lists.get? (e, o) = some cs ∨ ∀ c ∈ cs, g'.Filed e c

theorem Filed.later (hc : g.Filed e c) (h : g.Retains g') : g'.Filed e c where
  known := hc.known.mono h.built
  recorded := h.held (d := .owner e c) hc.known hc.recorded
  rival e' he' hrow := h.held (d := .owner e' c) hc.known (hc.rival e' he' hrow)

namespace Retains

instance : IsPreorder Graph Retains where
  refl _ := ⟨Nat.le_refl _, fun _ => id, id, .inl⟩
  trans _ _ _ h k := {
    built := Nat.le_trans h.built k.built
    held := fun hn hd => k.held (hn.mono h.built) (h.held hn hd)
    list := fun hl => k.list (h.list hl)
    filed := fun hl => (k.filed hl).elim
      (fun hl => (h.filed hl).imp_right fun hcs c hc => (hcs c hc).later k) .inr }

theorem orderly (h : g.Retains g') (hg : g.Orderly) : g'.Orderly := fun e o cs hl =>
  (h.filed hl).elim (fun hl c hc => (hg e o cs hl c hc).later h) id

/-- Slots are filled and things are recorded beside the entities, and no list is written down. -/
theorem of_lists (hb : g.built ≤ g'.built) (hlists : g'.lists = g.lists)
    (hparts : ∀ (p : OwnSlot) {c}, g.Known c →
      p.isFilled (g.entity ⟨p.kind, c⟩) → p.isFilled (g'.entity ⟨p.kind, c⟩))
    (howners : ∀ x, (g.owners.get? x).isSome → (g'.owners.get? x).isSome)
    (hattributes : ∀ n, (g.attributes.get? n).isSome → (g'.attributes.get? n).isSome)
    (hsecurities : ∀ n, (g.securities.get? n).isSome → (g'.securities.get? n).isSome) :
    g.Retains g' where
  built := hb
  held {d} hn hd := by
    cases d with
    | own p c => exact hparts p hn hd
    | attributes n => exact hattributes n hd
    | securities n => exact hsecurities n hd
    | owner e c => exact howners _ hd
    | items e o =>
      rw [Demand.held, hlists]
      exact hd
  list hl := hlists ▸ hl
  filed hl := .inl (hlists ▸ hl)

end Retains

/-- **Reading loses nothing that has been read.** -/
theorem retains_steps : Steps (fun _ _ => True) Retains where
  lasting _ _ := trivial
  alongside {g g'} h := by
    refine .of_lists (Nat.le_of_eq h.built.symm) h.lists (fun p c _ hp => ?_) h.owners h.attributes
      h.securities
    rwa [entity_congr (by rw [h.entities]) (loader?_congr h.entities)]
  made {g k ρ _ _ id r} hk _ he := by
    refine .of_lists (Nat.le_refl _) rfl (fun p c _ hp => ?_) (fun _ h => h) (fun _ h => h) fun _ h => h
    by_cases hid : id.node = ⟨p.kind, c⟩
    · rwa [← hid, entity_put, ← he, hid]
    · rwa [entity_put_of_ne (loader?_put hk id r) hid]
  grown {g k ρ _ r} hk := by
    refine .of_lists (Nat.le_succ _) rfl (fun p c hc hp => ?_) (fun _ => id) (fun _ => id) fun _ => id
    have hne : (⟨.built g.built⟩ : Id k).node ≠ ⟨p.kind, c⟩ := by
      intro h
      cases congrArg Node.key h
      exact Nat.lt_irrefl _ hc
    rwa [show (g.grow k r).entity _ = g.entity _ from
      entity_congr (Index.get?_set_other _ _ hne) (loader?_put hk ⟨.built g.built⟩ r)]
  filled {g p k ρ α _ _ get set id v} hp _ _ := by
    refine .of_lists (Nat.le_refl _) rfl (fun q c _ hq => ?_) (fun _ h => h) (fun _ h => h) fun _ h => h
    by_cases hsame : q = p
    · subst hsame
      by_cases hid : id.node = ⟨q.kind, c⟩
      · rw [← hid, hp.peek]
        exact congrArg Option.isSome ((congrArg get (get_put id _)).trans (hp.get_set _ _))
      · exact (congrArg (q.isFilled ·) (entity_put_of_ne (hp.loader? id v g) hid)).trans hq
    · rwa [hp.publish_congr (f := q.isFilled) (hp.others q hsame)]
  listed {g e o cs} hempty hcs := by
    have hget : ∀ x, (g.setList e o cs).lists.get? x = if (e, o) = x then some cs else g.lists.get? x :=
      fun x => Index.get?_set _ _ _ _
    have hlist : ∀ {e' o' cs'}, g.lists.get? (e', o') = some cs' →
        (g.setList e o cs).lists.get? (e', o') = some cs' := by
      intro e' o' cs' hl
      rw [hget, if_neg]
      · exact hl
      · intro heq
        rw [← heq, hempty] at hl
        cases hl
    refine ⟨Nat.le_refl _, fun {d} _ hd => ?_, hlist, fun {e' o' cs'} hl => ?_⟩
    · cases d with
      | own p c => exact hd
      | attributes n => exact hd
      | securities n => exact hd
      | owner e c => exact hd
      | items e' o' =>
        obtain ⟨cs', hcs'⟩ := Option.isSome_iff_exists.mp hd
        exact Option.isSome_of_eq_some (hlist hcs')
    · rw [hget] at hl
      split at hl
      · next heq =>
        cases heq
        cases hl
        exact .inr fun c hc => ⟨(hcs c hc).known, (hcs c hc).recorded, (hcs c hc).rival⟩
      · exact .inl hl

/-! ## Below a type -/

/-- **What is below an entity**: it, its members, and their parameters; types that are nested in a type
are not below it. -/
inductive Within (g : Graph) : (root n : Node) → Prop
  | root (n : Node) : Within g n n
  | child {e : Edge} {o n : Node} {c : Key} (hkind : e.ownerKinds.contains o.kind)
      (htype : e.childKind ≠ .typeDef) (listed : c ∈ g.held e o)
      (below : Within g ⟨e.childKind, c⟩ n) : Within g o n

theorem mem_held {e : Edge} {o : Node} {c : Key} :
    c ∈ g.held e o ↔ ∃ cs, g.lists.get? (e, o) = some cs ∧ c ∈ cs := by
  rw [held]
  cases g.lists.get? (e, o) with
  | none =>
    refine iff_of_false List.not_mem_nil ?_
    rintro ⟨cs, h, -⟩
    cases h
  | some cs =>
    refine ⟨fun hc => ⟨cs, rfl, hc⟩, ?_⟩
    rintro ⟨cs', h, hc⟩
    exact Option.some.inj h ▸ hc

/-- What is below an entity is the entity itself, or is listed. -/
theorem Within.listed (h : g.Within root n) :
    n = root ∨ ∃ e o, e.childKind = n.kind ∧ n.kind ≠ .typeDef ∧ n.key ∈ g.held e o := by
  induction h with
  | root n => exact .inl rfl
  | @child e o n c _ htype listed _ ih =>
    refine .inr (ih.elim ?_ id)
    rintro rfl
    exact ⟨e, o, rfl, htype, listed⟩

theorem Orderly.filed (hg : g.Orderly) (hc : c ∈ g.held e o) : g.Filed e c := by
  obtain ⟨cs, hl, hc⟩ := mem_held.mp hc
  exact hg e o cs hl c hc

theorem Retains.mem_held (h : g.Retains g') (hc : c ∈ g.held e o) : c ∈ g'.held e o := by
  obtain ⟨cs, hl, hc⟩ := Graph.mem_held.mp hc
  exact Graph.mem_held.mpr ⟨cs, h.list hl, hc⟩

theorem Below.later {m : ModuleId} {depth : Nat} {t : TypeDefId} (ht : g.Below m depth t)
    (h : g.Retains g') : g'.Below m depth t := by
  induction ht with
  | top listed => exact .top (h.mem_held listed)
  | nested listed _ ih => exact .nested (h.mem_held listed) ih

/-! ## Settled by reading -/

/-- **What a reading settles**: where the keys are those of what there is, it loses nothing that has
been read, and whatever is read later, `Q` holds of its answer. -/
def Settles {α : Type} (ks : List Key) (x : GraphM α) (Q : Graph → α → Prop) : Prop :=
  ∀ g : Graph, g.Orderly → (∀ c ∈ ks, g.Known c) →
    g.Retains (x.run g).2 ∧ ∀ g', (x.run g).2.Retains g' → Q g' (x.run g).1

namespace Settles

variable {α β : Type} {ks : List Key} {x : GraphM α} {P Q : Graph → α → Prop}

theorem imp (hx : Settles ks x P) (h : ∀ g a, P g a → Q g a) : Settles ks x Q := fun g hg hks =>
  ⟨(hx g hg hks).1, fun g' hg' => h g' _ ((hx g hg hks).2 g' hg')⟩

theorem of_keeps (hx : Keeps Retains x) : Settles ks x fun _ _ => True := fun g _ _ =>
  ⟨hx g, fun _ _ => trivial⟩

/-- Keys stay those of what there is. -/
theorem known (hx : Settles ks x Q) : Settles ks x fun g a => Q g a ∧ ∀ c ∈ ks, g.Known c :=
  fun g hg hks => ⟨(hx g hg hks).1, fun g' hg' => ⟨(hx g hg hks).2 g' hg', fun c hc =>
    (hks c hc).mono (trans_of Retains (hx g hg hks).1 hg').built⟩⟩

theorem pure (a : α) : Settles ks (Pure.pure a) fun _ b => b = a := fun g _ _ =>
  ⟨refl_of Retains g, fun _ _ => rfl⟩

theorem bind {f : α → GraphM β} {K : α → List Key} {R : α → Graph → β → Prop}
    (hx : Settles ks x P) (hf : ∀ a, Settles (K a) (f a) (R a))
    (hknown : ∀ g a, P g a → (∀ c ∈ ks, g.Known c) → ∀ c ∈ K a, g.Known c) :
    Settles ks (x >>= f) fun g b => ∃ a, P g a ∧ R a g b := by
  intro g hg hks
  obtain ⟨hfirst, hp⟩ := hx g hg hks
  have hafter := hknown _ _ (hp _ (refl_of Retains _)) fun c hc => (hks c hc).mono hfirst.built
  obtain ⟨hsecond, hr⟩ := hf _ _ (hfirst.orderly hg) hafter
  exact ⟨trans_of Retains hfirst hsecond, fun g' hg' =>
    ⟨_, hp g' (trans_of Retains hsecond hg'), hr g' hg'⟩⟩

/-- One reading of an entity, and then one of others. -/
theorem next {f : α → GraphM β} {R : α → Graph → β → Prop} (hx : Settles [c] x P)
    (hf : ∀ a, Settles ks (f a) (R a)) :
    Settles (c :: ks) (x >>= f) fun g b => ∃ a, P g a ∧ R a g b := by
  have hfirst : Settles (c :: ks) x P := fun g hg hks =>
    hx g hg fun c' hc' => hks c' (List.mem_singleton.mp hc' ▸ List.mem_cons_self)
  exact hfirst.bind hf fun _ _ _ hks c' hc' => hks c' (List.mem_cons_of_mem _ hc')

/-- One reading after the other, of the same entities. -/
theorem and {y : GraphM β} {P : Graph → Prop} {R : Graph → β → Prop}
    (hx : Settles ks x fun g _ => P g) (hy : Settles ks y R) :
    Settles ks (x >>= fun _ => y) fun g b => P g ∧ R g b :=
  (hx.bind (fun _ => hy) fun _ _ _ h => h).imp fun _ _ ⟨_, h⟩ => h

/-- **A property that is read is held.** -/
theorem read (d : Demand) : Settles [d.node.key] d.read fun g _ => d.held g := fun g _ hks =>
  have hkept := retains_steps.read d (g := g) trivial
  ⟨hkept, fun _ hg' =>
    hg'.held ((hks _ List.mem_cons_self).mono hkept.built) (d.held_read g)⟩

/-- A list that is read is held, and the containers of its children are recorded. -/
theorem items (e : Edge) (o : Node) : Settles [o.key] (Ownership.items e o) fun g cs =>
    g.lists.get? (e, o) = some cs ∧ ∀ c ∈ cs, g.Filed e c := by
  intro g hg _
  have hkept := retains_steps.items e o g
  have hread := items_read g e o
  exact ⟨hkept, fun g' hg' =>
    ⟨hg'.list hread, fun c hc => (hkept.orderly hg _ _ _ hread c hc).later hg'⟩⟩

/-- Entities are gone through one by one. -/
theorem each {k : Kind} {f : Id k → GraphM Unit} {P : Graph → Id k → Prop}
    (hf : ∀ id, Settles [id.key] (f id) fun g _ => P g id) : ∀ ids : List (Id k),
      Settles (ids.map Id.key) (ids.forM f) fun g _ => ∀ id ∈ ids, P g id
  | [] => (Settles.pure ()).imp fun _ _ _ _ hid => absurd hid List.not_mem_nil
  | id :: ids => ((hf id).next fun _ => each hf ids).imp fun _ _ h =>
    List.forall_mem_cons.mpr h.choose_spec

/-- The children of a container are gone through one by one. -/
theorem children {e : Edge} {o : Node} {f : Id e.childKind → GraphM Unit}
    {P : Graph → Id e.childKind → Prop} (hf : ∀ id, Settles [id.key] (f id) fun g _ => P g id) :
    Settles [o.key] (do (((← Ownership.items e o).map Id.mk).forM f)) fun g _ =>
      (Demand.items e o).held g ∧ ∀ c ∈ g.held e o, P g ⟨c⟩ := by
  refine ((items e o).bind (K := fun cs => (cs.map Id.mk : List (Id e.childKind)).map Id.key)
    (fun cs => each hf _) fun g cs hcs _ c hc => ?_).imp fun g _ ⟨cs, ⟨hl, _⟩, hall⟩ => ?_
  · rw [List.map_map] at hc
    obtain ⟨c', hc', rfl⟩ := List.mem_map.mp hc
    exact (hcs.2 c' hc').known
  · refine ⟨Option.isSome_of_eq_some hl, fun c hc => hall _ (List.mem_map_of_mem ?_)⟩
    rwa [held, hl] at hc

end Settles

/-! ## Entities -/

/-- **An entity that has been read ahead.** -/
def Ahead (g : Graph) (n : Node) : Prop := ∀ d ∈ (Demand.all n).filter Demand.isAhead, d.held g

/-- **An entity that has been read ahead with all that is below it.** -/
def Explored (g : Graph) (root : Node) : Prop := ∀ n, g.Within root n → g.Ahead n

theorem Explored.of_children (hroot : g.Ahead root)
    (hchildren : ∀ e : Edge, e.ownerKinds.contains root.kind → e.childKind ≠ .typeDef →
      ∀ c ∈ g.held e root, g.Explored ⟨e.childKind, c⟩) : g.Explored root := by
  intro n hn
  cases hn with
  | root => exact hroot
  | @child e _ _ c hkind htype listed below => exact hchildren e hkind htype c listed n below

/-- What contains nothing. -/
theorem Explored.leaf {k : Kind} (hroot : g.Ahead ⟨k, c⟩)
    (hnone : ∀ e ∈ Edge.all, ¬e.ownerKinds.contains k) : g.Explored ⟨k, c⟩ :=
  .of_children hroot fun e he => absurd he (hnone e (by cases e <;> decide))

/-- Of a generic parameter nothing is read ahead. -/
theorem Explored.genericParam (c : Key) : g.Explored ⟨.genericParam, c⟩ :=
  .leaf (fun _ hd => absurd hd List.not_mem_nil) (by decide)

theorem field_explored (f : FieldId) :
    Settles [f.key] f.initialise fun g _ => g.Explored f.node := by
  refine ((Settles.read (.own .fieldSig f.key)).and <| (Settles.read (.owner .fields f.key)).and <|
    (Settles.read (.own .fieldConstant f.key)).and (Settles.read (.attributes f.node))).imp ?_
  rintro g - ⟨hsig, howner, hconstant, hattributes⟩
  refine .leaf ?_ (by decide)
  show ∀ d ∈ [Demand.own .fieldSig f.key, .own .fieldConstant f.key, .owner .fields f.key,
    .attributes f.node], d.held g
  simp [*]

theorem param_explored (p : ParamId) :
    Settles [p.key] p.initialise fun g _ => g.Explored p.node := by
  refine ((Settles.read (.owner .params p.key)).and <|
    (Settles.read (.own .paramConstant p.key)).and (Settles.read (.attributes p.node))).imp ?_
  rintro g - ⟨howner, hconstant, hattributes⟩
  refine .leaf ?_ (by decide)
  show ∀ d ∈ [Demand.own .paramConstant p.key, .owner .params p.key, .attributes p.node], d.held g
  simp [*]

theorem property_explored (p : PropertyId) :
    Settles [p.key] p.initialise fun g _ => g.Explored p.node := by
  refine ((Settles.read (.own .propertySig p.key)).and <|
    (Settles.read (.owner .properties p.key)).and <|
    (Settles.read (.own .propertyAccessors p.key)).and <|
    (Settles.read (.own .propertyConstant p.key)).and (Settles.read (.attributes p.node))).imp ?_
  rintro g - ⟨hsig, howner, haccessors, hconstant, hattributes⟩
  refine .leaf ?_ (by decide)
  show ∀ d ∈ [Demand.own .propertySig p.key, .own .propertyAccessors p.key,
    .own .propertyConstant p.key, .owner .properties p.key, .attributes p.node], d.held g
  simp [*]

theorem event_explored (e : EventId) :
    Settles [e.key] e.initialise fun g _ => g.Explored e.node := by
  refine ((Settles.read (.own .eventType e.key)).and <| (Settles.read (.owner .events e.key)).and <|
    (Settles.read (.own .eventAccessors e.key)).and (Settles.read (.attributes e.node))).imp ?_
  rintro g - ⟨htype, howner, haccessors, hattributes⟩
  refine .leaf ?_ (by decide)
  show ∀ d ∈ [Demand.own .eventType e.key, .own .eventAccessors e.key, .owner .events e.key,
    .attributes e.node], d.held g
  simp [*]

theorem method_explored (m : MethodDefId) :
    Settles [m.key] m.initialise fun g _ => g.Explored m.node := by
  refine ((Settles.read (.own .methodSig m.key)).and <| (Settles.read (.owner .methods m.key)).and <|
    (Settles.read (.own .body m.key)).and <| (Settles.read (.own .implMap m.key)).and <|
    (Settles.read (.own .semantics m.key)).and <|
    (Settles.read (.items .genericParams m.node)).and <|
    (Settles.read (.own .overrides m.key)).and <| (Settles.read (.attributes m.node)).and <|
    (Settles.read (.securities m.node)).and <| (Settles.read (.own .debugInfos m.key)).and <|
    Settles.children (e := .params) (o := m.node) param_explored).imp ?_
  rintro g - ⟨hsig, howner, hbody, himplMap, hsemantics, hgenericParams, hoverrides, hattributes,
    hsecurities, hdebugInfos, hparams, hbelow⟩
  refine .of_children ?_ fun e hkind _ c hc => ?_
  · show ∀ d ∈ [Demand.own .methodSig m.key, .own .body m.key, .own .implMap m.key,
      .own .semantics m.key, .own .overrides m.key, .own .debugInfos m.key, .owner .methods m.key,
      .items .params m.node, .items .genericParams m.node, .attributes m.node, .securities m.node],
      d.held g
    simp [*]
  · cases e with
    | params => exact hbelow c hc
    | genericParams => exact .genericParam c
    | _ => exact absurd hkind Bool.false_ne_true

theorem type_explored (t : TypeDefId) :
    Settles [t.key] t.initialise fun g _ => g.Explored t.node := by
  have heach : t.initialise = (do
      touch t.base
      touch t.declaringType
      touch t.genericParams
      touch (customAttributes t.node)
      touch (declSecurities t.node)
      t.fields >>= (·.forM FieldId.initialise)
      t.methods >>= (·.forM MethodDefId.initialise)
      t.properties >>= (·.forM PropertyId.initialise)
      t.events >>= (·.forM EventId.initialise)) := by
    simp only [TypeDefId.initialise, bind_assoc]
  rw [heach]
  refine ((Settles.read (.own .base t.key)).and <| (Settles.read (.owner .nestedTypes t.key)).and <|
    (Settles.read (.items .genericParams t.node)).and <| (Settles.read (.attributes t.node)).and <|
    (Settles.read (.securities t.node)).and <|
    (Settles.children (e := .fields) (o := t.node) field_explored).and <|
    (Settles.children (e := .methods) (o := t.node) method_explored).and <|
    (Settles.children (e := .properties) (o := t.node) property_explored).and <|
    Settles.children (e := .events) (o := t.node) event_explored).imp ?_
  rintro g - ⟨hbase, howner, hgenericParams, hattributes, hsecurities, ⟨hfields, hfield⟩,
    ⟨hmethods, hmethod⟩, ⟨hproperties, hproperty⟩, hevents, hevent⟩
  refine .of_children ?_ fun e hkind htype c hc => ?_
  · show ∀ d ∈ [Demand.own .base t.key, .owner .nestedTypes t.key, .items .fields t.node,
      .items .methods t.node, .items .properties t.node, .items .events t.node,
      .items .genericParams t.node, .attributes t.node, .securities t.node], d.held g
    simp [*]
  · cases e with
    | fields => exact hfield c hc
    | methods => exact hmethod c hc
    | properties => exact hproperty c hc
    | events => exact hevent c hc
    | genericParams => exact .genericParam c
    | nestedTypes => exact absurd rfl htype
    | _ => exact absurd hkind Bool.false_ne_true

/-! ## Levels -/

/-- A level whose nested types have been read into the next. -/
structure LevelRead (g : Graph) (ts : List TypeDefId) (next : List TypeDefId) : Prop where
  known : ∀ t ∈ next, g.Known t.key
  read : ∀ u ∈ ts, (Demand.items .nestedTypes u.node).held g
  listed : ∀ t, t ∈ next ↔ ∃ u ∈ ts, t.key ∈ g.held .nestedTypes u.node

theorem level_settled : ∀ ts : List TypeDefId,
    Settles (ts.map Id.key) (ts.mapM TypeDefId.nestedTypes) fun g ls => g.LevelRead ts ls.flatten
  | [] => (Settles.pure []).imp fun g ls hls => by
    subst hls
    exact ⟨fun _ ht => absurd ht List.not_mem_nil, fun _ hu => absurd hu List.not_mem_nil,
      fun _ => by simp⟩
  | u :: ts => by
    have hread := (Settles.items .nestedTypes u.node).next fun cs => (level_settled ts).bind
      (K := fun _ => []) (fun ls => Settles.pure (cs.map Id.mk :: ls)) nofun
    rw [List.mapM_cons]
    refine Settles.imp hread ?_
    rintro g _ ⟨cs, ⟨hlist, hfiled⟩, ls, hlevel, rfl⟩
    have hhere : ∀ t : TypeDefId, t ∈ cs.map Id.mk ↔ t.key ∈ g.held .nestedTypes u.node := by
      intro t
      rw [held, hlist, Option.getD_some]
      exact List.mem_map_of_injective (f := Id.mk) (fun _ _ h => congrArg Id.key h) (a := t.key)
    refine ⟨fun t ht => ?_, List.forall_mem_cons.mpr ⟨Option.isSome_of_eq_some hlist, hlevel.read⟩,
      fun t => ?_⟩
    · rcases List.mem_append.mp ht with ht | ht
      · obtain ⟨c, hc, rfl⟩ := List.mem_map.mp ht
        exact (hfiled c hc).known
      · exact hlevel.known t ht
    · rw [List.flatten_cons, List.mem_append, hhere, hlevel.listed, List.exists_mem_cons_iff]

/-- Below a level that nothing is on there is nothing. -/
theorem not_below {g : Graph} {m : ModuleId} {depth : Nat} (h : ∀ t, ¬g.Below m depth t) :
    ∀ k t, ¬g.Below m (depth + k) t
  | 0, t => h t
  | k + 1, _ => by
    rintro (_ | ⟨_, above⟩)
    exact not_below h k _ above

/-- The level below one is that of the types nested in this one's. -/
theorem LevelRead.below {g : Graph} {m : ModuleId} {depth : Nat} {ts next : List TypeDefId}
    (h : g.LevelRead ts next) (hts : ∀ t, t ∈ ts ↔ g.Below m depth t) (t : TypeDefId) :
    t ∈ next ↔ g.Below m (depth + 1) t := by
  rw [h.listed]
  constructor
  · rintro ⟨u, hu, listed⟩
    exact .nested listed ((hts u).mp hu)
  · rintro (_ | ⟨listed, above⟩)
    exact ⟨_, (hts _).mpr above, listed⟩

/-- **The levels that are read from a level on** are the types as deep as the bound allows, and the
types that are nested in those above the last have been read. -/
theorem levels_settled {m : ModuleId} : ∀ (bound : Nat) (ts : List TypeDefId),
    Settles (ts.map Id.key) (ModuleId.levels bound ts) fun g all =>
      (∀ t ∈ all, g.Known t.key) ∧ ∀ depth, (∀ t, t ∈ ts ↔ g.Below m depth t) →
        (∀ t, t ∈ all ↔ ∃ k ≤ bound, g.Below m (depth + k) t) ∧
          ∀ k < bound, ∀ t, g.Below m (depth + k) t → (Demand.items .nestedTypes t.node).held g
  | 0, ts => (Settles.pure ts).known.imp fun g all ⟨hall, hknown⟩ => by
    subst hall
    refine ⟨fun t ht => hknown _ (List.mem_map_of_mem ht), fun depth hts => ⟨fun t => ?_, nofun⟩⟩
    simp [hts]
  | bound + 1, [] => (Settles.pure []).imp fun g all hall => by
    subst hall
    refine ⟨fun _ ht => absurd ht List.not_mem_nil, fun depth hts => ?_⟩
    simp [not_below fun t ht => List.not_mem_nil ((hts t).mpr ht)]
  | bound + 1, t₀ :: ts => by
    have hrest := fun ls : List (List TypeDefId) => (levels_settled (m := m) bound ls.flatten).bind
      (K := fun _ => []) (fun deeper => Settles.pure (t₀ :: ts ++ deeper)) nofun
    refine ((level_settled (t₀ :: ts)).bind hrest fun g ls hls _ c hc => ?_).known.imp ?_
    · obtain ⟨t, ht, rfl⟩ := List.mem_map.mp hc
      exact hls.known t ht
    rintro g _ ⟨⟨ls, hls, deeper, ⟨hknown, hdeeper⟩, rfl⟩, hhere⟩
    refine ⟨fun t ht => ?_, fun depth hts => ?_⟩
    · rcases List.mem_append.mp ht with ht | ht
      · exact hhere _ (List.mem_map_of_mem ht)
      · exact hknown t ht
    obtain ⟨hmem, hread⟩ := hdeeper (depth + 1) (hls.below hts)
    have hdepth : ∀ k, depth + (k + 1) = depth + 1 + k := fun k => by omega
    constructor
    · intro t
      rw [List.mem_append, hts, hmem]
      constructor
      · rintro (h | ⟨k, hk, h⟩)
        · exact ⟨0, Nat.zero_le _, h⟩
        · exact ⟨k + 1, Nat.succ_le_succ hk, hdepth k ▸ h⟩
      · rintro ⟨k, hk, h⟩
        cases k with
        | zero => exact .inl h
        | succ k => exact .inr ⟨k, Nat.le_of_succ_le_succ hk, hdepth k ▸ h⟩
    · intro k hk t ht
      cases k with
      | zero => exact hls.read t ((hts t).mpr ht)
      | succ k => exact hread k (Nat.lt_of_succ_lt_succ hk) t (hdepth k ▸ ht)

/-! ## Modules -/

theorem exportedType_kept (e : ExportedTypeId) : Keeps Retains e.initialise :=
  Keeps.bind (fun _ => retains_steps.read (.own .exportedFrom e.key) trivial) fun _ =>
    fun _ => retains_steps.read (.attributes e.node) trivial

theorem resource_kept (r : ResourceId) : Keeps Retains r.initialise := by
  have hdata : Keeps Retains r.data := by
    refine Keeps.bind (fun _ => retains_steps.read (.own .resourceKept r.key) trivial) fun kept => ?_
    cases kept with
    | some _ => exact Keeps.pure _
    | none => exact fun _ => retains_steps.read (.own .resourceData r.key) trivial
  exact Keeps.bind (Keeps.bind hdata fun _ => Keeps.pure _) fun _ =>
    fun _ => retains_steps.read (.attributes r.node) trivial

/-- The types of a module to a depth, with what has been read to find them. -/
structure TypesRead (g : Graph) (m : ModuleId) (all : List TypeDefId) : Prop where
  known : ∀ t ∈ all, g.Known t.key
  below : ∀ t, t ∈ all ↔ ∃ depth ≤ recursionBound, g.Below m depth t
  types : (Demand.items .moduleTypes m.node).held g
  nested : ∀ depth < recursionBound, ∀ t, g.Below m depth t →
    (Demand.items .nestedTypes t.node).held g

theorem allTypes_settled (m : ModuleId) : Settles [m.key] m.allTypes fun g all => g.TypesRead m all := by
  have htypes : Settles [m.key] m.types fun g ts => (∀ t ∈ ts, g.Known t.key) ∧
      (Demand.items .moduleTypes m.node).held g ∧ ∀ t, t ∈ ts ↔ g.Below m 0 t := by
    refine ((Settles.items .moduleTypes m.node).bind (K := fun _ => [])
      (fun cs => Settles.pure (cs.map Id.mk)) nofun).imp ?_
    rintro g _ ⟨cs, ⟨hlist, hfiled⟩, rfl⟩
    refine ⟨fun t ht => ?_, Option.isSome_of_eq_some hlist, fun t => ⟨fun ht => ?_, ?_⟩⟩
    · obtain ⟨c, hc, rfl⟩ := List.mem_map.mp ht
      exact (hfiled c hc).known
    · obtain ⟨c, hc, rfl⟩ := List.mem_map.mp ht
      exact .top (mem_held.mpr ⟨cs, hlist, hc⟩)
    · rintro ⟨listed⟩
      rw [held, hlist] at listed
      exact List.mem_map_of_mem (f := Id.mk) listed
  refine (htypes.bind (levels_settled (m := m) recursionBound) fun g ts hts _ c hc => ?_).imp ?_
  · obtain ⟨t, ht, rfl⟩ := List.mem_map.mp hc
    exact hts.1 t ht
  · rintro g all ⟨ts, ⟨-, hread, htop⟩, hknown, hlevels⟩
    obtain ⟨hbelow, hnested⟩ := hlevels 0 htop
    simp only [Nat.zero_add] at hbelow hnested
    exact ⟨hknown, hbelow, hread, hnested⟩

/-- **What initialising a module reads**: its types, and what is below each of them. -/
theorem module_settled (m : ModuleId) : Settles [m.key] m.initialise fun g _ =>
    ∃ all, g.TypesRead m all ∧ ∀ t ∈ all, g.Explored t.node := by
  have hexported : Keeps Retains (m.exportedTypes >>= (·.forM ExportedTypeId.initialise)) :=
    Keeps.bind (fun _ => retains_steps.read (.own .exportedTypes m.key) trivial)
      (Keeps.forM exportedType_kept)
  have hresources : Keeps Retains (m.resources >>= (·.forM ResourceId.initialise)) :=
    Keeps.bind (fun _ => retains_steps.read (.own .resources m.key) trivial)
      (Keeps.forM resource_kept)
  have htypes := (allTypes_settled m).bind (Settles.each type_explored) fun g ts hts _ c hc => by
    obtain ⟨t, ht, rfl⟩ := List.mem_map.mp hc
    exact hts.known t ht
  have hparts : m.initialise = (do
      touch (customAttributes m.node)
      m.exportedTypes >>= (·.forM ExportedTypeId.initialise)
      m.resources >>= (·.forM ResourceId.initialise)
      m.allTypes >>= (·.forM TypeDefId.initialise)) := by
    simp only [ModuleId.initialise, bind_assoc]
  rw [hparts]
  refine ((Settles.read (.attributes m.node)).and <| (Settles.of_keeps hexported).and <|
    (Settles.of_keeps hresources).and htypes).imp ?_
  rintro g - ⟨-, -, -, hread⟩
  exact hread

/-- No type is found below a module later, as deep as the bound allows, once its types have been read. -/
theorem TypesRead.earlier {m : ModuleId} {all : List TypeDefId} (hall : g.TypesRead m all)
    (h : g.Retains g') {depth : Nat} {t : TypeDefId} (ht : g'.Below m depth t)
    (hdepth : depth ≤ recursionBound) : g.Below m depth t := by
  have hkept : ∀ {e o c}, (Demand.items e o).held g → c ∈ g'.held e o → c ∈ g.held e o := by
    intro e o c hread hc
    obtain ⟨cs, hlist⟩ := Option.isSome_iff_exists.mp hread
    rw [held, h.list hlist] at hc
    exact mem_held.mpr ⟨cs, hlist, hc⟩
  induction ht with
  | top listed => exact .top (hkept hall.types listed)
  | @nested depth t u listed _ ih =>
    have habove := ih (Nat.le_of_succ_le hdepth)
    exact .nested (hkept (hall.nested depth hdepth u habove) listed) habove

/-! ## What is held then -/

/-- The module of a type is recorded, unless the type is a private copy that is nested in another. -/
theorem Below.recorded {m : ModuleId} {depth : Nat} {t : TypeDefId} (ht : g.Below m depth t)
    (hg : g.Orderly) (hrow : 0 < depth → t.key.IsRow) :
    (g.owners.get? (.moduleTypes, t.key)).isSome := by
  cases ht with
  | top listed => exact (hg.filed listed).recorded
  | nested listed _ => exact (hg.filed listed).rival _ rfl (hrow (Nat.succ_pos _))

/-- **All but what is overlooked is held**, where the type has been explored and the types nested in it
have been read. -/
theorem Explored.held {m : ModuleId} {depth : Nat} {t : TypeDefId} {d : Demand}
    (ht : g.Explored t.node) (hg : g.Orderly) (hbelow : g.Below m depth t)
    (hnested : (Demand.items .nestedTypes t.node).held g) (hn : g.Within t.node n)
    (hd : d ∈ Demand.all n) (hoverlooked : ¬d.isOverlooked depth) : d.held g := by
  by_cases hahead : d.isAhead
  · exact ht n hn d (List.mem_filter.mpr ⟨hd, hahead⟩)
  have hnode := Demand.node_of_mem hd
  cases d with
  | own p c =>
    have hp : p = .constraints := by simpa [Demand.isAhead] using hahead
    exact absurd (decide_eq_true hp) hoverlooked
  | attributes n' =>
    have hkind : n'.kind = .genericParam := by simpa [Demand.isAhead] using hahead
    exact absurd (decide_eq_true hkind) hoverlooked
  | securities n' => exact absurd rfl hahead
  | owner e c =>
    have he : e = .moduleTypes ∨ e = .genericParams := by
      simpa [Demand.isAhead, -not_and, not_and_or] using hahead
    subst hnode
    rcases he with rfl | rfl
    · -- no type is listed but in a module or in a type
      obtain hroot | ⟨_, _, _, htype, _⟩ := hn.listed
      · obtain rfl : c = t.key := congrArg Node.key hroot
        refine hbelow.recorded hg fun hdepth => ?_
        cases hkey : t.key with
        | built _ =>
          rw [hkey] at hoverlooked
          exact absurd (decide_eq_true (Nat.ne_of_gt hdepth)) hoverlooked
        | row _ _ => trivial
      · exact absurd rfl htype
    · obtain hroot | ⟨e, o, he, _, listed⟩ := hn.listed
      · cases congrArg Node.kind hroot
      · have he : e.childKind = .genericParam := he
        cases e <;> first | exact absurd he (by decide) | exact (hg.filed listed).recorded
  | items e o =>
    obtain rfl : e = .nestedTypes := by simpa [Demand.isAhead] using hahead
    have hkind : n.kind = .typeDef := by simpa [Edge.ownerKinds] using Demand.items_mem hd
    obtain hroot | ⟨_, _, _, htype, _⟩ := hn.listed
    · obtain rfl : o = t.node := hnode.trans hroot
      exact hnested
    · exact absurd hkind htype

end Graph

/-! ## Stores -/

namespace Store

variable {s : Store} {policy : InitPolicy} {g : Graph}

/-- A store that has just been opened lists nothing, or the one module of its assembly. -/
theorem Opened.orderly (h : s.Opened policy g) : g.Orderly ∧ 0 < g.built := by
  cases h with
  | module hm =>
    obtain ⟨row, hrow⟩ := Option.isSome_iff_exists.mp hm
    rw [openModule_run hrow]
    refine ⟨fun e o cs hl => ?_, Nat.zero_lt_one⟩
    cases hl.symm.trans (Index.get?_empty (e, o))
  | assembly hm ha =>
    obtain ⟨row, hrow⟩ := Option.isSome_iff_exists.mp hm
    obtain ⟨assembly, hassembly⟩ := Option.isSome_iff_exists.mp ha
    rw [openAssembly_added hrow hassembly]
    refine ⟨fun e o cs hl c hc => ?_, Nat.zero_lt_two⟩
    have hmodules : ∀ {cs'}, (assemblyMade s policy row assembly).lists.get? (e, o) = some cs' →
        cs' = [] := by
      intro cs' hl
      rw [assemblyMade, lists_setList] at hl
      split at hl
      · exact (Option.some.inj hl).symm
      · cases hl.symm.trans (Index.get?_empty (e, o))
    rw [lists_setList] at hl
    split at hl
    · next heq =>
      cases heq
      cases hl
      obtain rfl := List.mem_singleton.mp hc
      exact ⟨Nat.zero_lt_two, Option.isSome_of_eq_some (Index.get?_set_same _ _ _), nofun⟩
    · exact absurd (hmodules hl ▸ hc) List.not_mem_nil

/-- The lists of a store that has been opened are orderly, whatever has been read. -/
theorem Visited.orderly (h : s.Visited policy g) : g.Orderly ∧ 0 < g.built := by
  obtain ⟨g₀, hopened, hkept⟩ := h.keeps retains_steps fun _ => trivial
  exact ⟨hkept.orderly hopened.orderly.1, Nat.lt_of_lt_of_le hopened.orderly.2 hkept.built⟩

end Store

/-- **After a module has been initialised, what is read on demand is held and reading it computes
nothing**: of every type less deep than the bound, of its members, and of their parameters, except for
what is overlooked.  The types of the module are then those that are listed below it, as deep as the
bound allows.  This holds whatever of the store has been read before. -/
theorem ModuleId.initialise_reads {s : Store} {policy : InitPolicy} {g : Graph}
    (hg : s.Visited policy g) :
    let m : ModuleId := ⟨.built 0⟩
    let g' := (m.initialise.run g).2
    (∀ t, t ∈ (m.allTypes.run g').1 ↔ ∃ depth ≤ recursionBound, g'.Below m depth t) ∧
      ∀ depth t n d, g'.Below m depth t → depth < recursionBound → g'.Within t.node n →
        d ∈ Demand.all n → ¬d.isOverlooked depth → d.held g' ∧ (d.read.run g').2 = g' := by
  intro m g'
  obtain ⟨horderly, hknown⟩ := hg.orderly
  have hkeys : ∀ c ∈ [m.key], g.Known c := fun c hc => List.mem_singleton.mp hc ▸ hknown
  obtain ⟨hkept, hsettled⟩ := module_settled m g horderly hkeys
  obtain ⟨all, hread, hexplored⟩ := hsettled g' (refl_of Retains g')
  have horderly' := hkept.orderly horderly
  constructor
  · -- reading the types again lists no others
    obtain ⟨hlater, hagain⟩ := allTypes_settled m g' horderly' fun c hc => (hkeys c hc).mono hkept.built
    intro t
    rw [(hagain _ (refl_of Retains _)).below]
    exact exists_congr fun depth => and_congr_right fun hdepth =>
      ⟨fun ht => hread.earlier hlater ht hdepth, fun ht => ht.later hlater⟩
  · intro depth t n d hbelow hdepth hn hd hoverlooked
    have hmem := (hread.below t).mpr ⟨depth, Nat.le_of_lt hdepth, hbelow⟩
    have hheld := (hexplored t hmem).held horderly' hbelow (hread.nested depth hdepth t hbelow) hn hd
      hoverlooked
    exact ⟨hheld, Demand.read_held hheld⟩

/-- A module with a generic type, and a reference that constrains its parameter. -/
def Store.constrained : Store :=
  ((calls [.module "M", .typeRef moduleToken "N" "C", .typeDef "N" "T" 0 none,
    .genericParam (Token.ofParts .typeDef 1) 0 "X",
    .constraint (Token.ofParts .genericParam 1) (Token.ofParts .typeRef 1)]).run empty).2

/-- The type that a generic parameter belongs to has been read then. -/
theorem Store.constrained_initialise :
    let g := ((openModule constrained .perEntityLock).run .empty).2
    let g' := ((ModuleId.initialise ⟨.built 0⟩).run g).2
    let d : Demand := .owner .genericParams (.row 0 1)
    constrained.Visited .perEntityLock g ∧ g'.Below ⟨.built 0⟩ 0 ⟨.row 0 1⟩ ∧
      g'.Within ⟨.typeDef, .row 0 1⟩ d.node ∧ d ∈ Demand.all d.node ∧ ¬d.isOverlooked 0 ∧
        d.held g' ∧ (d.read.run g').2 = g' := by
  intro g g' d
  have hg : constrained.Visited .perEntityLock g := .opened (.module (by decide +kernel))
  have hbelow : g'.Below ⟨.built 0⟩ 0 ⟨.row 0 1⟩ := .top (by decide +kernel)
  have hwithin : g'.Within ⟨.typeDef, .row 0 1⟩ d.node :=
    .child (e := .genericParams) (c := .row 0 1) (by decide) (by decide) (by decide +kernel) (.root _)
  have hmem : d ∈ Demand.all d.node := by decide
  exact ⟨hg, hbelow, hwithin, hmem, by decide,
    (ModuleId.initialise_reads hg).2 _ _ _ _ hbelow (by decide) hwithin hmem (by decide)⟩

/-- **What constrains it has not**: reading that makes the reference, which had not been made. -/
theorem Store.constrained_overlooked :
    let g := ((openModule constrained .perEntityLock).run .empty).2
    let m : ModuleId := ⟨.built 0⟩
    let g' := (m.initialise.run g).2
    let d : Demand := .own .constraints (.row 0 1)
    g'.Below m 0 ⟨.row 0 1⟩ ∧ g'.Within ⟨.typeDef, .row 0 1⟩ d.node ∧ d ∈ Demand.all d.node ∧
      ¬d.held g' ∧ m.materializedCount g' (fun _ => true) = 2 ∧
        m.materializedCount (d.read.run g').2 (fun _ => true) = 3 :=
  ⟨.top (by decide +kernel),
    .child (e := .genericParams) (c := .row 0 1) (by decide) (by decide) (by decide +kernel) (.root _),
    by decide, by decide +kernel, by decide +kernel, by decide +kernel⟩

end CliMetadata
