import CliMetadata.Proofs.Comparison.Columns
import CliMetadata.Proofs.Comparison.Equality
import CliMetadata.Proofs.Graph.Whole
import CliMetadata.Proofs.Resolution.Agreement
import Mathlib.Data.List.Nodup

/-!
# Looking down and comparing upwards

A module answers a reference on the way down: it goes through its lists of types, one level
for each reference of the chain.  A comparison goes up: from the type along its
back-references and from the reference along its scopes, and then compares the two paths.
**The two agree on the types that a module collects** (`ModuleId.find_iff_equal`), where the
lists of the module own what they list (`Graph.Owning`) and no two types of one list share
both namespace and name (`Graph.Distinct`).

Both ways meet in the lineage of a type (`Graph.Lineage`): the type with those that it is
listed in, up to the list of the module.  Collecting reads the lineages of at most
`recursionBound + 1` types and holds the lists of all but the innermost
(`ModuleId.allTypes_lineage`).  Going down finds the type whose lineage has the path of the
reference (`ModuleId.find_lineage`), and the way up from a type reads its lineage as its
path where that is within the bound (`Graph.Lineage.pathOf`), and as none otherwise.  A
reference has no path either where its chain is longer than the bound, or does not end.

Answers are taken in any graph that has been consulted since the types were collected
(`Graph.Browsed`), and looking up and comparing lead to such graphs again.
-/

namespace CliMetadata

open CliMetadata.Graph Loading Stateful

/-! ## Walks and the bound -/

namespace Chain

variable {α : Type} {S : Graph → Prop} {next : α → Option α} {up : α → GraphM (Option α)}

/-- A climb that is not shorter than the bound is not collected to its end. -/
theorem Climbs.ancestors_exceed : ∀ {bound : Nat} {start : Option α} {xs : List α},
    Climbs next start xs → bound ≤ xs.length → (∀ x ∈ xs, Yields S (up x) (next x)) → ∀ g, S g →
    ((Chain.ancestors up bound start).run g).1.2 = false
  | 0, _, _, _, _, _, _, _ => rfl
  | n + 1, none, _, .ended, hbound, _, _, _ => absurd hbound (Nat.not_succ_le_zero n)
  | n + 1, some x, _ :: xs, .step above, hbound, hup, g, hg => by
    obtain ⟨hvalue, hkept⟩ := hup x List.mem_cons_self g hg
    rw [Chain.ancestors, run_bind, hvalue, run_bind]
    exact ancestors_exceed above (Nat.le_of_succ_le_succ hbound)
      (fun y hy => hup y (List.mem_cons_of_mem _ hy)) _ hkept

end Chain

/-- A type that more types enclose than the bound allows has no path. -/
theorem TypeDefId.path?_exceed {g : Graph} {t : TypeDefId} {ts : List TypeDefId}
    (climbs : Chain.Climbs (above g) (some t) ts) (h : recursionBound < ts.length) :
    (t.path?.run g).1 = none := by
  obtain ⟨rest, rfl, habove⟩ :
      ∃ rest, ts = t :: rest ∧ Chain.Climbs (above g) (above g t) rest := by
    cases climbs with
    | step habove => exact ⟨_, rfl, habove⟩
  obtain ⟨hvalue, hstate⟩ := yields_above g t g (Asked.refl g)
  have hended := habove.ancestors_exceed (Nat.le_of_lt_succ h) (fun y _ => yields_above g y) _ hstate
  rw [path?, run_bind, hvalue, run_bind, run_get_bind]
  show (if _ then _ else none) = none
  rw [hended]
  rfl

/-- A chain is within the bound. -/
theorem TypeRefId.nestingChain_bounded {g : Graph} {r : TypeRefId} {chain : List TypeRefId}
    (h : (r.nestingChain.run g).1 = some chain) : chain.length ≤ recursionBound := by
  rw [nestingChain, run_bind] at h
  obtain ⟨rs, hrs, rfl⟩ := Option.map_eq_some_iff.mp h
  rw [List.length_reverse]
  exact (chain_climbs hrs (.refl _)).2.1

namespace Graph

variable {g g' g'' : Graph} {m : ModuleId} {t u : TypeDefId} {ts us : List TypeDefId}

/-! ## Lineages -/

/-- **A type of a module with the types that it is listed in**, innermost first. -/
inductive Lineage (g : Graph) (m : ModuleId) : TypeDefId → List TypeDefId → Prop
  | top {t : TypeDefId} (listed : t.key ∈ g.held .moduleTypes m.node) : Lineage g m t [t]
  | inner {t u : TypeDefId} {ts : List TypeDefId} (listed : u.key ∈ g.held .nestedTypes t.node)
      (outer : Lineage g m t ts) : Lineage g m u (u :: ts)

/-- **The lists of a module own what they list**: no type encloses the types of the module's
own list, and those nested in a type have it as what encloses them.  Which module the
former name is not looked at on either way. -/
structure Owning (g : Graph) (m : ModuleId) : Prop where
  top : ∀ {t : TypeDefId}, t.key ∈ g.held .moduleTypes m.node → (t.declaringType.run g).1 = none
  nested : ∀ {t u : TypeDefId} {ts : List TypeDefId}, g.Lineage m t ts →
    u.key ∈ g.held .nestedTypes t.node → (u.declaringType.run g).1 = some t

/-- The types of a list differ by namespace or name. -/
def Apart (g : Graph) (cs : List Key) : Prop :=
  ∀ t u : TypeDefId, t.key ∈ cs → u.key ∈ cs → t.level g = u.level g → t = u

/-- **No two types of the same list share both namespace and name.** -/
structure Distinct (g : Graph) (m : ModuleId) : Prop where
  top : g.Apart (g.held .moduleTypes m.node)
  nested : ∀ {t : TypeDefId} {ts : List TypeDefId}, g.Lineage m t ts →
    g.Apart (g.held .nestedTypes t.node)

/-- Types are apart where no level comes twice among theirs. -/
theorem Apart.of_nodup {cs : List Key} (h : (cs.map fun c => TypeDefId.level g ⟨c⟩).Nodup) :
    g.Apart cs := fun _ _ ht hu hlevel =>
  congrArg Id.mk (List.inj_on_of_nodup_map h ht hu hlevel)

/-- Whether lists are distinct can be told from what there are entries for. -/
theorem Distinct.of_entries
    (h : ∀ p ∈ g.lists.entries, (p.2.map fun c => TypeDefId.level g ⟨c⟩).Nodup) (m : ModuleId) :
    g.Distinct m := by
  have hheld : ∀ e o, g.Apart (g.held e o) := by
    intro e o
    unfold held
    cases hl : g.lists.get? (e, o) with
    | none => exact .of_nodup .nil
    | some cs => exact .of_nodup (h ((e, o), cs) (g.lists.mem_entries.mpr hl))
  exact ⟨hheld _ _, fun _ => hheld _ _⟩

/-- Lists that agree with the back-references everywhere do so in every module. -/
theorem WellNested.owning (h : g.WellNested) (m : ModuleId) : g.Owning m where
  top ht := (h.top ht).2
  nested _ hu := h.nested hu

namespace Lineage

theorem head (h : g.Lineage m t ts) : ∃ rest, ts = t :: rest := by
  cases h with
  | top _ => exact ⟨[], rfl⟩
  | inner _ _ => exact ⟨_, rfl⟩

theorem length_pos (h : g.Lineage m t ts) : 0 < ts.length := by
  obtain ⟨rest, rfl⟩ := h.head
  exact Nat.succ_pos _

/-- The types that a type is listed in have lineages of their own. -/
theorem outer : ∀ {xs : List TypeDefId} {t : TypeDefId},
    g.Lineage m t (xs ++ u :: us) → g.Lineage m u (u :: us)
  | [], _, h => by
    obtain ⟨_, heq⟩ := h.head
    obtain rfl : u = _ := (List.cons.inj heq).1
    exact h
  | x :: xs, _, h => by
    obtain ⟨y, ys, hsplit⟩ : ∃ y ys, xs ++ u :: us = y :: ys :=
      List.exists_cons_of_ne_nil (by simp)
    rw [List.cons_append, hsplit] at h
    cases h with
    | inner _ above =>
      rw [← hsplit] at above
      exact outer above

/-- There are lineages of every lesser length. -/
theorem lesser (h : g.Lineage m t ts) : ∀ {k : Nat}, 0 < k → k ≤ ts.length →
    ∃ u us, g.Lineage m u us ∧ us.length = k := by
  induction h with
  | @top t listed =>
    intro k hpos hk
    exact ⟨t, [t], .top listed, Nat.le_antisymm hpos hk⟩
  | @inner t u ts listed above ih =>
    intro k hpos hk
    rcases Nat.le_succ_iff.mp hk with hk | rfl
    · exact ih hpos hk
    · exact ⟨u, u :: ts, .inner listed above, rfl⟩

/-- **Going up climbs the lineage** of a type that is owned by its lists. -/
theorem climbs (owning : g.Owning m) (h : g.Lineage m t ts) :
    Chain.Climbs (TypeDefId.above g) (some t) ts := by
  induction h with
  | @top t listed =>
    refine .step ?_
    rw [TypeDefId.above, owning.top listed]
    exact .ended
  | @inner t u ts listed above ih =>
    refine .step ?_
    rw [TypeDefId.above, owning.nested above listed]
    exact ih

/-- **The path of a type is that of its lineage**, within the bound. -/
theorem pathOf (owning : g.Owning m) (h : g.Lineage m t ts) :
    g.pathOf (.typeDef t) =
      if ts.length ≤ recursionBound then some (ts.reverse.map (TypeDefId.level g)) else none := by
  have hclimbs := h.climbs owning
  show (t.path?.run g).1 = _
  split
  · next hbound =>
    have henclosed : TypeDefId.Enclosed g t ts := ⟨hclimbs, hbound⟩
    exact henclosed.path?_run.1
  · next hbound => exact TypeDefId.path?_exceed hclimbs (Nat.lt_of_not_le hbound)

/-- What has a lineage is there. -/
theorem present (hg : g.Whole) (h : g.Lineage m t ts) : g.present t.node := by
  have listed : ∀ {e : Edge} {o : Node} {c : Key}, c ∈ g.held e o → g.present ⟨e.childKind, c⟩ := by
    intro e o c hc
    unfold held at hc
    cases hl : g.lists.get? (e, o) with
    | none =>
      rw [hl] at hc
      exact absurd hc List.not_mem_nil
    | some cs =>
      rw [hl] at hc
      exact hg.listed hl hc
  cases h with
  | top hc => exact listed hc
  | inner hc _ => exact listed hc

end Lineage

/-! ## Collecting -/

/-- The list of a type is held. -/
abbrev Opened (g : Graph) (t : TypeDefId) : Prop := (g.lists.get? (.nestedTypes, t.node)).isSome

theorem keeps_nestedTypes (t : TypeDefId) : Keeps Later t.nestedTypes :=
  (keeps_items _ _).bind fun _ => Keeps.pure _

theorem keeps_levels {R : Graph → Graph → Prop} [IsPreorder Graph R]
    (h : ∀ t : TypeDefId, Keeps R t.nestedTypes) : ∀ (bound : Nat) (ts : List TypeDefId),
    Keeps R (ModuleId.levels bound ts)
  | 0, _ => Keeps.pure _
  | _ + 1, [] => Keeps.pure _
  | n + 1, _ :: _ =>
    (Keeps.mapM h _).bind fun _ => (keeps_levels h n _).bind fun _ => Keeps.pure _

/-- The types nested in some types are read as they are held from then on. -/
theorem nestedTypes_mapM : ∀ {ts : List TypeDefId} {g : Graph},
    ((ts.mapM TypeDefId.nestedTypes).run g).2.Later g' →
    (∀ u ∈ ts, g'.Opened u) ∧ ((ts.mapM TypeDefId.nestedTypes).run g).1 =
      ts.map fun u => (g'.held .nestedTypes u.node).map Id.mk
  | [], g, _ => ⟨by simp, rfl⟩
  | t :: ts, g, h => by
    have hlist := items_read g .nestedTypes t.node
    rw [List.mapM_cons, run_bind, run_bind] at h ⊢
    have hheld := ((Keeps.mapM keeps_nestedTypes ts _).trans h).list hlist
    obtain ⟨hopened, hvalue⟩ := nestedTypes_mapM h
    refine ⟨fun u hu => ?_, ?_⟩
    · rcases List.mem_cons.mp hu with rfl | hu
      · rw [Opened, hheld]
        rfl
      · exact hopened u hu
    · rw [List.map_cons, held_eq hheld]
      exact congrArg₂ List.cons rfl hvalue

/-- The types nested in those at a place of their lineages are at the next. -/
theorem mem_nextPlace {ts : List TypeDefId} {depth : Nat}
    (hts : ∀ t, t ∈ ts ↔ ∃ us, g.Lineage m t us ∧ us.length = depth + 1) (t : TypeDefId) :
    t ∈ (ts.map fun u => (g.held .nestedTypes u.node).map Id.mk).flatten ↔
      ∃ us, g.Lineage m t us ∧ us.length = depth + 2 := by
  rw [List.mem_flatten]
  constructor
  · rintro ⟨l, hl, ht⟩
    obtain ⟨u, hu, rfl⟩ := List.mem_map.mp hl
    obtain ⟨key, hkey, rfl⟩ := List.mem_map.mp ht
    obtain ⟨us, hus, hlength⟩ := (hts u).mp hu
    exact ⟨_, .inner hkey hus, congrArg Nat.succ hlength⟩
  · rintro ⟨us, hus, hlength⟩
    cases hus with
    | top _ => cases hlength
    | inner listed outer =>
      refine ⟨_, List.mem_map_of_mem ((hts _).mpr ⟨_, outer, Nat.succ.inj hlength⟩), ?_⟩
      exact List.mem_map_of_mem (f := Id.mk) listed

/-- What is read from a level on is the level and what is read from the next one on. -/
theorem levels_some {bound : Nat} {t : TypeDefId} {ts all : List TypeDefId}
    (h : (ModuleId.levels (bound + 1) (t :: ts)).run g = (all, g')) :
    let nested := ((t :: ts).mapM TypeDefId.nestedTypes).run g
    ∃ rest, (ModuleId.levels bound nested.1.flatten).run nested.2 = (rest, g') ∧
      t :: ts ++ rest = all := by
  intro nested
  rw [show ModuleId.levels (bound + 1) (t :: ts) = (do
    let nested ← (t :: ts).mapM TypeDefId.nestedTypes
    return t :: ts ++ (← ModuleId.levels bound nested.flatten)) from rfl, run_bind, run_bind] at h
  obtain ⟨rfl, hstate⟩ := Prod.ext_iff.mp h
  exact ⟨_, Prod.ext rfl hstate, rfl⟩

/-- **Levels are read along lineages**: from a level on come the types from its place on,
within the bound, and what is nested in all but the last of them is held. -/
theorem levels_lineage : ∀ (bound : Nat) {depth : Nat} {ts all : List TypeDefId} {g : Graph},
    (ModuleId.levels bound ts).run g = (all, g') →
    (∀ t, t ∈ ts ↔ ∃ us, g'.Lineage m t us ∧ us.length = depth + 1) →
    (∀ t, t ∈ all ↔
      ∃ us, g'.Lineage m t us ∧ depth < us.length ∧ us.length ≤ depth + 1 + bound) ∧
    ∀ t us, g'.Lineage m t us → depth < us.length → us.length ≤ depth + bound → g'.Opened t
  | 0, depth, ts, all, g, h, hts => by
    cases h
    refine ⟨fun t => (hts t).trans ⟨?_, ?_⟩, fun t us _ hlow hhigh => by omega⟩
    · rintro ⟨us, hus, hlength⟩
      exact ⟨us, hus, by omega, by omega⟩
    · rintro ⟨us, hus, hlow, hhigh⟩
      exact ⟨us, hus, by omega⟩
  | bound + 1, depth, [], all, g, h, hts => by
    cases h
    have hnone : ∀ t us, g'.Lineage m t us → ¬depth < us.length := by
      intro t us hus hlow
      obtain ⟨u, us', hus', hlength⟩ := hus.lesser (Nat.succ_pos depth) hlow
      exact List.not_mem_nil ((hts u).mpr ⟨us', hus', hlength⟩)
    refine ⟨fun t => iff_of_false List.not_mem_nil ?_, fun t us hus hlow => ?_⟩
    · rintro ⟨us, hus, hlow, -⟩
      exact hnone t us hus hlow
    · exact absurd hlow (hnone t us hus)
  | bound + 1, depth, t₀ :: ts, all, g, h, hts => by
    obtain ⟨rest, hrest, rfl⟩ := levels_some h
    obtain ⟨hopened, hnested⟩ := nestedTypes_mapM ((keeps_levels keeps_nestedTypes bound _).result hrest)
    rw [hnested] at hrest
    obtain ⟨hmem, hinner⟩ := levels_lineage bound hrest (mem_nextPlace hts)
    refine ⟨fun t => ?_, fun t us hus hlow hhigh => ?_⟩
    · rw [List.mem_append, hts, hmem]
      constructor
      · rintro (⟨us, hus, hlength⟩ | ⟨us, hus, hlow, hhigh⟩)
        · exact ⟨us, hus, by omega, by omega⟩
        · exact ⟨us, hus, by omega, by omega⟩
      · rintro ⟨us, hus, hlow, hhigh⟩
        rcases Nat.eq_or_lt_of_le hlow with hlength | hlow
        · exact Or.inl ⟨us, hus, hlength.symm⟩
        · exact Or.inr ⟨us, hus, by omega, by omega⟩
    · rcases Nat.eq_or_lt_of_le hlow with hlength | hlow
      · exact hopened t ((hts t).mpr ⟨us, hus, hlength.symm⟩)
      · exact hinner t us hus (by omega) (by omega)

/-- **What a module collects** is the types of its lineages that are one longer than the
bound at most; then the lists of the module and of all types but the innermost are held. -/
theorem allTypes_lineage {all : List TypeDefId} (h : m.allTypes.run g = (all, g')) :
    (∀ t, t ∈ all ↔ ∃ ts, g'.Lineage m t ts ∧ ts.length ≤ recursionBound + 1) ∧
    (g'.lists.get? (.moduleTypes, m.node)).isSome ∧
    ∀ t ts, g'.Lineage m t ts → ts.length ≤ recursionBound → g'.Opened t := by
  rw [ModuleId.allTypes, run_bind, ModuleId.types_run] at h
  have hlist := items_read g .moduleTypes m.node
  have hlater := keeps_levels keeps_nestedTypes recursionBound (((Ownership.items .moduleTypes m.node).run g).1.map Id.mk)
    ((Ownership.items .moduleTypes m.node).run g).2
  rw [show ((ModuleId.levels recursionBound _).run _).2 = g' from congrArg Prod.snd h] at hlater
  have hheld := hlater.list hlist
  have htop : ∀ t : TypeDefId, t ∈ ((Ownership.items .moduleTypes m.node).run g).1.map Id.mk ↔
      ∃ us, g'.Lineage m t us ∧ us.length = 0 + 1 := by
    intro t
    rw [← held_eq hheld]
    constructor
    · intro ht
      obtain ⟨key, hkey, rfl⟩ := List.mem_map.mp ht
      exact ⟨_, .top hkey, rfl⟩
    · rintro ⟨us, hus, hlength⟩
      cases hus with
      | top listed => exact List.mem_map_of_mem (f := Id.mk) listed
      | inner _ outer => exact absurd outer.length_pos (by rw [Nat.succ.inj hlength]; exact Nat.lt_irrefl 0)
  obtain ⟨hmem, hinner⟩ := levels_lineage recursionBound h htop
  refine ⟨fun t => (hmem t).trans ⟨?_, ?_⟩, by rw [hheld]; rfl, fun t ts hts hlength => ?_⟩
  · rintro ⟨us, hus, -, hhigh⟩
    exact ⟨us, hus, by omega⟩
  · rintro ⟨us, hus, hhigh⟩
    exact ⟨us, hus, hus.length_pos, by omega⟩
  · exact hinner t ts hts hts.length_pos (by omega)

/-! ## Browsing -/

/-- **A graph that has been consulted without a list being read**: the lists are the same. -/
structure Browsed (g g' : Graph) : Prop extends Consulted g g' where
  lists : g'.lists = g.lists

/-- Two graphs with the same lists. -/
def SameLists (g g' : Graph) : Prop := g'.lists = g.lists

instance : IsPreorder Graph SameLists where
  refl _ := rfl
  trans _ _ _ h k := k.trans h

theorem sameLists_read {k : Kind} {ρ : Type} [Recorded k ρ] [Recorded.Lawful k] {α : Type}
    {z : LazySlot k α} (id : Id k) : Keeps SameLists (z.read id) := by
  intro g
  cases hv : z.get (g.get id) with
  | some v =>
    rw [z.run_held hv]
    exact refl_of SameLists g
  | none =>
    obtain ⟨v, htold, -⟩ := z.told_stored g id
    rw [z.run_empty hv]
    exact htold.quiet.lists

/-- Comparing reads no lists. -/
theorem readsKeep_lists : ReadsKeep SameLists where
  owner e c g := (owner_run g e c).1.lists
  scope := sameLists_read (z := TypeRefId.lazyScope)
  spec := sameLists_read (z := TypeSpecId.lazySig)

namespace Browsed

theorem refl (g : Graph) : g.Browsed g := ⟨.refl g, rfl⟩

theorem held (h : g.Browsed g') (e : Edge) (o : Node) : g'.held e o = g.held e o := by
  rw [Graph.held, h.lists]
  rfl

/-- What gives one value in all consulted graphs and reads no lists gives it in those that
have been browsed. -/
theorem yields {α : Type} {x : GraphM α} {P : α → Prop} (hx : Settles g.Consulted x P)
    (hlists : Keeps SameLists x) : Yields g.Browsed x (x.run g).1 := by
  intro g' h
  obtain ⟨hvalue, hstate⟩ := (hx.value (.refl g)).1 g' h.toConsulted
  exact ⟨hvalue, hstate, (hlists g').trans h.lists⟩

end Browsed

/-! ## Going down -/

section Descent

variable {r : TypeRefId}

/-- The chain of a reference reads alike wherever has been browsed. -/
theorem browsed_nestingChain (hg : g.Intact) (hr : g.present r.node) :
    Yields g.Browsed r.nestingChain (r.nestingChain.run g).1 :=
  Browsed.yields (P := fun _ => True)
    ((settles_chain (fun _ => hg.settles_enclosing) _ r hr).bind fun _ _ => .pure trivial)
    ((keeps_chain readsKeep_lists.within.enclosing _ r).bind fun _ => Keeps.pure _)

/-- The path of a reference is that of its chain. -/
theorem pathOf_typeRef (hg : g.Intact) (hr : g.present r.node) :
    g.pathOf (.typeRef r) =
      (r.nestingChain.run g).1.map fun chain => chain.map (TypeRefId.level g) := by
  have hafter := (browsed_nestingChain hg hr g (.refl g)).2
  have hlevel : TypeRefId.level (r.nestingChain.run g).2 = TypeRefId.level g :=
    funext hafter.typeRef_level
  show (r.path?.run g).1 = _
  rw [TypeRefId.path?, run_bind, run_get_bind, hlevel]
  rfl

/-- The first type of a list at the level of a reference is the one at that level, where the
types of the list differ. -/
theorem firstAt_iff (h : g.Browsed g') {cs : List Key} (apart : g.Apart cs) :
    ModuleId.firstAt g' r (cs.map Id.mk) = some t ↔
      t.key ∈ cs ∧ t.level g = r.level g := by
  have hlevel : ∀ u : TypeDefId, (u.level g' == r.level g') = true ↔ u.level g = r.level g := by
    intro u
    rw [beq_iff_eq, h.typeDef_level, h.typeRef_level]
  unfold ModuleId.firstAt
  constructor
  · intro hfound
    obtain ⟨key, hkey, rfl⟩ := List.mem_map.mp (List.mem_of_find?_eq_some hfound)
    exact ⟨hkey, (hlevel ⟨key⟩).mp (by simpa using List.find?_some hfound)⟩
  · rintro ⟨hkey, hsame⟩
    have hsome : ((cs.map Id.mk).find? fun u : TypeDefId => u.level g' == r.level g').isSome :=
      List.find?_isSome.mpr ⟨t, List.mem_map_of_mem (f := Id.mk) hkey, (hlevel t).mpr hsame⟩
    obtain ⟨u, hu⟩ := Option.isSome_iff_exists.mp hsome
    obtain ⟨key, hkey', rfl⟩ := List.mem_map.mp (List.mem_of_find?_eq_some hu)
    have hother := (hlevel ⟨key⟩).mp (by simpa using List.find?_some hu)
    rw [hu, apart ⟨key⟩ t hkey' hkey (hother.trans hsame.symm)]

/-- **What a descent comes to** that started below the types `us`: the graph is as it was, and
what is found is the type whose lineage has the levels of the references beyond `us`. -/
structure Descended (g g' : Graph) (m : ModuleId) (us : List TypeDefId) (refs : List TypeRefId)
    (result : Option TypeDefId × Graph) : Prop where
  state : result.2 = g'
  found : ∀ t, result.1 = some t ↔ ∃ ts, g.Lineage m t (ts ++ us) ∧
    ts.map (TypeDefId.level g) = (refs.map (TypeRefId.level g)).reverse

/-- A level down picks a type of a list, below which the descent goes on. -/
theorem descended_level (h : g.Browsed g') {cs : List Key} (apart : g.Apart cs)
    (listed : ∀ w : TypeDefId, w.key ∈ cs ↔ g.Lineage m w (w :: us)) {rest : List TypeRefId}
    (below : ∀ w, g.Lineage m w (w :: us) →
      Descended g g' m (w :: us) rest ((ModuleId.descend w rest).run g')) :
    Descended g g' m us (r :: rest)
      ((match ModuleId.firstAt g' r (cs.map Id.mk) with
        | some w => ModuleId.descend w rest
        | none => pure none : GraphM (Option TypeDefId)).run g') := by
  have hpick := fun w => firstAt_iff (t := w) (r := r) h apart
  -- a lineage with the levels passes what is picked
  have hfirst : ∀ t ts, g.Lineage m t (ts ++ us) →
      ts.map (TypeDefId.level g) = ((r :: rest).map (TypeRefId.level g)).reverse →
      ∃ ts' w, ModuleId.firstAt g' r (cs.map Id.mk) = some w ∧ g.Lineage m t (ts' ++ w :: us) ∧
        ts'.map (TypeDefId.level g) = (rest.map (TypeRefId.level g)).reverse := by
    intro t ts hts hlevels
    rw [List.map_cons, List.reverse_cons] at hlevels
    obtain ⟨ts', last, rfl, hts', hlast⟩ := List.map_eq_append_iff.mp hlevels
    obtain ⟨w, rfl, hw⟩ := List.map_eq_singleton_iff.mp hlast
    rw [List.append_assoc] at hts
    exact ⟨ts', w, (hpick w).mpr ⟨(listed w).mpr hts.outer, hw⟩, hts, hts'⟩
  cases hw : ModuleId.firstAt g' r (cs.map Id.mk) with
  | none =>
    refine ⟨rfl, fun t => iff_of_false (by rintro ⟨⟩) ?_⟩
    rintro ⟨ts, hts, hlevels⟩
    obtain ⟨_, w, hfound, -⟩ := hfirst t ts hts hlevels
    cases hw.symm.trans hfound
  | some w =>
    obtain ⟨hlisted, hlevel⟩ := (hpick w).mp hw
    obtain ⟨hstate, hvalue⟩ := below w ((listed w).mp hlisted)
    refine ⟨hstate, fun t => (hvalue t).trans ⟨?_, ?_⟩⟩
    · rintro ⟨ts, hts, hlevels⟩
      refine ⟨ts ++ [w], by rwa [List.append_assoc], ?_⟩
      rw [List.map_append, hlevels, List.map_cons (l := rest), List.reverse_cons, ← hlevel]
      rfl
    · rintro ⟨ts, hts, hlevels⟩
      obtain ⟨ts', w', hfound, hts', hlevels'⟩ := hfirst t ts hts hlevels
      obtain rfl : w = w' := Option.some.inj (hw.symm.trans hfound)
      exact ⟨ts', hts', hlevels'⟩

section Opened

variable (distinct : g.Distinct m) (h : g.Browsed g')
  (opened : ∀ t ts, g.Lineage m t ts → ts.length ≤ recursionBound → g.Opened t)
include distinct h opened

/-- **Going down from a type adds to its lineage** the levels of the references, and finds
the type that has them. -/
theorem descend_lineage : ∀ (refs : List TypeRefId) {u : TypeDefId} {us : List TypeDefId},
    g.Lineage m u us → us.length + refs.length ≤ recursionBound + 1 →
    Descended g g' m us refs ((ModuleId.descend u refs).run g')
  | [], u, us, hus, _ => by
    refine ⟨rfl, fun t => ?_⟩
    constructor
    · rintro ⟨⟩
      exact ⟨[], hus, rfl⟩
    · rintro ⟨ts, hts, hlevels⟩
      obtain rfl := List.map_eq_nil_iff.mp hlevels
      obtain ⟨_, rfl⟩ := hus.head
      obtain ⟨_, heq⟩ := hts.head
      exact congrArg some (List.cons.inj heq).1
  | r :: rest, u, us, hus, hlength => by
    rw [List.length_cons] at hlength
    obtain ⟨cs, hcs⟩ := Option.isSome_iff_exists.mp (opened u us hus (by omega))
    have hrun : u.nestedTypes.run g' = (cs.map Id.mk, g') := by
      rw [TypeDefId.nestedTypes_run, items_held (h.lists ▸ hcs)]
    have apart := distinct.nested hus
    rw [held_eq hcs] at apart
    rw [ModuleId.descend, run_bind, hrun, run_get_bind]
    refine descended_level h apart (fun w => ?_) fun w hw =>
      descend_lineage rest hw (by rw [List.length_cons]; omega)
    rw [← held_eq hcs]
    refine ⟨fun hlisted => .inner hlisted hus, fun hw => ?_⟩
    obtain ⟨_, rfl⟩ := hus.head
    cases hw with
    | inner listed outer =>
      obtain ⟨_, heq⟩ := outer.head
      rwa [← (List.cons.inj heq).1] at listed

/-- So does going down from the list of a module, along a chain within the bound. -/
theorem find_descended (listed : (g.lists.get? (.moduleTypes, m.node)).isSome)
    {outermost : TypeRefId} {inner : List TypeRefId}
    (hlength : (outermost :: inner).length ≤ recursionBound) :
    Descended g g' m [] (outermost :: inner) ((do
      let ts ← m.types
      match ModuleId.firstAt (← MonadState.get) outermost ts with
      | some t => ModuleId.descend t inner
      | none => return none : GraphM (Option TypeDefId)).run g') := by
  obtain ⟨cs, hcs⟩ := Option.isSome_iff_exists.mp listed
  have hrun : m.types.run g' = (cs.map Id.mk, g') := by
    rw [ModuleId.types_run, items_held (h.lists ▸ hcs)]
  have apart := distinct.top
  rw [held_eq hcs] at apart
  rw [run_bind, hrun, run_get_bind]
  refine descended_level h apart (fun w => ?_) fun w hw =>
    descend_lineage distinct h opened inner hw (by rw [Nat.add_comm]; exact Nat.succ_le_succ (Nat.le_of_succ_le hlength))
  rw [← held_eq hcs]
  refine ⟨fun hlisted => .top hlisted, fun hw => ?_⟩
  cases hw with
  | top listed => exact listed
  | inner _ outer => exact absurd outer.length_pos (Nat.lt_irrefl 0)

/-- **A module finds the type whose lineage has the path of the reference**, and leaves the
lists alone. -/
theorem find_lineage (hg : g.Intact) (hr : g.present r.node)
    (listed : (g.lists.get? (.moduleTypes, m.node)).isSome) :
    g.Browsed ((m.find r).run g').2 ∧ ∀ t, ((m.find r).run g').1 = some t ↔
      ∃ ts, g.Lineage m t ts ∧ g.pathOf (.typeRef r) = some (ts.reverse.map (TypeDefId.level g)) := by
  obtain ⟨hvalue, hafter⟩ := browsed_nestingChain hg hr g' h
  rw [pathOf_typeRef hg hr, ModuleId.find, run_bind, hvalue]
  generalize (r.nestingChain.run g').2 = g₁ at hafter
  cases hc : (r.nestingChain.run g).1 with
  | none => exact ⟨hafter, fun t => iff_of_false (by rintro ⟨⟩) (by rintro ⟨ts, -, ⟨⟩⟩)⟩
  | some chain =>
    cases chain with
    | nil =>
      refine ⟨hafter, fun t => iff_of_false (by rintro ⟨⟩) ?_⟩
      rintro ⟨ts, hts, heq⟩
      obtain ⟨_, rfl⟩ := hts.head
      simp at heq
    | cons outermost inner =>
      obtain ⟨hstate, hfound⟩ :=
        find_descended distinct hafter opened listed (TypeRefId.nestingChain_bounded hc)
      refine ⟨hstate.symm ▸ hafter, fun t => (hfound t).trans (exists_congr fun ts => ?_)⟩
      rw [List.append_nil, Option.map_some, Option.some.injEq, List.map_reverse (f := TypeDefId.level g),
        ← List.reverse_eq_iff, eq_comm (a := (ts.map (TypeDefId.level g)).reverse)]

end Opened

end Descent

end Graph

/-! ## Both ways -/

section Both

variable {g g' g₁ g₂ : Graph} {m : ModuleId} {r : TypeRefId} {all : List TypeDefId}

/-- Collecting the types of a module keeps a graph whole, with all that was there. -/
theorem ModuleId.allTypes_whole (m : ModuleId) (hg : g.Whole) :
    (m.allTypes.run g).2.Whole ∧
      ∀ {n}, n.kind ≠ .customAttribute → g.present n → (m.allTypes.run g).2.present n := by
  have hnested : ∀ t : TypeDefId, Keeps Extended t.nestedTypes := fun t =>
    (keepsExtended_items (by decide) (List.mem_singleton.mpr rfl)).bind fun _ => Keeps.pure _
  have htypes : Keeps Extended m.types :=
    (keepsExtended_items (by decide) (List.mem_singleton.mpr rfl)).bind fun _ => Keeps.pure _
  have hextended := (htypes.bind fun ts => keeps_levels hnested recursionBound ts) g
  exact ⟨hg.extended hextended, hextended.present⟩

/-- A type is equal to a reference where they have the same path, wherever this is asked. -/
theorem equalTypes_pathOf {t : TypeDefId} (hg : g.Intact) (ht : g.present t.node)
    (hr : g.present r.node) (h : g.Browsed g') :
    let equal := (CompareOptions.equalTypes {} (.typeDef t) (.typeRef r)).run g'
    g.Browsed equal.2 ∧
      (equal.1 = true ↔ ∃ p, g.pathOf (.typeDef t) = some p ∧ g.pathOf (.typeRef r) = some p) := by
  intro equal
  have hdecides : Decides g.Consulted (CompareOptions.equalTypes {} (.typeDef t) (.typeRef r))
      (CompareOptions.PathsAgree {} g (.typeDef t) (.typeRef r)) :=
    CompareOptions.decides_pathsEqual hg ht hr
  obtain ⟨hvalue, hstate⟩ := Browsed.yields hdecides
    (readsKeep_lists.within.pathsEqual {} (.typeDef t) (.typeRef r)) g' h
  refine ⟨hstate, ?_⟩
  rw [hvalue, (hdecides.value (.refl g)).2]
  simp [CompareOptions.PathsAgree]

/-- **Looking down agrees with comparing upwards.**  Once the types of a module have been
collected, let its lists own what they list and no two types of one list share namespace and
name.  Then, whatever is consulted in between, the module gives a collected type for a
reference exactly where the type is equal to the reference, and it gives none where no
collected type is. -/
theorem ModuleId.find_iff_equal (hg : g.Whole) (hr : g.present r.node)
    (hall : m.allTypes.run g = (all, g')) (owning : g'.Owning m) (distinct : g'.Distinct m)
    (h₁ : g'.Browsed g₁) (h₂ : g'.Browsed g₂) :
    (∀ t ∈ all, ((m.find r).run g₁).1 = some t ↔
      ((CompareOptions.equalTypes {} (.typeDef t) (.typeRef r)).run g₂).1 = true) ∧
    ((∀ t ∈ all, ((CompareOptions.equalTypes {} (.typeDef t) (.typeRef r)).run g₂).1 = false) →
      ((m.find r).run g₁).1 = none) := by
  obtain ⟨hmem, hlisted, hopened⟩ := allTypes_lineage hall
  obtain ⟨hwhole, hpresent⟩ := m.allTypes_whole hg
  rw [hall] at hwhole hpresent
  replace hpresent := hpresent (n := r.node) (by rintro ⟨⟩) hr
  obtain ⟨-, hfind⟩ := find_lineage distinct h₁ hopened hwhole.intact hpresent hlisted
  have hequal : ∀ t ts, g'.Lineage m t ts →
      (((CompareOptions.equalTypes {} (.typeDef t) (.typeRef r)).run g₂).1 = true ↔
        ts.length ≤ recursionBound ∧
          g'.pathOf (.typeRef r) = some (ts.reverse.map (TypeDefId.level g'))) := by
    intro t ts hts
    rw [(equalTypes_pathOf hwhole.intact (hts.present hwhole) hpresent h₂).2, hts.pathOf owning]
    split
    · next hbound => simp [hbound, eq_comm]
    · next hbound => simp [hbound]
  have hfound : ∀ t, ((m.find r).run g₁).1 = some t ↔
      t ∈ all ∧ ((CompareOptions.equalTypes {} (.typeDef t) (.typeRef r)).run g₂).1 = true := by
    intro t
    rw [hfind, hmem]
    constructor
    · rintro ⟨ts, hts, hpath⟩
      have hbound : ts.length ≤ recursionBound := by
        obtain ⟨chain, hchain, hlevels⟩ :=
          Option.map_eq_some_iff.mp ((pathOf_typeRef hwhole.intact hpresent).symm.trans hpath)
        have hlength := congrArg List.length hlevels
        rw [List.length_map, List.length_map, List.length_reverse] at hlength
        exact hlength ▸ TypeRefId.nestingChain_bounded hchain
      exact ⟨⟨ts, hts, Nat.le_succ_of_le hbound⟩, (hequal t ts hts).mpr ⟨hbound, hpath⟩⟩
    · rintro ⟨⟨ts, hts, -⟩, htrue⟩
      exact ⟨ts, hts, ((hequal t ts hts).mp htrue).2⟩
  refine ⟨fun t ht => (hfound t).trans (and_iff_right ht), fun hnone => ?_⟩
  refine Option.eq_none_iff_forall_not_mem.mpr fun t ht => ?_
  obtain ⟨hcollected, htrue⟩ := (hfound t).mp ht
  cases (hnone t hcollected).symm.trans htrue

/-- In a module with a type nested in another, the reference of two levels finds the inner type,
which is equal to it, and the outer type is not found, which is not. -/
theorem Resolver.find_innerType :
    ((ModuleId.find ⟨.built 0⟩ ⟨.built 4⟩).run innerType).1 = some ⟨.built 2⟩ ∧
    ((CompareOptions.equalTypes {} (.typeDef ⟨.built 2⟩) (.typeRef ⟨.built 4⟩)).run innerType).1 =
      true ∧
    ((CompareOptions.equalTypes {} (.typeDef ⟨.built 1⟩) (.typeRef ⟨.built 4⟩)).run innerType).1 ≠
      true := by
  have hall : (ModuleId.allTypes ⟨.built 0⟩).run innerType =
      ([⟨.built 1⟩, ⟨.built 2⟩], innerType) := rfl
  have howning := ((innerType_reached.kept empty_sound).sound.wellNested).owning ⟨.built 0⟩
  have hdistinct : innerType.Distinct ⟨.built 0⟩ := .of_entries (by decide +kernel) _
  obtain ⟨hiff, -⟩ := ModuleId.find_iff_equal (r := ⟨.built 4⟩) (by decide +kernel)
    (by decide +kernel) hall howning hdistinct (.refl _) (.refl _)
  have hfind : ((ModuleId.find ⟨.built 0⟩ ⟨.built 4⟩).run innerType).1 = some ⟨.built 2⟩ := rfl
  refine ⟨hfind, (hiff _ (by decide)).mp hfind, fun htrue => ?_⟩
  cases hfind.symm.trans ((hiff _ (by decide)).mpr htrue)

end Both
end CliMetadata
