import CliMetadata.Graph.Modules
import CliMetadata.Proofs.Ownership.Memory

/-!
# Nesting

The types of a module are collected on the way down, level by level, through lists; the
module of a type is found on the way up, through back-references.  Both ways give up at
`recursionBound`.

`Graph.Below g m depth t` says that a type is at some depth below a module: at depth 0
the module lists it, and at every further depth it is nested in a type one level up.  A
type is below no more than one module, at no more than one depth (`Below.unique`).  The
levels read on the way down are those depths, from the first (`levels_below`), and the
way up comes to the module from the same ones (`moduleWithin_below`).  **So a module
collects the types that read it as theirs, each of them once**
(`Reaches.allTypes_module`), and a type whose enclosing types go round in a cycle, or
are too many, is in no module and in no collection.
-/

namespace CliMetadata
namespace Graph

open Loading Stateful

variable {g g' : Graph} {m : ModuleId} {t u : TypeDefId} {depth : Nat}

/-! ## What reading leaves in place -/

/-- **A graph without stores in which reading has moved nothing.** -/
structure Unmoved (g g' : Graph) : Prop where
  owned : g'.Owned
  storeless : ∀ l, g'.loader? l = none
  held : ∀ e o, g'.held e o = g.held e o
  noted : ∀ e c, g'.noted e c = g.noted e c

namespace Unmoved

theorem refl (h : g.Owned) (hm : g.Mutual) : g.Unmoved g :=
  ⟨h, hm.storeless, fun _ _ => rfl, fun _ _ => rfl⟩

/-- A list reads as it is held. -/
theorem items (g : Graph) (e : Edge) (o : Node) :
    Yields (Unmoved g) (Ownership.items e o) (g.held e o) := by
  intro g' h
  obtain ⟨hvalue, hafter⟩ := items_storeless h.storeless e o
  refine ⟨hvalue.trans (h.held e o), ?_⟩
  rcases hafter with hsame | ⟨hset, hempty⟩
  · rw [hsame]
    exact h
  · -- a list that had not been read is written down as the empty one it reads as
    rw [hset]
    refine ⟨h.owned.setList .nil (fun _ hc => absurd hc List.not_mem_nil)
      fun _ _ _ hc => absurd hc List.not_mem_nil, h.storeless, fun e' o' => ?_, fun e' c => ?_⟩
    · rw [held_setList]
      split
      · next heq =>
        cases heq
        rw [← h.held, hempty]
      · exact h.held e' o'
    · rw [noted_setList]
      exact h.noted e' c

/-- A back-reference reads as it is noted. -/
theorem owner (g : Graph) (e : Edge) (c : Key) :
    Yields (Unmoved g) (Ownership.owner e c) (g.noted e c) := by
  intro g' h
  have hasked := (owner_run g' e c).1
  refine ⟨(h.owned.owner_value e c).trans (h.noted e c), h.owned.asked hasked, ?_, ?_, ?_⟩
  · exact fun l => (hasked.loader l).trans (h.storeless l)
  · intro e' o
    rw [Graph.held, hasked.lists]
    exact h.held e' o
  · exact fun e' c' => (hasked.noted e' c').trans (h.noted e' c')

theorem types (g : Graph) (m : ModuleId) :
    Yields (Unmoved g) m.types ((g.held .moduleTypes m.node).map Id.mk) :=
  (items g _ _).bind (.pure _)

theorem nestedTypes (g : Graph) (t : TypeDefId) :
    Yields (Unmoved g) t.nestedTypes ((g.held .nestedTypes t.node).map Id.mk) :=
  (items g _ _).bind (.pure _)

theorem declaringType (g : Graph) (t : TypeDefId) :
    Yields (Unmoved g) t.declaringType ((g.noted .nestedTypes t.key).map fun n => ⟨n.key⟩) :=
  (owner g _ _).bind (.pure _)

theorem ownerModule (g : Graph) (t : TypeDefId) :
    Yields (Unmoved g) t.ownerModule ((g.noted .moduleTypes t.key).map fun n => ⟨n.key⟩) :=
  (owner g _ _).bind (.pure _)

end Unmoved

/-! ## Depths -/

/-- **A type at a depth below a module.** -/
inductive Below (g : Graph) (m : ModuleId) : (depth : Nat) → TypeDefId → Prop
  | top {t : TypeDefId} (listed : t.key ∈ g.held .moduleTypes m.node) : Below g m 0 t
  | nested {depth : Nat} {t u : TypeDefId} (listed : t.key ∈ g.held .nestedTypes u.node)
      (above : Below g m depth u) : Below g m (depth + 1) t

namespace Below

/-- A type is below one module at most, and at one depth. -/
theorem unique (ho : g.Owned) (h : Below g m depth t) : ∀ {m' : ModuleId} {k : Nat},
    Below g m' k t → m' = m ∧ k = depth := by
  induction h with
  | top listed =>
    intro m' k h'
    cases h' with
    | top listed' =>
      have hsame := (ho.listed listed').symm.trans (ho.listed listed)
      exact ⟨Id.node_inj (Option.some.inj (Option.some.inj hsame)), rfl⟩
    | nested listed' _ =>
      -- a type that is nested in another is in no module
      have hnone := ho.apart (e := .nestedTypes) rfl listed'
      rw [noted_of_recorded (ho.listed listed)] at hnone
      cases hnone
  | @nested depth t u listed above ih =>
    intro m' k h'
    cases h' with
    | top listed' =>
      have hnone := ho.apart (e := .nestedTypes) rfl listed
      rw [noted_of_recorded (ho.listed listed')] at hnone
      cases hnone
    | @nested k _ u' listed' above' =>
      have hsame := (ho.listed listed').symm.trans (ho.listed listed)
      obtain rfl : u' = u := Id.node_inj (Option.some.inj (Option.some.inj hsame))
      obtain ⟨hm, hk⟩ := ih above'
      exact ⟨hm, congrArg Nat.succ hk⟩

end Below

/-! ## The way down -/

/-- The types nested in those of a level are those of the next. -/
theorem mem_nextLevel {ts : List TypeDefId} (hts : ∀ t, t ∈ ts ↔ Below g m depth t)
    (t : TypeDefId) :
    t ∈ (ts.map fun u => (g.held .nestedTypes u.node).map Id.mk).flatten ↔
      Below g m (depth + 1) t := by
  rw [List.mem_flatten]
  constructor
  · rintro ⟨l, hl, ht⟩
    obtain ⟨u, hu, rfl⟩ := List.mem_map.mp hl
    obtain ⟨key, hkey, rfl⟩ := List.mem_map.mp ht
    exact .nested hkey ((hts u).mp hu)
  · rintro (_ | ⟨listed, above⟩)
    exact ⟨_, List.mem_map_of_mem ((hts _).mpr above), List.mem_map_of_mem (f := Id.mk) listed⟩

/-- No type is nested twice in those of a level. -/
theorem nodup_nextLevel (ho : g.Owned) {ts : List TypeDefId} (hts : ts.Nodup) :
    (ts.map fun u => (g.held .nestedTypes u.node).map Id.mk : List (List TypeDefId)).flatten.Nodup := by
  have hinjective : Function.Injective (Id.mk : Key → TypeDefId) := fun _ _ h => congrArg Id.key h
  rw [List.nodup_flatten, List.pairwise_map]
  constructor
  · intro l hl
    obtain ⟨u, -, rfl⟩ := List.mem_map.mp hl
    exact (ho.nodup .nestedTypes u.node).map hinjective
  · refine hts.imp fun {u u'} hne t ht ht' => hne ?_
    -- a type that is in both lists has both as what it is nested in
    obtain ⟨key, hkey, rfl⟩ := List.mem_map.mp ht
    obtain ⟨key', hkey', heq⟩ := List.mem_map.mp ht'
    obtain rfl : key' = key := congrArg Id.key heq
    have hsame := (ho.listed hkey).symm.trans (ho.listed hkey')
    exact Id.node_inj (Option.some.inj (Option.some.inj hsame))

/-- **The levels read from one on**, where each is nested in the one before: every type of the
ranks within the bound, once. -/
theorem levels_ranked {S : Graph → Prop} {kids : TypeDefId → List TypeDefId}
    {rank : Nat → TypeDefId → Prop}
    (hread : ∀ {depth t}, rank depth t → Yields S t.nestedTypes (kids t))
    (hnext : ∀ {depth} {ts : List TypeDefId}, (∀ t, t ∈ ts ↔ rank depth t) → ts.Nodup →
      (∀ t, t ∈ (ts.map kids).flatten ↔ rank (depth + 1) t) ∧ (ts.map kids).flatten.Nodup)
    (hunique : ∀ {depth k t}, rank depth t → rank k t → k = depth) :
    ∀ (bound : Nat) {depth : Nat} {ts : List TypeDefId},
      (∀ t, t ∈ ts ↔ rank depth t) → ts.Nodup →
      ∃ all, Yields S (ModuleId.levels bound ts) all ∧ all.Nodup ∧
        ∀ t, t ∈ all ↔ ∃ k, depth ≤ k ∧ k ≤ depth + bound ∧ rank k t
  | 0, depth, ts, hts, hnodup => by
    refine ⟨ts, .pure ts, hnodup, fun t => (hts t).trans ?_⟩
    constructor
    · exact fun h => ⟨depth, Nat.le_refl _, Nat.le_refl _, h⟩
    · rintro ⟨k, hlow, hhigh, h⟩
      exact Nat.le_antisymm hlow hhigh ▸ h
  | bound + 1, depth, [], hts, _ => by
    -- below an empty level there is nothing
    have hnone : ∀ (more : Nat) (t : TypeDefId), ¬rank (depth + more) t := by
      intro more
      induction more with
      | zero => exact fun t ht => List.not_mem_nil ((hts t).mpr ht)
      | succ more ih =>
        have hempty : ∀ t, t ∈ ([] : List TypeDefId) ↔ rank (depth + more) t :=
          fun t => iff_of_false List.not_mem_nil (ih t)
        exact fun t ht => List.not_mem_nil (((hnext hempty .nil).1 t).mpr ht)
    refine ⟨[], .pure [], .nil, fun t => iff_of_false List.not_mem_nil ?_⟩
    rintro ⟨k, hlow, -, h⟩
    obtain ⟨more, rfl⟩ := Nat.exists_eq_add_of_le hlow
    exact hnone more t h
  | bound + 1, depth, t₀ :: ts, hts, hnodup => by
    obtain ⟨hlevel, hlevelNodup⟩ := hnext hts hnodup
    obtain ⟨rest, hrest, hrestNodup, hmem⟩ :=
      levels_ranked hread hnext hunique bound hlevel hlevelNodup
    have hkids := Yields.mapM (S := S) fun u (hu : u ∈ t₀ :: ts) => hread ((hts u).mp hu)
    refine ⟨t₀ :: ts ++ rest, hkids.bind (hrest.bind (.pure _)), ?_, fun t => ?_⟩
    · refine List.nodup_append.mpr ⟨hnodup, hrestNodup, ?_⟩
      rintro u hu _ hu' rfl
      obtain ⟨k, hlow, -, hk⟩ := (hmem u).mp hu'
      have hdepth := hunique ((hts u).mp hu) hk
      omega
    · rw [List.mem_append, hts, hmem]
      constructor
      · rintro (h | ⟨k, hlow, hhigh, h⟩)
        · exact ⟨depth, Nat.le_refl _, Nat.le_add_right _ _, h⟩
        · exact ⟨k, by omega, by omega, h⟩
      · rintro ⟨k, hlow, hhigh, h⟩
        rcases Nat.eq_or_lt_of_le hlow with rfl | hlow
        · exact Or.inl h
        · exact Or.inr ⟨k, hlow, by omega, h⟩

/-- **The levels read from one on** are the depths from it on, within the bound. -/
theorem levels_below (ho : g.Owned) (bound : Nat) {depth : Nat} {ts : List TypeDefId}
    (hts : ∀ t, t ∈ ts ↔ Below g m depth t) (hnodup : ts.Nodup) :
    ∃ all, Yields (Unmoved g) (ModuleId.levels bound ts) all ∧ all.Nodup ∧
      ∀ t, t ∈ all ↔ ∃ k, depth ≤ k ∧ k ≤ depth + bound ∧ Below g m k t :=
  levels_ranked (fun _ => Unmoved.nestedTypes g _)
    (fun hts hnodup => ⟨mem_nextLevel hts, nodup_nextLevel ho hnodup⟩)
    (fun h k => (h.unique ho k).2) bound hts hnodup

/-! ## The way up -/

section Up

variable (ho : g.Owned) (hm : g.Mutual)
include ho hm

/-- A back-reference names the list that a child is in. -/
theorem noted_held {e : Edge} {c : Key} {o : Node} : g.noted e c = some o ↔ c ∈ g.held e o := by
  rw [noted_storeless hm.storeless]
  exact ⟨hm.listed, ho.listed⟩

/-- A type that is nested in none is below a module only at the top. -/
theorem below_top (hn : g.noted .nestedTypes t.key = none) :
    Below g m depth t ↔ depth = 0 ∧ g.noted .moduleTypes t.key = some m.node := by
  rw [noted_held ho hm]
  constructor
  · rintro (listed | ⟨listed, -⟩)
    · exact ⟨rfl, listed⟩
    · rw [(noted_held ho hm).mpr listed] at hn
      cases hn
  · rintro ⟨rfl, listed⟩
    exact .top listed

/-- A nested type is one level below what it is nested in. -/
theorem below_nested (hn : g.noted .nestedTypes t.key = some u.node) :
    Below g m depth t ↔ ∃ above, depth = above + 1 ∧ Below g m above u := by
  have hlisted := (noted_held ho hm).mp hn
  constructor
  · rintro (listed | @⟨above, _, u', listed, hu'⟩)
    · have hnone := ho.apart (e := .nestedTypes) rfl hlisted
      rw [(noted_held ho hm).mpr listed] at hnone
      cases hnone
    · have hsame := hn.symm.trans ((noted_held ho hm).mpr listed)
      obtain rfl : u = u' := Id.node_inj (Option.some.inj hsame)
      exact ⟨above, rfl, hu'⟩
  · rintro ⟨above, rfl, hu⟩
    exact .nested hlisted hu

/-- **The way up from a type** ends in a module where the type is below it, no deeper
than the bound. -/
theorem moduleWithin_below : ∀ (bound : Nat) (t : TypeDefId),
    ∃ found, Yields (Unmoved g) (TypeDefId.moduleWithin bound t) found ∧
      ∀ m, found = some m ↔ ∃ k, k ≤ bound ∧ Below g m k t := by
  intro bound t
  have hread := Unmoved.declaringType g t
  cases hn : g.noted .nestedTypes t.key with
  | none =>
    rw [hn] at hread
    refine ⟨(g.noted .moduleTypes t.key).map fun n => ⟨n.key⟩, ?_, fun m => ?_⟩
    · unfold TypeDefId.moduleWithin
      exact hread.bind (Unmoved.ownerModule g t)
    · simp only [below_top ho hm hn]
      constructor
      · intro hfound
        obtain ⟨n, hnoted, rfl⟩ := Option.map_eq_some_iff.mp hfound
        -- what has a type on this edge is a module
        obtain ⟨kind, key⟩ := n
        obtain rfl : kind = .module := List.mem_singleton.mp (ho.noted_kind hnoted)
        exact ⟨0, Nat.zero_le _, rfl, hnoted⟩
      · rintro ⟨_, -, rfl, hnoted⟩
        rw [hnoted]
        rfl
  | some o =>
    obtain ⟨kind, key⟩ := o
    obtain rfl : kind = .typeDef := List.mem_singleton.mp (ho.noted_kind hn)
    rw [hn] at hread
    have hbelow : ∀ m k, Below g m k t ↔ ∃ above, k = above + 1 ∧ Below g m above ⟨key⟩ :=
      fun m k => below_nested ho hm (u := ⟨key⟩) hn
    simp only [hbelow]
    cases bound with
    | zero =>
      refine ⟨none, ?_, fun m => iff_of_false (by rintro ⟨⟩) ?_⟩
      · unfold TypeDefId.moduleWithin
        exact hread.bind (.pure none)
      · rintro ⟨_, hk, above, rfl, -⟩
        exact Nat.not_succ_le_zero _ hk
    | succ bound =>
      obtain ⟨found, hfound, hmodule⟩ := moduleWithin_below bound ⟨key⟩
      refine ⟨found, ?_, fun m => (hmodule m).trans ?_⟩
      · unfold TypeDefId.moduleWithin
        exact hread.bind hfound
      · constructor
        · rintro ⟨above, hk, hu⟩
          exact ⟨above + 1, Nat.succ_le_succ hk, above, rfl, hu⟩
        · rintro ⟨_, hk, above, rfl, hu⟩
          exact ⟨above, Nat.le_of_succ_le_succ hk, hu⟩

end Up

/-! ## Both ways -/

/-- **A module collects the types that read it as their module**, and none of them twice. -/
theorem Reaches.allTypes_module (h : Graph.empty.Reaches g) (m : ModuleId) :
    (∀ t : TypeDefId, t ∈ (m.allTypes.run g).1 ↔ (t.module.run g).1 = some m) ∧
      (m.allTypes.run g).1.Nodup := by
  have ho := (h.kept empty_sound).sound.owned
  have hm := h.mutual
  have hg := Unmoved.refl ho hm
  -- the first level is what the module lists
  have htop : ∀ t : TypeDefId,
      t ∈ (g.held .moduleTypes m.node).map Id.mk ↔ Below g m 0 t := by
    intro t
    constructor
    · intro ht
      obtain ⟨key, hkey, rfl⟩ := List.mem_map.mp ht
      exact .top hkey
    · rintro ⟨listed⟩
      exact List.mem_map_of_mem (f := Id.mk) listed
  have hnodup : ((g.held .moduleTypes m.node).map Id.mk : List TypeDefId).Nodup :=
    (ho.nodup _ _).map fun _ _ heq => congrArg Id.key heq
  obtain ⟨all, hall, hallNodup, hmem⟩ := levels_below ho recursionBound htop hnodup
  have hdown : (m.allTypes.run g).1 = all := ((Unmoved.types g m).bind hall g hg).1
  rw [hdown]
  refine ⟨fun t => ?_, hallNodup⟩
  obtain ⟨found, hfound, hmodule⟩ := moduleWithin_below ho hm recursionBound t
  have hup : (t.module.run g).1 = found := (hfound g hg).1
  rw [hup, hmem, hmodule]
  constructor
  · rintro ⟨k, -, hk, ht⟩
    exact ⟨k, by omega, ht⟩
  · rintro ⟨k, hk, ht⟩
    exact ⟨k, Nat.zero_le k, by omega, ht⟩

/-- A module with a type, a type nested in it, and a type nested in itself. -/
def nestedModule : Graph :=
  ((do
    let m ← makeModule .empty
    let outer ← makeTypeDef .empty .empty 0
    let inner ← makeTypeDef .empty .empty 0
    let looped ← makeTypeDef .empty .empty 0
    let _ ← Ownership.add .moduleTypes m.node outer.key
    let _ ← Ownership.add .nestedTypes outer.node inner.key
    let _ ← Ownership.add .nestedTypes looped.node looped.key : GraphM Unit).run .empty).2

theorem nestedModule_reached : Graph.empty.Reaches nestedModule := by
  have htype : InMemory .typeDef (⟨0, .inMemory, 0, .empty, .empty, some none⟩ : TypeDef) :=
    ⟨fun _ _ => by rintro ⟨⟩, fun m hm => by cases hm⟩
  have hmodule := Reaches.makeModule empty_sound .refl .empty
  have hmade := ((hmodule.make .typeDef htype).make .typeDef htype).make .typeDef htype
  have houter := hmade.action (.add .moduleTypes ⟨.module, .built 0⟩ (.built 2))
    ⟨⟨by decide +kernel, by decide⟩, by decide +kernel⟩
  have hinner := houter.action (.add .nestedTypes ⟨.typeDef, .built 2⟩ (.built 3))
    ⟨⟨by decide +kernel, by decide⟩, by decide +kernel⟩
  exact hinner.action (.add .nestedTypes ⟨.typeDef, .built 4⟩ (.built 4))
    ⟨⟨by decide +kernel, by decide⟩, by decide +kernel⟩

/-- The nested type is collected, and the one that is nested in itself is not. -/
theorem nestedModule_allTypes :
    Graph.empty.Reaches nestedModule ∧
      ⟨.built 3⟩ ∈ ((ModuleId.allTypes ⟨.built 0⟩).run nestedModule).1 ∧
      ⟨.built 4⟩ ∉ ((ModuleId.allTypes ⟨.built 0⟩).run nestedModule).1 := by
  have hinner : ((TypeDefId.module ⟨.built 3⟩).run nestedModule).1 = some ⟨.built 0⟩ := by
    decide +kernel
  have hlooped : ((TypeDefId.module ⟨.built 4⟩).run nestedModule).1 ≠ some ⟨.built 0⟩ := by
    decide +kernel
  obtain ⟨hmem, -⟩ := nestedModule_reached.allTypes_module ⟨.built 0⟩
  exact ⟨nestedModule_reached, (hmem _).mpr hinner, fun hlisted => hlooped ((hmem _).mp hlisted)⟩

end Graph
end CliMetadata
