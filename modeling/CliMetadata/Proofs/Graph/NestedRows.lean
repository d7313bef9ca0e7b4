import CliMetadata.Proofs.Graph.Opened
import CliMetadata.Proofs.Graph.ReadCalls
import CliMetadata.Proofs.Ownership.Agreeing
import CliMetadata.Proofs.Ownership.Nesting
import CliMetadata.Proofs.Store.NestedTypes

/-!
# The types of a module whose store is a forest

A store in which calls have put types, each nested in none or in an earlier one, is opened as a
module, and the module is read in any way.  The container of a row's type is then what the store
names (`Forest.noted_nested`, `Forest.noted_top`): back-references that read as none are written for
rows that a store lists for a container, and no row that is nested in none is listed for a type, nor
one that is nested for the module.  So a list, **whenever it is read, holds the types of the rows that
the store lists for it** (`Forest.items_nested`, `Forest.items_top`), none of which is ever replaced
by a private copy, and a walk from level to level meets the type of every row once
(`Forest.levels_rows`).
-/

namespace CliMetadata

open CliMetadata.Graph Loading Stateful

/-! ## Reading from a graph -/

namespace Graph

variable {g₀ g : Graph}

/-- A graph that reading has led to from another one. -/
structure ReadFrom (g₀ g : Graph) : Prop where
  perused : g₀.Perused g
  grounded : g.Grounded

/-- What is read anyway keeps it so, and a value that is the same each time is the value. -/
theorem ReadFrom.yields {α : Type} {x : GraphM α} {a : α} (hx : Keeps Peruses x)
    (hvalue : ∀ g, g₀.ReadFrom g → (x.run g).1 = a) : Yields g₀.ReadFrom x a := by
  intro g hg
  obtain ⟨hgrounded, hread⟩ := hx g hg.grounded
  exact ⟨hvalue g hg, hg.perused.trans hread, hgrounded⟩

/-- A list is what it is populated with, each time that it may be. -/
theorem items_value {e : Edge} {o : Node} {cs : List Key} (hempty : g₀.lists.get? (e, o) = none)
    (hread : ∀ g, g₀.Preserved g → g.Grounded → g.population e o = cs) (hg : g₀.ReadFrom g) :
    ((Ownership.items e o).run g).1 = cs := by
  have hheld : ∀ g' cs', g₀.ReadFrom g' → g'.lists.get? (e, o) = some cs' → cs' = cs := by
    intro g' cs' hg' hl
    rcases hg'.perused.read hl with hthere | ⟨g₁, hpreserved, hgrounded, rfl⟩
    · rw [hempty] at hthere
      cases hthere
    · exact hread g₁ hpreserved hgrounded
  obtain ⟨hgrounded, hperused⟩ := items_peruses e o g hg.grounded
  refine hheld ((Ownership.items e o).run g).2 _ ⟨hg.perused.trans hperused, hgrounded⟩ ?_
  have hslot : ∀ v (s : Graph), (listSlot e o).peek ((listSlot e o).publish v s) = some v :=
    fun v s => Index.get?_set_same _ _ _
  exact getRelaxed_read hslot

/-- What the stores name as the container of a child that stands for a row. -/
theorem stored_of_origin {e : Edge} {c : Key} {l p : Nat} (ho : g.origin ⟨e.childKind, c⟩ = .row l p)
    (hopen : (g.loader? l).isSome) : g.stored e c = ((Ownership.storedOwner e l p).run g).1 := by
  have hreader : g.reader? (.row l p) = some (l, p) := if_pos hopen
  unfold stored fromStore
  rw [run_get_bind, ho, hreader]

/-- A child that no store lists or names a container for reads as being in none. -/
theorem Preserved.unnoted (hg : g₀.Preserved g) {e : Edge} {c : Key} (hc : g₀.Certain e c)
    (hempty : g₀.owners.get? (e, c) = none) (hoffered : ¬g₀.Offered e c)
    (hstored : ∀ g₁ : Graph, (∀ l, g₁.loader? l = g₀.loader? l) →
      g₁.origin ⟨e.childKind, c⟩ = g₀.origin ⟨e.childKind, c⟩ → g₁.stored e c = none) :
    g.noted e c = none := by
  unfold Graph.noted
  cases hrecorded : g.owners.get? (e, c) with
  | none => exact hstored g hg.loader (hg.certain_origin hc)
  | some held =>
    cases held with
    | none => rfl
    | some o =>
      rcases hg.taken hc hrecorded with hthere | hlisted | ⟨g₁, hloader, horigin, hnamed⟩
      · rw [hempty] at hthere
        cases hthere
      · exact absurd hlisted hoffered
      · rw [hstored g₁ hloader horigin] at hnamed
        cases hnamed

/-- Children of rows that are there and stay are listed as the store has them. -/
theorem storedItems_stay {e : Edge} {o : Node} {l rid : Nat} {s : Store} {rids : List Nat}
    (he : e ≠ .assemblyModules) (hordered : ∀ g cs, Ownership.ordered g e cs = cs)
    (hs : g.store? l = some s)
    (hrids : s.children (Ownership.relation e)
      (if e = .moduleTypes then Store.moduleToken else Token.ofParts o.kind.table rid) = rids)
    (hself : e = .nestedTypes → rid ∉ rids)
    (hpresent : ∀ p ∈ rids, g.present ⟨e.childKind, .row l p⟩)
    (hstays : ∀ p ∈ rids, g.Stays e o (.row l p)) :
    ((Ownership.storedItems e o l rid).run g).1 = rids.map (.row l) := by
  obtain ⟨hasked, hvalue⟩ := children_run g l (Ownership.relation e)
    (if e = .moduleTypes then Store.moduleToken else Token.ofParts o.kind.table rid)
  rw [hs] at hvalue
  have hlisted : (if e = .nestedTypes then rids.filter (· != rid) else rids) = rids := by
    split
    · next hnested =>
      refine List.filter_eq_self.mpr fun p hp => ?_
      simpa using fun heq : p = rid => hself hnested (heq ▸ hp)
    · rfl
  unfold Ownership.storedItems
  rw [run_bind, hvalue, Option.map_some, Option.getD_some, hrids, hlisted, run_bind]
  generalize ((children l (Ownership.relation e) _).run g).2 = g₁ at hasked
  obtain ⟨hshared, hcandidates, -⟩ := sharedChildren_run he l rids g₁
  have hall : (rids.filter fun p => g₁.present ⟨e.childKind, .row l p⟩) = rids :=
    List.filter_eq_self.mpr fun p hp => (hasked.present _).trans (hpresent p hp)
  rw [hcandidates, hall, run_get_bind, hordered]
  obtain ⟨g₂, hrun, -⟩ := adopt_stays (l := l) (rids.map (.row l)) fun c hc => by
    obtain ⟨p, hp, rfl⟩ := List.mem_map.mp hc
    exact (hasked.trans hshared).stays_iff.mpr (hstays p hp)
  rw [hrun]

end Graph

/-! ## The types of the rows -/

namespace Store.Forest

/-- The type of a row of the first module. -/
abbrev rowType (p : Nat) : TypeDefId := ⟨.row 0 p⟩

variable {s : Store} {ups : List (Option Nat)} (h : s.Forest ups) (hn : ups.length < rowLimit)
  {policy : InitPolicy} {g : Graph} {p q : Nat}

include h

theorem moduleRow : ∃ row, s.moduleRow? = some row := Option.isSome_iff_exists.mp h.module

theorem loaded_store : (s.loaded policy).store? 0 = some s := by
  obtain ⟨row, hrow⟩ := h.moduleRow
  rw [store?, s.loaded_loader? hrow]
  rfl

theorem loaded_unnoted {e : Edge} (he : e ≠ .assemblyModules) (c : Key) :
    (s.loaded policy).owners.get? (e, c) = none := by
  obtain ⟨row, hrow⟩ := h.moduleRow
  cases hv : (s.loaded policy).owners.get? (e, c) with
  | none => rfl
  | some v => exact absurd (s.loaded_owners hrow hv).1 he

/-- The type of a row comes from the row. -/
theorem origin_row (hg : (s.loaded policy).Preserved g) (hpos : 0 < p) (hle : p ≤ ups.length) :
    g.origin (rowType p).node = .row 0 p := by
  obtain ⟨row, hrow⟩ := h.moduleRow
  obtain ⟨r, hr⟩ := h.exists_row hpos hle
  have hrid : r.rid = p := congrArg RowHead.rid (h.row hr).2.2
  have hunmade : (s.loaded policy).entities.get? (rowType p).node = none := by
    rw [s.loaded_entities hrow]
    exact if_neg (by rintro ⟨⟩)
  rw [hg.origin (n := (rowType p).node) (.inl trivial)]
  show ((Entity.typeDef ((s.loaded policy).get (rowType p))).origin?).getD .inMemory = _
  unfold Graph.get
  rw [hunmade]
  show ((Entity.typeDef ((((s.loaded policy).store? 0).bind fun s =>
    Recorded.ofRow? .typeDef s 0 p).getD (Recorded.blank .typeDef))).origin?).getD .inMemory = _
  rw [h.loaded_store, Option.bind_some]
  show ((Entity.typeDef (((nth s.typeDefs p).map _).getD _)).origin?).getD .inMemory = _
  rw [hr, ← hrid]
  rfl

theorem present_row (hl : ∀ l, g.loader? l = (s.loaded policy).loader? l) (hpos : 0 < p)
    (hle : p ≤ ups.length) : g.present (rowType p).node := by
  obtain ⟨r, hr⟩ := h.exists_row hpos hle
  have hrow : g.hasRow (rowType p).node := by
    show ((g.store? 0).bind (·.row? .typeDef p)).isSome
    rw [store?_congr hl, h.loaded_store]
    show (nth (s.typeDefs.map Row.typeDef) p).isSome
    rw [nth_map, hr]
    rfl
  rw [present, hrow, Bool.or_true]

theorem loader (hl : ∀ l, g.loader? l = (s.loaded policy).loader? l) : (g.loader? 0).isSome :=
  loader?_of_store? ((store?_congr hl 0).trans h.loaded_store)

include hn

/-- What the store names as the type that the type of a row is nested in. -/
theorem stored_nested (hl : ∀ l, g.loader? l = (s.loaded policy).loader? l)
    (ho : g.origin (rowType p).node = .row 0 p) (hle : p ≤ ups.length) :
    g.stored .nestedTypes (.row 0 p) = (up ups p).map fun q => (rowType q).node := by
  have howner : s.parent? .nestedTypes (Token.ofParts .typeDef p) =
      (up ups p).map (Token.ofParts .typeDef) := h.linkedOwner?_eq hn hle
  rw [stored_of_origin (e := .nestedTypes) ho (h.loader hl)]
  unfold Ownership.storedOwner
  simp only [run_bind, parent?_run, store?_congr hl, h.loaded_store, Option.bind_some]
  have hparent : s.parent? (Ownership.relation .nestedTypes)
      (Token.ofParts Edge.nestedTypes.childKind.table p) = (up ups p).map (Token.ofParts .typeDef) :=
    howner
  rw [hparent]
  cases hup : up ups p with
  | none => rfl
  | some q =>
    have hlt := h.up_lt hup
    have hvalue : (Token.ofParts .typeDef q).row.val = q := Nat.mod_eq_of_lt (by omega)
    have htable : (Token.ofParts .typeDef q).tableId? = some .typeDef := rfl
    dsimp only [Option.map_some]
    have hpresent : g.present ⟨.typeDef, .row 0 q⟩ := h.present_row hl hlt.1 (by omega)
    rw [if_pos htable, run_bind, shared_value, hvalue, if_pos hpresent]
    rfl

theorem stored_top (hl : ∀ l, g.loader? l = (s.loaded policy).loader? l)
    (ho : g.origin (rowType p).node = .row 0 p) (hpos : 0 < p) (hle : p ≤ ups.length) :
    g.stored .moduleTypes (.row 0 p) = if up ups p = none then some ⟨.module, .built 0⟩ else none := by
  rw [stored_of_origin (e := .moduleTypes) ho (h.loader hl)]
  unfold Ownership.storedOwner
  simp only [run_bind, parent?_run, store?_congr hl, h.loaded_store, Option.bind_some]
  show (if s.parent? .typeDefs (Token.ofParts .typeDef p) = some moduleToken
    then some _ else none) = _
  rw [h.parent?_typeDefs hn hpos hle]
  cases hup : up ups p <;> simp

/-- **The type of a row is nested in the type of the row that the store names**, after any
reading. -/
theorem noted_nested (hg : (s.loaded policy).Preserved g) (hpos : 0 < p) (hle : p ≤ ups.length) :
    g.noted .nestedTypes (.row 0 p) = (up ups p).map fun q => (rowType q).node := by
  have hempty := @loaded_unnoted _ _ h policy .nestedTypes (by decide) (.row 0 p)
  have horigin := h.origin_row (.refl (s.loaded policy)) hpos hle
  have hstored : ∀ g₁ : Graph, (∀ l, g₁.loader? l = (s.loaded policy).loader? l) →
      g₁.origin ⟨.typeDef, .row 0 p⟩ = (s.loaded policy).origin ⟨.typeDef, .row 0 p⟩ →
      g₁.stored .nestedTypes (.row 0 p) = (up ups p).map fun q => (rowType q).node :=
    fun g₁ hl ho => h.stored_nested hn hl (ho.trans horigin) hle
  cases hup : up ups p with
  | some q =>
    refine hg.noted (.inl trivial) ?_
    rw [noted, hempty, hstored _ (fun _ => rfl) rfl, hup]
    rfl
  | none =>
    refine hg.unnoted (.inl trivial) hempty ?_ fun g₁ hl ho => by rw [hstored g₁ hl ho, hup]; rfl
    rintro ⟨-, l, p', s', owner, heq, hs, hlisted⟩
    obtain ⟨rfl, rfl⟩ := Key.row.inj heq
    rw [h.loaded_store] at hs
    cases hs
    obtain ⟨q, hnested, -⟩ := h.linked hn hlisted
    rw [hup] at hnested
    cases hnested

/-- **The type of a row is in the module where it is nested in none.** -/
theorem noted_top (hg : (s.loaded policy).Preserved g) (hpos : 0 < p) (hle : p ≤ ups.length) :
    g.noted .moduleTypes (.row 0 p) = if up ups p = none then some ⟨.module, .built 0⟩ else none := by
  have hempty := @loaded_unnoted _ _ h policy .moduleTypes (by decide) (.row 0 p)
  have horigin := h.origin_row (.refl (s.loaded policy)) hpos hle
  have hstored : ∀ g₁ : Graph, (∀ l, g₁.loader? l = (s.loaded policy).loader? l) →
      g₁.origin ⟨.typeDef, .row 0 p⟩ = (s.loaded policy).origin ⟨.typeDef, .row 0 p⟩ →
      g₁.stored .moduleTypes (.row 0 p) =
        if up ups p = none then some ⟨.module, .built 0⟩ else none :=
    fun g₁ hl ho => h.stored_top hn hl (ho.trans horigin) hpos hle
  by_cases hup : up ups p = none
  · rw [if_pos hup]
    refine hg.noted (.inl trivial) ?_
    rw [noted, hempty, hstored _ (fun _ => rfl) rfl, if_pos hup]
    rfl
  · rw [if_neg hup]
    refine hg.unnoted (.inl trivial) hempty ?_ fun g₁ hl ho => by rw [hstored g₁ hl ho, if_neg hup]
    rintro ⟨-, l, p', s', owner, heq, hs, hlisted⟩
    obtain ⟨rfl, rfl⟩ := Key.row.inj heq
    rw [h.loaded_store] at hs
    cases hs
    have howner : owner = moduleToken := by
      by_contra hother
      have hnone : s.children .typeDefs owner = [] := by rw [children, if_neg hother]
      have hlisted : p ∈ s.children .typeDefs owner := hlisted
      rw [hnone] at hlisted
      cases hlisted
    subst howner
    exact hup ((h.mem_topLevel hn).mp hlisted).2.2

/-! ## Lists -/

/-- The types of the rows nested in a row. -/
abbrev nestedIn (s : Store) (q : Nat) : List Nat :=
  s.linkedChildren .nestedTypes (Token.ofParts .typeDef q)

/-- The types of the rows that are nested in none. -/
abbrev topLevel (s : Store) : List Nat := s.children .typeDefs moduleToken

omit hn in
/-- A list of rows that stay is what the store lists, whenever it is read. -/
theorem items_rows {e : Edge} {o : Node} {rid : Nat} {rids : List Nat}
    (he : e = .nestedTypes ∨ e = .moduleTypes)
    (horigin : ∀ g₁, (s.loaded policy).Preserved g₁ → g₁.origin o = .row 0 rid)
    (hrids : s.children (Ownership.relation e)
      (if e = .moduleTypes then moduleToken else Token.ofParts o.kind.table rid) = rids)
    (hself : e = .nestedTypes → rid ∉ rids) (hrows : ∀ p ∈ rids, 0 < p ∧ p ≤ ups.length)
    (hstays : ∀ g₁, (s.loaded policy).Preserved g₁ → ∀ p ∈ rids, g₁.Stays e o (.row 0 p))
    (hg : (s.loaded policy).ReadFrom g) :
    ((Ownership.items e o).run g).1 = rids.map (.row 0) := by
  obtain ⟨row, hrow⟩ := h.moduleRow
  have hkind : e.childKind = .typeDef := by rcases he with rfl | rfl <;> rfl
  refine items_value (s.loaded_lists hrow _) (fun g₁ hg₁ _ => ?_) hg
  have hstore : g₁.store? 0 = some s := (store?_congr hg₁.loader 0).trans h.loaded_store
  have hreader : g₁.reader? (.row 0 rid) = some (0, rid) := if_pos (h.loader hg₁.loader)
  unfold population fromStore
  rw [run_get_bind, horigin g₁ hg₁, hreader]
  refine storedItems_stay (by rcases he with rfl | rfl <;> decide) (fun _ _ => ?_) hstore hrids
    hself (fun p hp => ?_) (hstays g₁ hg₁)
  · rcases he with rfl | rfl <;> rfl
  · rw [hkind]
    exact h.present_row hg₁.loader (hrows p hp).1 (hrows p hp).2

/-- **The list of the type of a row, whenever it is read, holds the types of the rows nested in it.** -/
theorem items_nested (hpos : 0 < q) (hle : q ≤ ups.length) (hg : (s.loaded policy).ReadFrom g) :
    ((Ownership.items .nestedTypes (rowType q).node).run g).1 = (nestedIn s q).map (.row 0) := by
  have hup : ∀ p ∈ nestedIn s q, up ups p = some q := fun p hp =>
    (h.mem_linkedChildren hn hle).mp hp
  refine h.items_rows (.inl rfl) (fun g₁ hg₁ => h.origin_row hg₁ hpos hle) rfl
    (fun _ hself => ?_) (fun p hp => up_le (hup p hp)) (fun g₁ hg₁ p hp => ?_) hg
  · exact Nat.lt_irrefl _ (h.up_lt (hup q hself)).2
  · obtain ⟨hpos', hle'⟩ := up_le (hup p hp)
    refine ⟨by rw [h.noted_nested hn hg₁ hpos' hle', hup p hp]; rfl, ?_⟩
    rintro _ ⟨⟩
    rw [container_eq, h.noted_top hn hg₁ hpos' hle', hup p hp]
    rfl

/-- **The list of the module, whenever it is read, holds the types of the rows nested in none.** -/
theorem items_top (hg : (s.loaded policy).ReadFrom g) :
    ((Ownership.items .moduleTypes ⟨.module, .built 0⟩).run g).1 = (topLevel s).map (.row 0) := by
  obtain ⟨row, hrow⟩ := h.moduleRow
  have horigin : ∀ g₁, (s.loaded policy).Preserved g₁ →
      g₁.origin ⟨.module, .built 0⟩ = .row 0 row.rid := by
    intro g₁ hg₁
    rw [hg₁.origin (.inr (.inr rfl)), s.loaded_eq hrow]
    exact origin_grow (g := Graph.empty) (k := .module) (r := s.loadedModule policy row)
  have htop : ∀ p ∈ topLevel s, 0 < p ∧ p ≤ ups.length ∧ up ups p = none := fun p hp =>
    (h.mem_topLevel hn).mp hp
  refine h.items_rows (.inr rfl) horigin rfl (fun hother => by cases hother)
    (fun p hp => ⟨(htop p hp).1, (htop p hp).2.1⟩) (fun g₁ hg₁ p hp => ?_) hg
  obtain ⟨hpos, hle, hup⟩ := htop p hp
  refine ⟨by rw [h.noted_top hn hg₁ hpos hle, if_pos hup], ?_⟩
  rintro _ ⟨⟩
  rw [container_eq, h.noted_nested hn hg₁ hpos hle, hup]
  rfl

/-! ## The walk from level to level -/

theorem nestedTypes_yields (hpos : 0 < q) (hle : q ≤ ups.length) :
    Yields (s.loaded policy).ReadFrom (rowType q).nestedTypes ((nestedIn s q).map rowType) := by
  have hread : Yields (s.loaded policy).ReadFrom (Ownership.items .nestedTypes (rowType q).node)
      ((nestedIn s q).map (.row 0)) :=
    ReadFrom.yields (items_peruses _ _) fun g hg => h.items_nested hn hpos hle hg
  have hmapped := hread.map (List.map (Id.mk : Key → TypeDefId))
  rw [List.map_map] at hmapped
  exact hmapped

theorem types_yields : Yields (s.loaded policy).ReadFrom (ModuleId.types ⟨.built 0⟩)
    ((topLevel s).map rowType) := by
  have hread : Yields (s.loaded policy).ReadFrom (Ownership.items .moduleTypes ⟨.module, .built 0⟩)
      ((topLevel s).map (.row 0)) :=
    ReadFrom.yields (items_peruses _ _) fun g hg => h.items_top hn hg
  have hmapped := hread.map (List.map (Id.mk : Key → TypeDefId))
  rw [List.map_map] at hmapped
  exact hmapped

/-- The type of a row that is nested to a depth. -/
def Ranked (ups : List (Option Nat)) (depth : Nat) (t : TypeDefId) : Prop :=
  ∃ p, t = rowType p ∧ Nested ups p depth

omit h hn in
theorem rowType_injective : Function.Injective rowType := fun _ _ heq =>
  (Key.row.inj (congrArg Id.key heq)).2

/-- The types nested in a type. -/
def kids (s : Store) (t : TypeDefId) : List TypeDefId :=
  match t.key with
  | .row _ q => (nestedIn s q).map rowType
  | .built _ => []

/-- The types nested in those of a level are those of the next, each once. -/
theorem kids_level {depth : Nat} {ts : List TypeDefId} (hts : ∀ t, t ∈ ts ↔ Ranked ups depth t)
    (hnodup : ts.Nodup) : (∀ t, t ∈ (ts.map (kids s)).flatten ↔ Ranked ups (depth + 1) t) ∧
      (ts.map (kids s)).flatten.Nodup := by
  have hkids : ∀ u ∈ ts, ∀ t, t ∈ kids s u ↔ ∃ p q, t = rowType p ∧ u = rowType q ∧
      up ups p = some q := by
    intro u hu t
    obtain ⟨q, rfl, hq⟩ := (hts u).mp hu
    show t ∈ (nestedIn s q).map rowType ↔ _
    rw [List.mem_map]
    constructor
    · rintro ⟨p, hp, rfl⟩
      exact ⟨p, q, rfl, rfl, (h.mem_linkedChildren hn hq.row.2).mp hp⟩
    · rintro ⟨p, q', rfl, hsame, hup⟩
      obtain rfl := rowType_injective hsame
      exact ⟨p, (h.mem_linkedChildren hn hq.row.2).mpr hup, rfl⟩
  constructor
  · intro t
    rw [List.mem_flatten]
    constructor
    · rintro ⟨_, hl, ht⟩
      obtain ⟨u, hu, rfl⟩ := List.mem_map.mp hl
      obtain ⟨p, q, rfl, rfl, hup⟩ := (hkids u hu t).mp ht
      obtain ⟨q', hsame, hq⟩ := (hts _).mp hu
      obtain rfl := rowType_injective hsame
      exact ⟨p, rfl, .inside hup hq⟩
    · rintro ⟨p, rfl, hp⟩
      cases hp with
      | @inside _ q _ hup hq =>
        have hu : rowType q ∈ ts := (hts _).mpr ⟨q, rfl, hq⟩
        exact ⟨_, List.mem_map_of_mem hu, (hkids _ hu _).mpr ⟨p, q, rfl, rfl, hup⟩⟩
  · rw [List.nodup_flatten, List.pairwise_map]
    constructor
    · intro l hl
      obtain ⟨u, hu, rfl⟩ := List.mem_map.mp hl
      obtain ⟨q, rfl, -⟩ := (hts u).mp hu
      exact (h.linkedChildren_nodup hn _).map rowType_injective
    · refine hnodup.imp_of_mem fun {u u'} hu hu' hne t ht ht' => hne ?_
      -- a row is nested in one row
      obtain ⟨p, q, rfl, rfl, hup⟩ := (hkids u hu t).mp ht
      obtain ⟨p', q', hsame, rfl, hup'⟩ := (hkids u' hu' _).mp ht'
      obtain rfl := rowType_injective hsame
      rw [hup] at hup'
      exact congrArg rowType (Option.some.inj hup')

/-- **Every row is met once** on the walk from level to level, where none is nested too deep. -/
theorem levels_rows (hdepth : ∀ p depth, Nested ups p depth → depth ≤ recursionBound) :
    ∃ all, Yields (s.loaded policy).ReadFrom (ModuleId.allTypes ⟨.built 0⟩) all ∧
      all.Perm ((List.range' 1 ups.length).map rowType) := by
  have htop : ∀ t, t ∈ (topLevel s).map rowType ↔ Ranked ups 0 t := by
    intro t
    rw [List.mem_map]
    constructor
    · rintro ⟨p, hp, rfl⟩
      obtain ⟨hpos, hle, hup⟩ := (h.mem_topLevel hn).mp hp
      exact ⟨p, rfl, .top hpos hle hup⟩
    · rintro ⟨p, rfl, hp⟩
      cases hp with
      | top hpos hle hup => exact ⟨p, (h.mem_topLevel hn).mpr ⟨hpos, hle, hup⟩, rfl⟩
  have hread : ∀ {depth t}, Ranked ups depth t →
      Yields (s.loaded policy).ReadFrom t.nestedTypes (kids s t) := by
    rintro depth _ ⟨q, rfl, hq⟩
    exact h.nestedTypes_yields hn hq.row.1 hq.row.2
  have hunique : ∀ {depth k t}, Ranked ups depth t → Ranked ups k t → k = depth := by
    rintro depth k _ ⟨p, rfl, hp⟩ ⟨p', hsame, hp'⟩
    obtain rfl := rowType_injective hsame
    exact hp.unique hp'
  obtain ⟨all, hall, hallNodup, hmem⟩ := levels_ranked hread (h.kids_level hn) hunique
    recursionBound htop (h.topLevel_nodup.map rowType_injective)
  refine ⟨all, (h.types_yields hn).bind hall, ?_⟩
  have hrows : ((List.range' 1 ups.length).map rowType).Nodup :=
    List.Nodup.map rowType_injective List.nodup_range'
  refine (List.perm_ext_iff_of_nodup hallNodup hrows).mpr fun t => ?_
  rw [hmem, List.mem_map]
  constructor
  · rintro ⟨depth, -, -, p, rfl, hp⟩
    exact ⟨p, List.mem_range'_1.mpr ⟨hp.row.1, by have := hp.row.2; omega⟩, rfl⟩
  · rintro ⟨p, hp, rfl⟩
    obtain ⟨hpos, hlt⟩ := List.mem_range'_1.mp hp
    obtain ⟨depth, hnested⟩ := h.nested p hpos (by omega)
    have hbound := hdepth p depth hnested
    exact ⟨depth, Nat.zero_le _, by omega, p, rfl, hnested⟩

/-! ## Single types -/

omit hn in
/-- The type of a row is what the module gives for its number. -/
theorem typeDef_value (hpos : 0 < p) (hle : p ≤ ups.length) (hg : (s.loaded policy).ReadFrom g) :
    ((ModuleId.typeDef ⟨.built 0⟩ p).run g).1 = .ok (rowType p) := by
  have hpresent : g.present ⟨.typeDef, .row 0 p⟩ := h.present_row hg.perused.loader hpos hle
  unfold ModuleId.typeDef ModuleId.row
  dsimp only
  have hget : StateT.run (MonadState.get : GraphM Graph) g = (g, g) := rfl
  rw [run_bind, hget, if_pos (h.loader hg.perused.loader), run_bind, shared_value, if_pos hpresent]
  rfl

theorem declaringType_value (hpos : 0 < p) (hle : p ≤ ups.length)
    (hg : (s.loaded policy).ReadFrom g) :
    ((rowType p).declaringType.run g).1 = (up ups p).map rowType := by
  have howner : g.container .nestedTypes (.row 0 p) = (up ups p).map fun q => (rowType q).node := by
    rw [container_eq, h.noted_nested hn hg.perused.toPreserved hpos hle]
    cases hup : up ups p with
    | none => rfl
    | some q =>
      have hlt := h.up_lt hup
      have halive : g.alive (rowType q).node :=
        present_alive (h.present_row hg.perused.loader hlt.1 (by omega))
      rw [Option.map_some, Option.filter_some, if_pos halive]
  show (g.container .nestedTypes (.row 0 p)).map _ = _
  rw [howner, Option.map_map]
  rfl

theorem ownerModule_value (hpos : 0 < p) (hle : p ≤ ups.length)
    (hg : (s.loaded policy).ReadFrom g) :
    ((rowType p).ownerModule.run g).1 = if up ups p = none then some ⟨.built 0⟩ else none := by
  show (g.container .moduleTypes (.row 0 p)).map _ = _
  rw [container_eq, h.noted_top hn hg.perused.toPreserved hpos hle]
  split
  · rw [Option.filter_some, if_pos hg.grounded.based]
    rfl
  · rfl

end Store.Forest

/-! ## Calls and what the module lists -/

open Store

/-- **A module lists the types that calls have added**, one entry of `types` for each call. -/
structure Graph.Lists (g : Graph) (m : ModuleId) (calls : List TypeCall) (types : List TypeDefId) :
    Prop where
  /-- Each type is listed once. -/
  allTypes : (m.allTypes.run g).1.Perm types
  /-- It is the type that the module gives for the number of the row. -/
  typeDef : ∀ {i : Nat} {t : TypeDefId}, types[i]? = some t →
    ((m.typeDef (i + 1)).run g).1 = .ok t
  top : ∀ {i : Nat} {c : TypeCall} {t : TypeDefId}, calls[i]? = some c → types[i]? = some t →
    c.enclosing? = none →
    (t.declaringType.run g).1 = none ∧ (t.ownerModule.run g).1 = some m ∧ t ∈ (m.types.run g).1
  /-- It is nested in the type that the module gives for the row of its token. -/
  nested : ∀ {i : Nat} {c : TypeCall} {t : TypeDefId} {enclosing : Token}, calls[i]? = some c →
    types[i]? = some t → c.enclosing? = some enclosing →
    ∃ u, ((m.typeDef enclosing.row.val).run g).1 = .ok u ∧ (t.declaringType.run g).1 = some u ∧
      (t.ownerModule.run g).1 = none ∧ t ∈ (u.nestedTypes.run g).1

namespace Store

/-- A type, a type nested in it, one nested in that, and another type. -/
def threeLevels : List TypeCall :=
  [.top "N" "Outer" 0 none, .nested (Token.ofParts .typeDef 1) "Middle" 0,
    .nested (Token.ofParts .typeDef 2) "Inner" 0, .top "" "Other" 0 none]

theorem threeLevels_enclosed : Enclosed threeLevels ((addModuleTypes "M" threeLevels).run empty).1 := by
  rw [addModuleTypes_tokens]
  intro i c t hc ht
  rcases i with _ | _ | _ | _ | i
  · cases hc
    cases ht
  · cases hc
    cases ht
    exact ⟨0, Nat.zero_lt_one, rfl⟩
  · cases hc
    cases ht
    exact ⟨1, Nat.one_lt_two, rfl⟩
  · cases hc
    cases ht
  · cases hc

end Store
end CliMetadata
