import CliMetadata.Proofs.Ownership.Listing

/-!
# Linked rows

A store says on two sides which container a row belongs to.  It lists the rows of an
owner in the order of the links (`Store.linkedRows`), and it names one owner for a row:
that of the row's first link, or the one in the row's column (`Store.firstOwner?`).  A
row that is linked under several owners is listed for all of them and belongs to the
first.

`Store.WellLinked` asks that links name owners that there are.  **Then what is read of a
row's container is its first owner** (`Graph.stored_row`), and a type that is linked as
nested is read as in no module (`Graph.stored_moduleTypes`).
-/

namespace CliMetadata

open CliMetadata.Graph Loading Stateful

/-- The kind of the rows that children on an edge are linked to, where links are kept. -/
def Edge.linkOwner? : Edge → Option Kind
  | nestedTypes | fields | methods | properties | events => some .typeDef
  | params => some .methodDef
  | moduleTypes | genericParams | assemblyModules => none

/-- Whether the children on an edge belong to the row of a type or a method. -/
def Edge.ofRows : Edge → Bool
  | moduleTypes | assemblyModules => false
  | _ => true

theorem Edge.ne_assemblyModules {e : Edge} (he : e.ofRows) : e ≠ .assemblyModules := by
  rintro rfl
  cases he

theorem Edge.ne_moduleTypes {e : Edge} (he : e.ofRows) : e ≠ .moduleTypes := by
  rintro rfl
  cases he

namespace Store

variable {s : Store} {e : Edge} {kind : Kind} {l p q : Nat}

/-- The rows that exist among those that belong to an owner, in the order of the links. -/
def linkedRows (s : Store) (e : Edge) (owner : Token) : List Nat :=
  (s.children (Ownership.relation e) owner).filter fun p => (s.row? e.childKind.table p).isSome

/-- The type or method that a coded index names. -/
def codedOwner? (l : Nat) (index : CodedIndex) : Option Node :=
  match index.tag with
  | .typeDef => some ⟨.typeDef, .row l index.row⟩
  | .methodDef => some ⟨.methodDef, .row l index.row⟩
  | _ => none

/-- The container that a row belongs to: the owner of its first link, and that in its
column for a generic parameter. -/
def firstOwner? (s : Store) (e : Edge) (l p : Nat) : Option Node :=
  match e with
  | .genericParams => (nth s.genericParams p).bind fun r => codedOwner? l r.owner
  | _ => e.linkOwner?.bind fun kind =>
    (s.linkedOwner? (Ownership.relation e) (Token.ofParts e.childKind.table p)).map fun owner =>
      ⟨kind, .row l owner.row.val⟩

/-- The number by which the rows on an edge are put in order. -/
def orderNumber (s : Store) (e : Edge) (p : Nat) : Nat :=
  match e with
  | .params => ((nth s.params p).map (·.sequence)).getD 0
  | .genericParams => ((nth s.genericParams p).map (·.number)).getD 0
  | _ => 0

/-- **A store whose links name owners that there are.** -/
structure WellLinked (s : Store) : Prop where
  numbered : s.Numbered
  /-- A link names a row of the table that the owners are in. -/
  owner : ∀ {link : Link}, link ∈ s.links → ∀ {e : Edge} {kind : Kind}, e.linkOwner? = some kind →
    link.relation = Ownership.relation e →
      link.owner.tableId? = some kind.table ∧ (s.row? kind.table link.owner.row.val).isSome
  /-- No type is linked as nested in itself. -/
  apart : ∀ {link : Link}, link ∈ s.links → link.relation = .nestedTypes →
    link.child.row ≠ link.owner.row
  /-- A row is linked at most once under an owner. -/
  once : ∀ {e : Edge} (owner : Token), e.linkOwner?.isSome →
    (s.linkedChildren (Ownership.relation e) owner).Nodup
  /-- A generic parameter belongs to a type or a method that there is. -/
  param : ∀ {r : GenericParamRow}, r ∈ s.genericParams →
    (r.owner.tag = .typeDef ∨ r.owner.tag = .methodDef) ∧ (s.row? r.owner.tag r.owner.row).isSome

theorem nth_mem {α : Type} {rows : List α} {x : α} (h : nth rows p = some x) : x ∈ rows := by
  unfold nth at h
  split at h
  · cases h
  · exact List.mem_of_getElem? h

theorem exists_nth {α : Type} {rows : List α} {x : α} (h : x ∈ rows) :
    ∃ place, nth rows place = some x := by
  obtain ⟨i, hi⟩ := List.mem_iff_getElem?.mp h
  exact ⟨i + 1, by rwa [nth, if_neg (Nat.succ_ne_zero i), Nat.add_sub_cancel]⟩

/-- A row of a table has a number. -/
theorem ne_zero_of_row {table : TableId} (h : (s.row? table p).isSome) : p ≠ 0 := by
  rintro rfl
  cases h

/-- The numbers of the rows of a table that go by their places. -/
theorem nodup_rids {α : Type} {rows : List α} {rid : α → Nat}
    (h : ∀ place x, nth rows place = some x → rid x = place) : (rows.map rid).Nodup := by
  have hplace : ∀ i (hi : i < rows.length), rid rows[i] = i + 1 := fun i hi =>
    h (i + 1) rows[i] (by rw [nth, if_neg (Nat.succ_ne_zero i)]; exact List.getElem?_eq_getElem hi)
  rw [List.nodup_iff_pairwise_ne, List.pairwise_map, List.pairwise_iff_getElem]
  intro i j hi hj hij heq
  rw [hplace i hi, hplace j hj] at heq
  omega

namespace WellLinked

variable (h : s.WellLinked)
include h

/-- A type is not among the rows linked to it. -/
theorem listedRows_eq (he : e.ofRows) (kind : Kind) (q : Nat) :
    s.listedRows e kind q = s.linkedRows e (Token.ofParts kind.table q) := by
  unfold listedRows linkedRows
  rw [if_neg (Edge.ne_moduleTypes he)]
  dsimp only
  split
  · next hnested =>
    subst hnested
    congr 1
    refine List.filter_eq_self.mpr fun p hp => ?_
    obtain ⟨link, hlink, rfl⟩ := List.mem_map.mp hp
    obtain ⟨hmem, hsame⟩ := List.mem_filter.mp hlink
    rw [Bool.and_eq_true, beq_iff_eq, beq_iff_eq] at hsame
    have hne := h.apart hmem hsame.1
    rw [hsame.2] at hne
    rw [bne_iff_ne]
    rintro rfl
    -- a number below the limit is kept whole in a token
    exact hne (Fin.ext (Nat.mod_eq_of_lt link.child.row.isLt).symm)
  · rfl

theorem listedRows_nodup (he : e.ofRows) (kind : Kind) (q : Nat) :
    (s.listedRows e kind q).Nodup := by
  rw [h.listedRows_eq he]
  refine List.Nodup.filter _ ?_
  cases e with
  | moduleTypes | assemblyModules => cases he
  | nestedTypes => exact h.once (e := .nestedTypes) _ rfl
  | fields => exact h.once (e := .fields) _ rfl
  | methods => exact h.once (e := .methods) _ rfl
  | properties => exact h.once (e := .properties) _ rfl
  | events => exact h.once (e := .events) _ rfl
  | params => exact h.once (e := .params) _ rfl
  | genericParams =>
    have hrids : (s.genericParams.map (·.rid)).Nodup := by
      refine nodup_rids fun place r hr => ?_
      refine h.numbered .genericParam place (.genericParam r) ?_
      show nth (s.genericParams.map Row.genericParam) place = _
      rw [nth_map, hr]
      rfl
    exact (List.filter_sublist.map _).nodup hrids

/-- The owner of the first link of a row is a row of the right table. -/
theorem linkedOwner?_row (hkind : e.linkOwner? = some kind) {child owner : Token}
    (ho : s.linkedOwner? (Ownership.relation e) child = some owner) :
    owner.tableId? = some kind.table ∧ (s.row? kind.table owner.row.val).isSome := by
  obtain ⟨link, hfind, rfl⟩ := Option.map_eq_some_iff.mp ho
  have hrelation := List.find?_some hfind
  rw [Bool.and_eq_true, beq_iff_eq] at hrelation
  exact h.owner (List.mem_of_find?_eq_some hfind) hkind hrelation.1

end WellLinked

theorem firstOwner?_linked (hkind : e.linkOwner? = some kind) {owner? : Option Token}
    (ho : s.linkedOwner? (Ownership.relation e) (Token.ofParts e.childKind.table p) = owner?) :
    s.firstOwner? e l p = owner?.map fun owner => ⟨kind, .row l owner.row.val⟩ := by
  rw [← ho]
  cases e <;> cases hkind <;> rfl

theorem parent?_linked (hkind : e.linkOwner? = some kind) (child : Token) :
    s.parent? (Ownership.relation e) child = s.linkedOwner? (Ownership.relation e) child := by
  cases e <;> cases hkind <;> rfl

end Store

namespace Graph

variable {g : Graph} {s : Store} {e : Edge} {l p : Nat} {o : Node}

/-- The entity of a row comes from the row, whether or not it has been made. -/
theorem WellMade.origin_row (hw : g.WellMade) (hn : g.Numbered) (he : e ≠ .assemblyModules)
    (hs : g.store? l = some s) (hp : (s.row? e.childKind.table p).isSome) :
    g.origin ⟨e.childKind, .row l p⟩ = .row l p := by
  by_cases hc : g.entities.contains ⟨e.childKind, .row l p⟩
  · exact (hw.row he hc).2
  · refine origin_of_hasRow he hn hc ?_
    show ((g.store? l).bind _).isSome = true
    rw [hs]
    exact hp

section Stored

variable (hw : g.WellMade) (hs : g.store? l = some s)
include hw hs

/-- The entity of a row that a store has is found or made. -/
theorem shared_row {k : Kind} {ρ : Type} [Recorded k ρ] [Recorded.Tabled k]
    (hk : ∃ e : Edge, e ≠ .assemblyModules ∧ e.childKind = k) {q : Nat}
    (hq : (s.row? k.table q).isSome) : ((shared k l q).run g).1 = some ⟨.row l q⟩ := by
  obtain ⟨e, he, rfl⟩ := hk
  rw [shared_value, hw.present_row he hs, hq]
  rfl

/-- The row that the first link of a row names is found or made. -/
theorem linked_row (h : s.WellLinked) {k : Kind} {ρ : Type} [Recorded k ρ] [Recorded.Tabled k]
    (hk : ∃ e : Edge, e ≠ .assemblyModules ∧ e.childKind = k) (hkind : e.linkOwner? = some k) :
    ((do
      match ← parent? l (Ownership.relation e) (Token.ofParts e.childKind.table p) with
      | none => return none
      | some owner =>
        if owner.tableId? = some k.table
        then return (← shared k l owner.row.val).map Id.node
        else return none : GraphM (Option Node)).run g).1 = s.firstOwner? e l p := by
  simp only [run_bind, parent?_run, hs, Option.bind_some, Store.parent?_linked hkind]
  split
  · next hnone =>
    rw [Store.firstOwner?_linked hkind hnone]
    rfl
  · next owner hsome =>
    obtain ⟨htable, hrow⟩ := h.linkedOwner?_row hkind hsome
    rw [if_pos htable, Store.firstOwner?_linked hkind hsome]
    exact congrArg (Option.map Id.node) (shared_row hw hs hk hrow)

/-- The row that the column of a generic parameter names is found or made. -/
theorem param_row (h : s.WellLinked) {r : GenericParamRow} (hr : r ∈ s.genericParams) :
    ((typeOrMethod l r.owner).run g).1 = Store.codedOwner? l r.owner := by
  obtain ⟨htag, hrow⟩ := h.param hr
  obtain ⟨⟨tag, row⟩, hcolumn⟩ : ∃ i, r.owner = i := ⟨_, rfl⟩
  rw [hcolumn] at htag hrow ⊢
  have hvalid : (⟨tag, row⟩ : CodedIndex).validFor .typeOrMethodDef = true := by
    have hrid := Store.ne_zero_of_row hrow
    unfold CodedIndex.validFor CodedIndex.isNull
    rcases htag with rfl | rfl <;> simp [hrid, CodedKind.tables]
  rw [typeOrMethod, if_pos hvalid]
  rcases htag with rfl | rfl
  · exact congrArg (Option.map Id.node)
      (shared_row (k := .typeDef) hw hs ⟨.nestedTypes, by decide, rfl⟩ hrow)
  · exact congrArg (Option.map Id.node)
      (shared_row (k := .methodDef) hw hs ⟨.methods, by decide, rfl⟩ hrow)

variable (hn : g.Numbered)
include hn

/-- What is read of the container of a row is what the store names for it. -/
theorem stored_eq (he : e ≠ .assemblyModules) (hp : (s.row? e.childKind.table p).isSome) :
    g.stored e (.row l p) = ((Ownership.storedOwner e l p).run g).1 := by
  have hreader : g.reader? (.row l p) = some (l, p) := if_pos (loader?_of_store? hs)
  unfold stored fromStore
  rw [run_get_bind, hw.origin_row hn he hs hp, hreader]

/-- **What is read of the container of a row is its first owner.** -/
theorem stored_row (h : s.WellLinked) (he : e.ofRows) (hp : (s.row? e.childKind.table p).isSome) :
    g.stored e (.row l p) = s.firstOwner? e l p := by
  rw [stored_eq hw hs hn (Edge.ne_assemblyModules he) hp]
  unfold Ownership.storedOwner
  cases e with
  | moduleTypes | assemblyModules => cases he
  | nestedTypes | fields | methods | properties | events =>
    exact linked_row (k := .typeDef) hw hs h ⟨.nestedTypes, by decide, rfl⟩ rfl
  | params =>
    exact linked_row (e := .params) (k := .methodDef) hw hs h ⟨.methods, by decide, rfl⟩ rfl
  | genericParams =>
    simp only [run_bind, rowAt_run, hs, Option.bind_some]
    show _ = (Store.nth s.genericParams p).bind fun r => Store.codedOwner? l r.owner
    cases hr : Store.nth s.genericParams p with
    | none => rfl
    | some r => exact param_row hw hs h (Store.nth_mem hr)

/-- **A type that is linked as nested is read as in no module.** -/
theorem stored_moduleTypes (hp : (s.row? .typeDef p).isSome)
    (ho : s.firstOwner? .nestedTypes l p = some o) : g.stored .moduleTypes (.row l p) = none := by
  rw [stored_eq (e := .moduleTypes) hw hs hn (by decide) hp]
  obtain ⟨owner, hlinked, -⟩ := Option.map_eq_some_iff.mp ho
  have htop : s.isTopLevel (Token.ofParts .typeDef p) = false := by
    unfold Store.isTopLevel
    rw [show s.linkedOwner? .nestedTypes (Token.ofParts .typeDef p) = some owner from hlinked]
    rfl
  have hparent : s.parent? .typeDefs (Token.ofParts .typeDef p) = none := by
    unfold Store.parent?
    rw [if_neg]
    rintro ⟨-, -, hnested, -⟩
    rw [htop] at hnested
    cases hnested
  show (if (g.store? l).bind (fun s => s.parent? .typeDefs (Token.ofParts .typeDef p)) =
    some Store.moduleToken then _ else _) = _
  rw [hs, Option.bind_some, hparent, if_neg (by rintro ⟨⟩)]

end Stored
end Graph
end CliMetadata
