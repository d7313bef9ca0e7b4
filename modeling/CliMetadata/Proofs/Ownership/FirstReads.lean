import CliMetadata.Proofs.Ownership.Population

/-!
# First reads in any order

A store that has been opened is read in some order: entities of rows are looked up, and
lists and back-references are read, of cached entities and of private copies.
`Graph.ReadsTo g₀ g` says that `g` is reached by such reads and by nothing else.

**Whatever has been read before, a list comes to the same**
(`Store.WellLinked.populates`).  It has one entry for each row linked to its container;
the entry is the entity of the row for the first owner and a private copy for any other;
and the entity of a row reads as being in its first owner before any list has been read
and after all of them have.
-/

namespace CliMetadata

open CliMetadata.Graph Loading Stateful

namespace Ownership

/-- The actions that only read. -/
def Action.IsRead : Action → Prop
  | row .. | owner .. | items .. => True
  | _ => False

end Ownership

namespace Graph

variable {g g' g₀ : Graph} {s : Store} {e : Edge} {o : Node} {l p q : Nat}

/-- **The graphs that a graph becomes by reads.** -/
inductive ReadsTo (g₀ : Graph) : Graph → Prop
  | refl : ReadsTo g₀ g₀
  | read {g : Graph} (before : ReadsTo g₀ g) (act : Ownership.Action) (reads : act.IsRead)
      (legal : act.Legal g) : ReadsTo g₀ (act.apply g)

/-- **A graph that has been read as its stores link.** -/
structure Faithful (g : Graph) : Prop extends Placed g where
  /-- The list of a cached container is populated from its links, once it has been read. -/
  populated : ∀ {e : Edge} {o : Node} {cs : List Key} {l q : Nat} {s : Store}, e.ofRows →
    g.lists.get? (e, o) = some cs → o.key = .row l q → g.store? l = some s →
      g.Populated s e o l q cs

/-- The cached entity of a row exists while the store is open. -/
theorem alive_of_key (hkey : o.key = .row l q) (hs : g.store? l = some s) : g.alive o := by
  obtain ⟨kind, _⟩ := o
  cases hkey
  unfold alive
  rw [Bool.or_eq_true]
  exact Or.inr (loader?_of_store? hs)

/-- A cached container comes from the row that it is the entity of. -/
theorem WellMade.origin_container (hw : g.WellMade) (he : e.ofRows) (ho : g.IsContainer e o)
    (hkey : o.key = .row l q) : g.origin o = .row l q := by
  obtain ⟨kind, _⟩ := o
  cases hkey
  have hkind := ho.kind
  have horigin : kind = .typeDef ∨ kind = .methodDef := by
    cases e with
    | moduleTypes | assemblyModules => cases he
    | nestedTypes | fields | methods | properties | events => exact Or.inl (List.mem_singleton.mp hkind)
    | params => exact Or.inr (List.mem_singleton.mp hkind)
    | genericParams => exact (List.mem_cons.mp hkind).imp_right List.mem_singleton.mp
  rcases horigin with rfl | rfl
  · exact (hw.row (e := .nestedTypes) (by decide) ho.made).2
  · exact (hw.row (e := .methods) (by decide) ho.made).2

namespace Faithful

/-- Asking reads no list. -/
theorem asked (h : g.Faithful) {children : Node → Prop} (ha : g.Asked children g')
    (hc : ∀ {n}, children n → g.entities.contains n) : g'.Faithful where
  toPlaced := h.toPlaced.asked ha hc
  populated {e o cs l q s} he hl hkey hs := by
    rw [ha.lists] at hl
    rw [store?_congr ha.loader] at hs
    exact (h.populated he hl hkey hs).later ha.later (Edge.ne_assemblyModules he)
      (alive_of_key hkey hs)

/-- **A list of a cached container** reads as it is linked, and so do all others still. -/
theorem items (h : g.Faithful) (ho : g.IsContainer e o) :
    ((Ownership.items e o).run g).2.Faithful ∧
      ((Ownership.items e o).run g).2.lists.get? (e, o) = some ((Ownership.items e o).run g).1 := by
  have hlater := keeps_items e o g
  cases hl : g.lists.get? (e, o) with
  | some cs =>
    rw [items_held hl]
    exact ⟨h, hl⟩
  | none =>
    have hread := readsList h.toPlaced (alive_of_contains ho.made) hl
    refine ⟨⟨hread.placed, fun {e' o' cs l q s} he' hl' hkey hs => ?_⟩, hread.list⟩
    rw [store?_congr hlater.loader] at hs
    by_cases hsame : (e, o) = (e', o')
    · cases hsame
      cases hread.list.symm.trans hl'
      exact hread.populated he' (h.wellMade.origin_container he' ho hkey) hs
    · rw [hread.others hsame] at hl'
      exact (h.populated he' hl' hkey hs).later hlater (Edge.ne_assemblyModules he')
        (alive_of_key hkey hs)

/-- A read. -/
theorem read (h : g.Faithful) {act : Ownership.Action} (reads : act.IsRead) (legal : act.Legal g) :
    (act.apply g).Faithful := by
  cases act with
  | row e l p => exact h.asked (sharedChild_run legal g l p).1 (by rintro _ ⟨⟩)
  | owner e c => exact h.asked (owner_run g e c).1 (by rintro _ rfl; exact legal)
  | items e o => exact (h.items legal).1
  | insert | add | remove | removeAt | clear | reassign => exact reads.elim

/-- The entity of a row goes by the number of the row. -/
theorem rid_row (h : g.Faithful) (he : e ≠ .assemblyModules) (hs : g.store? l = some s)
    (hp : (s.row? e.childKind.table p).isSome) : g.rid ⟨e.childKind, .row l p⟩ = p := by
  obtain ⟨ρ, _, _, -⟩ := e.tabled he
  have hrow : g.hasRow ⟨e.childKind, .row l p⟩ := by
    show ((g.store? l).bind _).isSome = true
    rw [hs]
    exact hp
  rw [← ofRow?_isSome (k := e.childKind) (ρ := ρ)] at hrow
  obtain ⟨r, hr⟩ := Option.isSome_iff_exists.mp hrow
  unfold rid
  rw [h.asRow hr]
  exact ofRow?_rid h.numbered hr

/-- The entity of a row reads as in its first owner. -/
theorem owner_row (h : g.Faithful) (hs : g.store? l = some s)
    (hp : (s.row? e.childKind.table p).isSome) (ho : s.firstOwner? e l p = some o) :
    ((Ownership.owner e (.row l p)).run g).1 = some o := by
  rw [(owner_run g e _).2.1, h.first hs hp ho, Option.filter_some,
    if_pos (firstOwner?_alive hs ho)]

end Faithful

/-- An entry of a list reads as in the list's container. -/
theorem Entry.owner_read {c : Key} (h : g.Entry s e o l p c) (ho : g.alive o) :
    ((Ownership.owner e c).run g).1 = some o := by
  rw [(owner_run g e c).2.1, noted_of_recorded h.owned, Option.filter_some, if_pos ho]

/-- What holds of an open store holds after any reads. -/
theorem ReadsTo.faithful (k : g₀.ReadsTo g) (h : g₀.Faithful) : g.Faithful := by
  induction k with
  | refl => exact h
  | read _ _ reads legal ih => exact ih.read reads legal

/-- Reads open and close no module. -/
theorem ReadsTo.loader (k : g₀.ReadsTo g) (l : Nat) : g.loader? l = g₀.loader? l := by
  induction k with
  | refl => rfl
  | @read g _ act reads _ ih =>
    have hlater : g.Later (act.apply g) := by
      cases act with
      | row e l p => exact keeps_sharedChild e l p g
      | owner e c => exact keeps_owner e c g
      | items e o => exact keeps_items e o g
      | insert | add | remove | removeAt | clear | reassign => exact reads.elim
    exact (hlater.loader l).trans ih

end Graph

namespace Store

variable {s : Store} {policy : InitPolicy}

/-- A store is opened with nothing read. -/
theorem WellLinked.loaded_faithful (h : s.WellLinked) {row : ModuleRow}
    (hm : s.moduleRow? = some row) : (s.loaded policy).Faithful := by
  have hw : (s.loaded policy).WellMade := s.loaded_wellMade hm
  have hn : (s.loaded policy).Numbered := fun _ _ hs => s.loaded_store? hm hs ▸ h.numbered
  have hnoted : ∀ e c, (s.loaded policy).noted e c = (s.loaded policy).stored e c :=
    (loaded_unread hm h.numbered).noted
  constructor
  · refine ⟨hw, fun hs => s.loaded_store? hm hs ▸ h, ?_, ?_, ?_⟩
    · intro k ρ _ _ l p r hr
      have hc : ¬(s.loaded policy).entities.contains (⟨.row l p⟩ : Id k).node := fun hc => by
        cases congrArg Node.key (s.loaded_contains hm hc)
      rw [← get_of_not_contains hc hr]
      exact Recorded.Lawful.entity_node (ρ := ρ) _ (⟨.row l p⟩ : Id k)
    · intro e l p s' o hs hp ho
      rw [hnoted, stored_row hw hs hn (s.loaded_store? hm hs ▸ h) (firstOwner?_ofRows ho) hp, ho]
    · intro l p s' o hs hp ho
      rw [hnoted, stored_moduleTypes hw hs hn hp ho]
  · intro e o cs l q s' _ hl
    rw [s.loaded_lists hm] at hl
    cases hl

/-- **Lists and back-references read from links, in any order.**  After any reads, the
list of a cached container has one entry for each row that is linked to it, in the order
of the links, and of the numbers of parameters.  An entry is the entity of the row where
the container is the row's first owner, and a private copy with the same columns where
it is another; it reads as in the container.  The entity of a row reads as in its first
owner at any time. -/
theorem WellLinked.populates (h : s.WellLinked) (hm : s.moduleRow?.isSome) (policy : InitPolicy)
    {g : Graph} (hg : (s.loaded policy).ReadsTo g) :
    (∀ (e : Edge) (kind : Kind) (q : Nat), e.ofRows → g.IsContainer e ⟨kind, .row 0 q⟩ →
      let o : Node := ⟨kind, .row 0 q⟩
      let read := (Ownership.items e o).run g
      read.1.Nodup ∧ ∃ ps,
        StablySorted (s.orderNumber e) (s.linkedRows e (Token.ofParts kind.table q)) ps ∧
        List.Forall₂ (fun p c =>
          ((Ownership.owner e c).run read.2).1 = some o ∧
          read.2.rid ⟨e.childKind, c⟩ = p ∧
          read.2.entity ⟨e.childKind, c⟩ = read.2.entity ⟨e.childKind, .row 0 p⟩ ∧
          (s.firstOwner? e 0 p = some o → c = .row 0 p) ∧
          ∀ o', s.firstOwner? e 0 p = some o' → o' ≠ o → ∃ n, c = .built n) ps read.1) ∧
    ∀ (e : Edge) (p : Nat) (o : Node), (s.row? e.childKind.table p).isSome →
      s.firstOwner? e 0 p = some o → ((Ownership.owner e (.row 0 p)).run g).1 = some o := by
  obtain ⟨row, hrow⟩ := Option.isSome_iff_exists.mp hm
  have hfaithful := hg.faithful (h.loaded_faithful hrow)
  have hs : g.store? 0 = some s := by
    rw [store?, hg.loader, s.loaded_loader? hrow]
    rfl
  refine ⟨fun e kind q he ho => ?_, fun e p o hp ho => hfaithful.owner_row hs hp ho⟩
  have hne := Edge.ne_assemblyModules he
  have hlater := keeps_items e ⟨kind, .row 0 q⟩ g
  have hs' : ((Ownership.items e ⟨kind, .row 0 q⟩).run g).2.store? 0 = some s := by
    rw [store?_congr hlater.loader, hs]
  obtain ⟨hread, hlist⟩ := hfaithful.items ho
  have hpopulated := hread.populated he hlist rfl hs'
  obtain ⟨ps, hsorted, hentries⟩ := hpopulated.entries
  refine ⟨hpopulated.nodup, ps, hsorted, hentries.imp fun p c hentry => ?_⟩
  refine ⟨hentry.owner_read (alive_of_key rfl hs'), ?_, hentry.columns, hentry.cached,
    fun o' => hentry.copied⟩
  unfold rid
  rw [hentry.columns]
  exact hread.rid_row hne hs' hentry.row

/-- A store of two types and a field, which is linked to the first type and then to the
second. -/
def sharedField : Store :=
  let head (table : TableId) (rid : Nat) : RowHead := ⟨rid, Token.ofParts table rid⟩
  { Store.empty with
    modules := [⟨head .module 1, 0, 0, 0⟩]
    typeDefs := [⟨head .typeDef 1, 0, 0, 0, .null⟩, ⟨head .typeDef 2, 0, 0, 0, .null⟩]
    fields := [⟨head .field 1, 0, 0, 0⟩]
    links := [⟨.fields, Token.ofParts .typeDef 1, Token.ofParts .field 1⟩,
      ⟨.fields, Token.ofParts .typeDef 2, Token.ofParts .field 1⟩] }

theorem sharedField_wellLinked : sharedField.WellLinked where
  numbered := by decide +kernel
  owner {link} hlink {e kind} hkind hrelation := by
    have hfields : e = .fields := by
      have hsame : link.relation = .fields := by
        rcases List.mem_cons.mp hlink with rfl | hlink
        · rfl
        · rw [List.mem_singleton.mp hlink]
      rw [hsame] at hrelation
      cases e <;> first | rfl | cases hrelation
    subst hfields
    cases hkind
    rcases List.mem_cons.mp hlink with rfl | hlink
    · decide
    · rw [List.mem_singleton.mp hlink]
      decide
  apart {link} hlink hrelation := by
    rcases List.mem_cons.mp hlink with rfl | hlink
    · cases hrelation
    · rw [List.mem_singleton.mp hlink] at hrelation
      cases hrelation
  once {e} owner he := by
    by_cases hfirst : owner = Token.ofParts .typeDef 1
    · subst hfirst
      cases e <;> decide
    · by_cases hsecond : owner = Token.ofParts .typeDef 2
      · subst hsecond
        cases e <;> decide
      · have hnone : ∀ r, sharedField.linkedChildren r owner = [] := by
          intro r
          simp [linkedChildren, sharedField, Ne.symm hfirst, Ne.symm hsecond]
        rw [hnone]
        exact .nil
  param hr := absurd hr List.not_mem_nil

/-- The graph in which both types have been looked up, and the fields of the second read. -/
def secondRead : Graph :=
  (Ownership.Action.items .fields ⟨.typeDef, .row 0 2⟩).apply
    ((Ownership.Action.row .nestedTypes 0 2).apply
      ((Ownership.Action.row .nestedTypes 0 1).apply (sharedField.loaded .perEntityLock)))

theorem secondRead_reached : (sharedField.loaded .perEntityLock).ReadsTo secondRead := by
  have hopened : (sharedField.loaded .perEntityLock).ReadsTo _ := .refl
  have hfirst := hopened.read (.row .nestedTypes 0 1) trivial (by rintro ⟨⟩)
  have hsecond := hfirst.read (.row .nestedTypes 0 2) trivial (by rintro ⟨⟩)
  refine hsecond.read (.items .fields ⟨.typeDef, .row 0 2⟩) trivial ⟨?_, ?_⟩
  · decide +kernel
  · decide

/-- The field reads as in the first type after the second has been read, which lists a
private copy of it. -/
theorem secondRead_populated :
    sharedField.WellLinked ∧ sharedField.moduleRow?.isSome ∧
      (sharedField.loaded .perEntityLock).ReadsTo secondRead ∧
      ((Ownership.owner .fields (.row 0 1)).run secondRead).1 = some ⟨.typeDef, .row 0 1⟩ ∧
      ∃ n, ((Ownership.items .fields ⟨.typeDef, .row 0 2⟩).run secondRead).1 = [.built n] := by
  obtain ⟨hlists, howners⟩ :=
    sharedField_wellLinked.populates rfl .perEntityLock secondRead_reached
  have hmade : secondRead.IsContainer .fields ⟨.typeDef, .row 0 2⟩ := ⟨by decide +kernel, by decide⟩
  refine ⟨sharedField_wellLinked, rfl, secondRead_reached,
    howners .fields 1 ⟨.typeDef, .row 0 1⟩ rfl rfl, ?_⟩
  obtain ⟨-, ps, hsorted, hentries⟩ := hlists .fields .typeDef 2 rfl hmade
  have hlinked : sharedField.linkedRows .fields (Token.ofParts .typeDef 2) = [1] := by decide
  obtain rfl : ps = [1] := List.perm_singleton.mp (hlinked ▸ hsorted.perm)
  -- the field belongs to the first type, so the second lists a copy
  obtain ⟨c, cs, ⟨-, -, -, -, hcopied⟩, hrest, hitems⟩ := List.forall₂_cons_left_iff.mp hentries
  obtain rfl := List.forall₂_nil_left_iff.mp hrest
  obtain ⟨n, rfl⟩ := hcopied ⟨.typeDef, .row 0 1⟩ rfl (by decide)
  exact ⟨n, hitems⟩

end Store
end CliMetadata
