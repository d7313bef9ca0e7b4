import CliMetadata.Proofs.Ownership.Memory
import CliMetadata.Proofs.Ownership.Stored
import CliMetadata.Proofs.Resolution.Lookup
import CliMetadata.Proofs.Resolution.Paths
import CliMetadata.Proofs.Resolution.Projected

/-!
# A reference resolves to the type of its path

The look-up in a module goes down: it compares the namespace and name of each level of
a reference with those of the types in a list, first of the module and then of the type
found last.  **What it finds has the path of the reference** (`Found.path`), where the
lists agree with the back-references (`Graph.WellNested`): a type in the list of a
module is in that module and in no type, and one in the list of a type is in that type.

So the type that a reference resolves to, through whatever scope and however many
forwarders, is equal to the reference and has its full name
(`Resolver.resolveType_path`).  Lists are read on demand, and the ones that count are
those that have been read when the answer is there.
-/

namespace CliMetadata

open CliMetadata.Graph Loading Stateful

namespace Graph

variable {g g' : Graph}

/-- **The lists of types agree with the back-references.** -/
structure WellNested (g : Graph) : Prop where
  /-- A type in the list of a module has that module, and no type encloses it. -/
  top : ∀ {m : ModuleId} {t : TypeDefId}, t.key ∈ g.held .moduleTypes m.node →
    (t.ownerModule.run g).1 = some m ∧ (t.declaringType.run g).1 = none
  /-- A type in the list of a type is enclosed by that type. -/
  nested : ∀ {t u : TypeDefId}, u.key ∈ g.held .nestedTypes t.node →
    (u.declaringType.run g).1 = some t

/-- The invariant of containment makes a graph well nested. -/
theorem Sound.wellNested (h : g.Sound) : g.WellNested where
  top {m t} ht := by
    have hmodule : ((Ownership.owner .moduleTypes t.key).run g).1 = some m.node :=
      h.consistent.owner ht
    have hnone : ((Ownership.owner .nestedTypes t.key).run g).1 = none := by
      rw [h.owned.owner_value]
      exact h.owned.apart (e := .moduleTypes) rfl ht
    exact ⟨congrArg (Option.map fun n : Node => (⟨n.key⟩ : ModuleId)) hmodule,
      congrArg (Option.map fun n : Node => (⟨n.key⟩ : TypeDefId)) hnone⟩
  nested {t u} hu :=
    congrArg (Option.map fun n : Node => (⟨n.key⟩ : TypeDefId)) (h.consistent.owner hu)

/-- So do the entities that are given out in order. -/
theorem Sound.closed (h : g.Sound) : g.Closed where
  listed {e o cs c} hl hc := by
    rw [← held_eq hl] at hc
    have hmade := h.wellMade.owner (h.owned.listed hc)
    cases c with
    | built n => exact h.wellMade.numbered hmade
    | row => exact trivial

end Graph

/-! ## Looking down -/

section LookUp

open Chain

variable {g g' : Graph} {ref : TypeRefId} {t : TypeDefId}

/-- What is picked from a list that has been read is held in it, and agrees with the
reference, from then on. -/
theorem ModuleId.firstAt_held {e : Edge} {o : Node} {r : TypeRefId} {u : TypeDefId}
    (closed : g.Closed) (hlater : ((Ownership.items e o).run g).2.Later g')
    (h : ModuleId.firstAt ((Ownership.items e o).run g).2 r
      (((Ownership.items e o).run g).1.map Id.mk) = some u) :
    u.key ∈ g'.held e o ∧ TypeDefId.level g' u = TypeRefId.level g' r := by
  have hfirst : g.Later ((Ownership.items e o).run g).2 := keeps_items e o g
  have hlist := items_read g e o
  obtain ⟨c, hc, rfl⟩ := List.mem_map.mp (List.mem_of_find?_eq_some h)
  have hlevel : TypeDefId.level ((Ownership.items e o).run g).2 ⟨c⟩ =
      TypeRefId.level ((Ownership.items e o).run g).2 r := by
    simpa using List.find?_some h
  have hchild := (closed.later hfirst).listed hlist hc
  rw [hlater.typeDef_level hchild, hlater.typeRef_level]
  refine ⟨?_, hlevel⟩
  rw [held_eq (hlater.list hlist)]
  exact hc

theorem TypeDefId.nestedTypes_run (g : Graph) (u : TypeDefId) :
    u.nestedTypes.run g = (((Ownership.items .nestedTypes u.node).run g).1.map Id.mk,
      ((Ownership.items .nestedTypes u.node).run g).2) := rfl

theorem ModuleId.types_run (g : Graph) (m : ModuleId) :
    m.types.run g = (((Ownership.items .moduleTypes m.node).run g).1.map Id.mk,
      ((Ownership.items .moduleTypes m.node).run g).2) := rfl

/-- A level down leads to a type that has been picked from the nested types. -/
theorem ModuleId.descend_some {r : TypeRefId} {rest : List TypeRefId} {u : TypeDefId}
    (h : (ModuleId.descend u (r :: rest)).run g = (some t, g')) :
    let read := (Ownership.items .nestedTypes u.node).run g
    ∃ v, ModuleId.firstAt read.2 r (read.1.map Id.mk) = some v ∧
      (ModuleId.descend v rest).run read.2 = (some t, g') := by
  intro read
  rw [ModuleId.descend, run_bind, run_get_bind, TypeDefId.nestedTypes_run] at h
  dsimp only at h
  cases hv : ModuleId.firstAt read.2 r (read.1.map Id.mk) with
  | none =>
    rw [hv] at h
    cases h
  | some v =>
    rw [hv] at h
    exact ⟨v, rfl, h⟩

/-- **Going down adds a level to the climb** for each reference. -/
theorem ModuleId.descend_climbs (nested : g'.WellNested) : ∀ (refs : List TypeRefId) {g : Graph}
    {u : TypeDefId} {us : List TypeDefId}, g.Closed →
    (ModuleId.descend u refs).run g = (some t, g') →
    Climbs (TypeDefId.above g') (some u) us →
    ∃ vs, Climbs (TypeDefId.above g') (some t) (vs ++ us) ∧
      vs.map (TypeDefId.level g') = (refs.map (TypeRefId.level g')).reverse
  | [], g, u, us, _, h, hus => by
    cases h
    exact ⟨[], hus, rfl⟩
  | r :: rest, g, u, us, closed, h, hus => by
    have hread : g.Later ((Ownership.items .nestedTypes u.node).run g).2 :=
      keeps_items .nestedTypes u.node g
    obtain ⟨v, hv, hdescend⟩ := ModuleId.descend_some h
    have hlater := (ModuleId.keeps_descend rest v).result hdescend
    obtain ⟨hheld, hlevel⟩ := ModuleId.firstAt_held closed hlater hv
    -- the list of `u` has been read, so `v` has `u` from then on
    have habove : TypeDefId.above g' v = some u := nested.nested hheld
    obtain ⟨vs, hclimbs, hlevels⟩ :=
      descend_climbs nested rest (closed.later hread) hdescend (.step (habove ▸ hus))
    refine ⟨vs ++ [v], by rwa [List.append_assoc], ?_⟩
    rw [List.map_append, hlevels, List.map_singleton, hlevel, List.map_cons, List.reverse_cons]

/-- A look-up reads the chain of the reference, picks a type of the module for its first
level and goes down from there. -/
theorem ModuleId.find_some {m : ModuleId} (h : (m.find ref).run g = (some t, g')) :
    let chain := (Chain.chain TypeRefId.declaringType recursionBound ref).run g
    let read := (Ownership.items .moduleTypes m.node).run chain.2
    ∃ rs outermost inner u, chain.1 = some rs ∧ rs.reverse = outermost :: inner ∧
      ModuleId.firstAt read.2 outermost (read.1.map Id.mk) = some u ∧
      (ModuleId.descend u inner).run read.2 = (some t, g') := by
  intro chain read
  rw [ModuleId.find, run_bind, TypeRefId.nestingChain, run_bind] at h
  cases hchain : chain.1 with
  | none =>
    rw [hchain] at h
    cases h
  | some rs =>
    rw [hchain] at h
    cases hrs : rs.reverse with
    | nil =>
      rw [Option.map_some, hrs] at h
      cases h
    | cons outermost inner =>
      rw [Option.map_some, hrs, run_pure] at h
      dsimp only at h
      rw [run_bind, run_get_bind, ModuleId.types_run] at h
      dsimp only at h
      cases hu : ModuleId.firstAt read.2 outermost (read.1.map Id.mk) with
      | none =>
        rw [hu] at h
        cases h
      | some u =>
        rw [hu] at h
        exact ⟨rs, outermost, inner, u, rfl, hrs, hu, h⟩

/-- **What a module gives for a reference has the path of the reference**, and is enclosed in
the end by a type in the list of the module. -/
theorem ModuleId.find_enclosed {m : ModuleId} (h : (m.find ref).run g = (some t, g'))
    (closed : g.Closed) (nested : g'.WellNested) :
    ∃ rs ts u, TypeRefId.Enclosed g' ref rs ∧ TypeDefId.Enclosed g' t ts ∧
      ts.map (TypeDefId.level g') = rs.map (TypeRefId.level g') ∧
      ts.getLast? = some u ∧ u.key ∈ g'.held .moduleTypes m.node := by
  obtain ⟨rs, outermost, inner, u, hchain, hrs, hu, hdescend⟩ := ModuleId.find_some h
  have hclosed := closed.later (keeps_chain TypeRefId.keeps_declaringType recursionBound ref g)
  have hread := keeps_items .moduleTypes m.node
    ((Chain.chain TypeRefId.declaringType recursionBound ref).run g).2
  have hlater := (ModuleId.keeps_descend inner u).result hdescend
  -- the chain is read before the lists, and holds what was read from then on
  obtain ⟨hclimbs, hbounded, hscopes⟩ := TypeRefId.chain_climbs hchain (hread.trans hlater)
  obtain ⟨hheld, hlevel⟩ := ModuleId.firstAt_held hclosed hlater hu
  have htop : TypeDefId.above g' u = none := (nested.top hheld).2
  have hclimb : Climbs (TypeDefId.above g') (some u) [u] := .step (htop ▸ .ended)
  obtain ⟨vs, hts, hlevels⟩ :=
    ModuleId.descend_climbs nested inner (hclosed.later hread) hdescend hclimb
  have hsame : (vs ++ [u]).map (TypeDefId.level g') = rs.map (TypeRefId.level g') := by
    rw [List.map_append, hlevels, List.map_singleton, hlevel, ← List.reverse_reverse rs, hrs,
      List.map_reverse, List.map_cons, List.reverse_cons]
  -- the type is as deep as the reference, and so within the bound too
  have hlength : (vs ++ [u]).length = rs.length := by
    simpa using congrArg List.length hsame
  exact ⟨rs, vs ++ [u], u, ⟨hclimbs, hbounded, hscopes⟩, ⟨hts, hlength ▸ hbounded⟩, hsame,
    List.getLast?_concat, hheld⟩

/-- **What a module gives for a reference has the path of the reference.** -/
theorem ModuleId.find_path {m : ModuleId} (h : (m.find ref).run g = (some t, g'))
    (closed : g.Closed) (nested : g'.WellNested) :
    ∃ rs ts, TypeRefId.Enclosed g' ref rs ∧ TypeDefId.Enclosed g' t ts ∧
      ts.map (TypeDefId.level g') = rs.map (TypeRefId.level g') := by
  obtain ⟨rs, ts, -, href, htype, hsame, -, -⟩ := ModuleId.find_enclosed h closed nested
  exact ⟨rs, ts, href, htype, hsame⟩

end LookUp

/-! ## Resolving -/

/-- Two types whose paths are read as the same are equal, where scopes do not count. -/
theorem CompareOptions.equalTypes_of_path {g : Graph} {t : TypeDefId} {r : TypeRefId}
    {path : TypePath} (ht : (t.path?.run g).1 = some path)
    (hr : (r.path?.run (t.path?.run g).2).1 = some path) :
    ((CompareOptions.equalTypes {} (.typeDef t) (.typeRef r)).run g).1 = true := by
  have hsame : (path != path) = false := by simp
  show ((CompareOptions.pathsEqual {} (.typeDef t) (.typeRef r)).run g).1 = true
  unfold CompareOptions.pathsEqual CompareOptions.path?
  rw [run_bind, run_bind, ht, hr]
  dsimp only
  rw [hsame]
  rfl

/-- A reference that is read with what encloses it is read alike after back-references
have been asked for. -/
theorem TypeRefId.Enclosed.asked {g g' : Graph} {r : TypeRefId} {rs : List TypeRefId}
    (h : TypeRefId.Enclosed g r rs) (ha : TypeDefId.Asks g g') :
    TypeRefId.Enclosed g' r rs ∧ TypeRefId.level g' = TypeRefId.level g := by
  have hget : ∀ x : TypeRefId, g'.get x = g.get x := fun x => Entity.typeRef.inj (ha.entity x.node)
  have habove : TypeRefId.above g' = TypeRefId.above g := by
    funext x
    rw [TypeRefId.above, TypeRefId.above, hget]
  have hlevel : TypeRefId.level g' = TypeRefId.level g := by
    funext x
    rw [TypeRefId.level, TypeRefId.level, hget]
  exact ⟨⟨habove ▸ h.climbs, h.bounded, fun x hx => hget x ▸ h.read x hx⟩, hlevel⟩

/-- **A reference resolves to the type of its path.**  Let the lists that have been read
hold what there is, and agree with the back-references when the answer is there.  Then
the type that a reference resolves to has, level by level and outermost first, the
namespaces and names of the reference that takes its place; so the two are equal and
have the same full name. -/
theorem Resolver.resolveType_path (r : Resolver) (hr : ∀ p, r.projection = some p → p.Safe)
    (ref : TypeRefId) (source : Option ModuleId) (s s' : Resolving) (t : TypeDefId)
    (closed : s.graph.Closed) (h : (r.resolveType ref source).run s = (some t, s'))
    (nested : s'.graph.WellNested) :
    let projected := ((r.projectType ref).run s).1
    (∃ chain, (projected.nestingChain.run s'.graph).1 = some chain ∧
      (t.path?.run s'.graph).1 = some (chain.map (TypeRefId.level s'.graph))) ∧
    ((CompareOptions.equalTypes {} (.typeDef t) (.typeRef projected)).run s'.graph).1 = true ∧
    (t.fullName.run s'.graph).1 = (projected.fullName.run s'.graph).1 := by
  intro projected
  have hvalue : ((r.resolveType ref source).run s).1 = some t := congrArg Prod.fst h
  obtain ⟨m, g, hlater, hfind⟩ := resolveType_found hvalue
  rw [h] at hfind
  obtain ⟨rs, ts, href, htype, hsame⟩ :=
    ModuleId.find_path hfind ((projectType_closed hr ref closed).later hlater) nested
  have hpaths : ts.reverse.map (TypeDefId.level s'.graph) =
      rs.reverse.map (TypeRefId.level s'.graph) := by
    rw [List.map_reverse, List.map_reverse, hsame]
  obtain ⟨hpath, hasked⟩ := htype.path?_run
  rw [hpaths] at hpath
  refine ⟨⟨rs.reverse, ?_, hpath⟩, ?_, ?_⟩
  · rw [href.nestingChain_run]
  · obtain ⟨hafter, hlevel⟩ := href.asked hasked
    refine CompareOptions.equalTypes_of_path hpath ?_
    rw [hafter.path?_run, hlevel]
  · rw [htype.fullName_run, href.fullName_run, hpaths]

/-! ## A nested reference -/

namespace Resolver

/-- A module with a type in which another is nested, and a reference of two levels that is
scoped to the module. -/
def innerType : Graph :=
  ((do
    let m : ModuleId ← make .module ⟨0, .inMemory, .empty, Guid.zero, none, some [], some []⟩
    let outer ← makeTypeDef ⟨[78]⟩ ⟨[79]⟩ 0
    let inner ← makeTypeDef .empty ⟨[73]⟩ 0
    let _ ← Ownership.add .moduleTypes m.node outer.key
    let _ ← Ownership.add .nestedTypes outer.node inner.key
    let enclosing ← makeTypeRef m ⟨[78]⟩ ⟨[79]⟩ (some (.module m))
    let _ ← makeTypeRef m .empty ⟨[73]⟩ (some (.typeRef enclosing))
    : GraphM Unit).run .empty).2

theorem innerType_reached : Graph.empty.Reaches innerType := by
  have hmodule : InMemory .module
      (⟨0, .inMemory, .empty, Guid.zero, none, some [], some []⟩ : Module) :=
    ⟨fun _ _ => by rintro ⟨⟩, fun m hm => by cases hm; rfl⟩
  have htype : ∀ space name, InMemory .typeDef
      (⟨0, .inMemory, 0, space, name, some none⟩ : TypeDef) :=
    fun _ _ => ⟨fun _ _ => by rintro ⟨⟩, fun m hm => by cases hm⟩
  have href : ∀ m space name scope, InMemory .typeRef
      (⟨0, .inMemory, m, space, name, scope⟩ : TypeRef) :=
    fun _ _ _ _ => ⟨fun _ _ => by rintro ⟨⟩, fun m hm => by cases hm⟩
  have hempty : Graph.empty.Reaches Graph.empty := .refl
  have hmade := ((hempty.make .module hmodule).make .typeDef (htype ⟨[78]⟩ ⟨[79]⟩)).make
    .typeDef (htype .empty ⟨[73]⟩)
  have houter := hmade.action (.add .moduleTypes ⟨.module, .built 0⟩ (.built 1))
    ⟨⟨by decide +kernel, by decide⟩, by decide +kernel⟩
  have hinner := houter.action (.add .nestedTypes ⟨.typeDef, .built 1⟩ (.built 2))
    ⟨⟨by decide +kernel, by decide⟩, by decide +kernel⟩
  exact (hinner.make .typeRef (href ⟨.built 0⟩ ⟨[78]⟩ ⟨[79]⟩ (some (some (.module ⟨.built 0⟩))))).make
    .typeRef (href ⟨.built 0⟩ .empty ⟨[73]⟩ (some (some (.typeRef ⟨.built 3⟩))))

/-- A resolver with the usual projection. -/
def projecting : Resolver := ⟨fun _ _ _ => none, some .windowsRuntime, {}⟩

/-- The inner reference resolves to the inner type, which reads as its path, is equal to it
and has its full name. -/
theorem resolveType_innerType :
    (projecting.resolveType ⟨.built 4⟩ none).run ⟨innerType, []⟩ =
      (some ⟨.built 2⟩, ⟨innerType, []⟩) ∧
    ((TypeDefId.path? ⟨.built 2⟩).run innerType).1 =
      some [(⟨[78]⟩, ⟨[79]⟩), (Name.empty, ⟨[73]⟩)] ∧
    ((CompareOptions.equalTypes {} (.typeDef ⟨.built 2⟩) (.typeRef ⟨.built 4⟩)).run innerType).1 =
      true ∧
    ((TypeDefId.fullName ⟨.built 2⟩).run innerType).1 =
      ((TypeRefId.fullName ⟨.built 4⟩).run innerType).1 := by
  have hresolved : (projecting.resolveType ⟨.built 4⟩ none).run ⟨innerType, []⟩ =
      (some ⟨.built 2⟩, ⟨innerType, []⟩) := rfl
  have hsound := (innerType_reached.kept empty_sound).sound
  have hsafe : ∀ p, projecting.projection = some p → p.Safe := by
    rintro p ⟨⟩
    exact ReferenceProjection.windowsRuntime_safe
  obtain ⟨⟨chain, hchain, hpath⟩, hequal, hname⟩ := resolveType_path projecting hsafe ⟨.built 4⟩
    none ⟨innerType, []⟩ ⟨innerType, []⟩ ⟨.built 2⟩ hsound.closed hresolved hsound.wellNested
  obtain rfl : [⟨.built 3⟩, ⟨.built 4⟩] = chain := Option.some.inj hchain
  exact ⟨hresolved, hpath, hequal, hname⟩

end Resolver
end CliMetadata
