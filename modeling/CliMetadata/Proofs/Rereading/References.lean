import CliMetadata.Proofs.Rereading.Runs

/-!
# References that are read again

What an entity says of itself stays as it is, and so does what is read off it: the namespace and
name of a reference, where it is to be looked for, and the references that enclose it.

A reference may be read again in the shape of another one.  References that are made to take the
place of others are **made alike** (`Fact.projected`): they refer to assemblies of one identity and
have one namespace and name, and nothing else of them is read.  Two references **stand for the same**
(`Fact.same`) if they are one row, or have been made alike.
-/

namespace CliMetadata

open CliMetadata.Graph Loading Stateful
open List (Forall₂)

/-! ## Columns -/

namespace Graph.Perused

variable {k : Kind} {ρ β : Type} [Recorded k ρ] [Recorded.Lawful k] {g g' : Graph}

/-- What is read off the columns of an entity stays as it is. -/
theorem column (h : g.Perused g') {id : Id k} (hid : g.Settled id.node) {f : ρ → β}
    (hf : ∀ r r', (Recorded.pack k r').bare = (Recorded.pack k r).bare → f r' = f r) :
    f (g'.get id) = f (g.get id) := by
  have hbare := (h.entity hid).bare
  rw [Recorded.Lawful.entity_node (ρ := ρ), Recorded.Lawful.entity_node (ρ := ρ)] at hbare
  exact hf _ _ hbare

/-- So is all of an entity without slots. -/
theorem get_eq (h : g.Perused g') {id : Id k} (hid : g.Settled id.node)
    (hbare : ∀ r, (Recorded.pack k r).bare = Recorded.pack k r) : g'.get id = g.get id :=
  h.column (f := fun r => r) hid fun r r' hr => by
    rw [hbare, hbare] at hr
    exact Recorded.pack_inj hr

variable (h : g.Perused g')

include h

theorem typeDef_level {t : TypeDefId} (ht : g.Known t.key) : t.level g' = t.level g :=
  h.column (f := fun e => (e.space, e.name)) (.inl ht) fun r r' hr => by
    cases r; cases r'; simp_all [Recorded.pack, Entity.bare]

theorem typeRef_level {r : TypeRefId} (hr : g.Known r.key) : r.level g' = r.level g :=
  h.column (f := fun e => (e.space, e.name)) (.inl hr) fun r r' hr => by
    cases r; cases r'; simp_all [Recorded.pack, Entity.bare]

theorem typeRef_module {r : TypeRefId} (hr : g.Known r.key) :
    (g'.get r).module = (g.get r).module :=
  h.column (f := TypeRef.module) (.inl hr) fun r r' hr => by
    cases r; cases r'; simp_all [Recorded.pack, Entity.bare]

theorem exported_level {e : ExportedTypeId} (he : g.Known e.key) : e.level g' = e.level g :=
  h.column (f := fun e => (e.space, e.name)) (.inl he) fun r r' hr => by
    cases r; cases r'; simp_all [Recorded.pack, Entity.bare]

theorem exported_module {e : ExportedTypeId} (he : g.Known e.key) :
    (g'.get e).module = (g.get e).module :=
  h.column (f := ExportedType.module) (.inl he) fun r r' hr => by
    cases r; cases r'; simp_all [Recorded.pack, Entity.bare]

theorem module_name (m : ModuleId) : (g'.get m).name = (g.get m).name :=
  h.column (f := Module.name) (.inr (.inr rfl)) fun r r' hr => by
    cases r; cases r'; simp_all [Recorded.pack, Entity.bare]

theorem assembly (a : AssemblyId) : g'.get a = g.get a :=
  h.get_eq (.inr (.inl rfl)) fun _ => rfl

theorem assemblyRef {a : AssemblyRefId} (ha : g.Known a.key) : g'.get a = g.get a :=
  h.get_eq (.inl ha) fun _ => rfl

theorem moduleRef {m : ModuleRefId} (hm : g.Known m.key) : g'.get m = g.get m :=
  h.get_eq (.inl hm) fun _ => rfl

/-- A module that exists is referred to as before. -/
theorem upgrade {m : ModuleId} (hm : g.alive m.node) : g'.upgrade m = g.upgrade m := by
  rw [Graph.upgrade, Graph.upgrade, if_pos hm, if_pos (h.alive hm)]

end Graph.Perused

/-- What is referred to exists. -/
theorem alive_of_upgrade {k : Kind} {g : Graph} {id id' : Id k} (h : g.upgrade id = some id') :
    g.alive id'.node := by
  unfold Graph.upgrade at h
  split at h
  · next halive =>
    cases h
    exact halive
  · cases h

/-! ## Walks -/

section Walks

variable {α : Type} {up : α → GraphM (Option α)}

/-- What encloses something is the same again, where each step leads to what it led to. -/
theorem Rereads.ancestors {G : α → Fact}
    (h : ∀ {P : Fact} {x}, P ≤ G x → Rereads P (up x) (up x) fun o => .maybe o G) :
    ∀ (bound : Nat) {P : Fact} (start : Option α), P ≤ .maybe start G →
      Rereads P (Chain.ancestors up bound start) (Chain.ancestors up bound start) fun p => .all p.1 G
  | 0, _, _, _ => .pure Fact.maybe_none
  | _ + 1, _, none, _ => .pure Fact.maybe_none
  | n + 1, P, some x, hP => by
    have hx : P ≤ G x := Fact.maybe_some.mp hP
    refine (h hx).bind fun above => ?_
    refine (Rereads.ancestors h n above Fact.and_right).bind fun p => Rereads.pure fun g u h => ?_
    exact List.forall_mem_cons.mpr ⟨hx g u h.1.1, h.2⟩

variable {R : α → α → Fact}
  (h : ∀ {P : Fact} {x y}, P ≤ R x y → Again P (up x) (up y) fun o o' => .both R o o')

include h

/-- A walk from what is related to the start goes along what is related, step by step. -/
theorem Again.chain : ∀ (bound : Nat) {P : Fact} {x y : α}, P ≤ R x y →
    Again P (Chain.chain up bound x) (Chain.chain up bound y) fun c c' => .both (.forall₂ R) c c'
  | 0, _, _, _, _ => .pure Fact.both_none
  | n + 1, P, x, y, hP => by
    refine (h hP).bind_both (.pure ?_) fun x' y' => ?_
    · exact Fact.both_some fun g u h => Forall₂.cons (hP g u h) .nil
    · refine (Again.chain n Fact.and_right).bind_both (.pure Fact.both_none) fun xs ys => .pure ?_
      exact Fact.both_some fun g u h => Forall₂.cons (hP g u h.1.1) h.2

/-- So does one to the outermost. -/
theorem Again.outermost : ∀ (bound : Nat) {P : Fact} {x y : α}, P ≤ R x y →
    Again P (Chain.outermost up bound x) (Chain.outermost up bound y) fun o o' => .both R o o'
  | 0, _, _, _, _ => .pure Fact.both_none
  | n + 1, _, _, _, hP => (h hP).bind_both (.pure (Fact.both_some hP)) fun _ _ =>
    Again.outermost n Fact.and_right

end Walks

/-! ## References that are made -/

/-- What a reference is made of that takes the place of another one. -/
structure Projected where
  module : ModuleId
  level : Name × Name
  identity : AssemblyIdentity

/-- A reference to an assembly of an identity that is not one of the Windows Runtime. -/
structure Graph.Contracts (g : Graph) (a : AssemblyRefId) (i : AssemblyIdentity) : Prop where
  known : g.Known a.key
  identity : (g.get a).identity = i
  plain : (g.get a).isWindowsRuntime = false

/-- A reference that has been made to take the place of another one. -/
structure Graph.Projects (g : Graph) (r : TypeRefId) (d : Projected) : Prop where
  known : g.Known r.key
  module : (g.get r).module = d.module
  level : r.level g = d.level
  scope : ∃ a : AssemblyRefId, (g.get r).scope = some (some (.assemblyRef a)) ∧
    g.Contracts a d.identity

section Made

variable {g g' : Graph} {r : TypeRefId}

theorem mem_values_scope (r : TypeRef) (v : Option ResolutionScope) :
    SlotValue.scope v ∈ (Recorded.pack .typeRef r).values ↔ r.scope = some v := by
  simp [Recorded.pack, Entity.values]

theorem Graph.Contracts.perused {a : AssemblyRefId} {i : AssemblyIdentity} (h : g.Contracts a i)
    (k : g.Perused g') : g'.Contracts a i where
  known := h.known.mono k.built
  identity := by rw [k.assemblyRef h.known, h.identity]
  plain := by rw [k.assemblyRef h.known, h.plain]

theorem Graph.Projects.perused {d : Projected} (h : g.Projects r d) (k : g.Perused g') :
    g'.Projects r d where
  known := h.known.mono k.built
  module := (k.typeRef_module h.known).trans h.module
  level := (k.typeRef_level h.known).trans h.level
  scope := by
    obtain ⟨a, hscope, ha⟩ := h.scope
    exact ⟨a, k.held mem_values_scope (.inl h.known) hscope, ha.perused k⟩

end Made

namespace Fact

/-- Two references to assemblies of one identity. -/
def contract (a a' : AssemblyRefId) : Fact where
  holds g u := ∃ i, g.Contracts a i ∧ u.Contracts a' i
  stays h hg hu := h.imp fun _ h => ⟨h.1.perused hg, h.2.perused hu.toPerused⟩

/-- **Two references that have been made alike**, for a module that exists. -/
def projected (r r' : TypeRefId) : Fact where
  holds g u := ∃ d, g.alive d.module.node ∧ g.Projects r d ∧ u.Projects r' d
  stays h hg hu := h.imp fun _ h =>
    ⟨hg.alive h.1, h.2.1.perused hg, h.2.2.perused hu.toPerused⟩

/-- **Two references that stand for the same**: one row, or two that have been made alike. -/
def same (r r' : TypeRefId) : Fact := (of (r' = r ∧ r.key.IsRow)).or (projected r r')

/-- A scope that is a row, or a module that exists. -/
def inScope (v : Option ResolutionScope) : Fact where
  holds g _ := (SlotValue.scope v).OfRows ∧ ∀ m, v = some (.module m) → g.alive m.node
  stays h hg _ := ⟨h.1, fun m hm => hg.alive (h.2 m hm)⟩

/-- Two references to assemblies of one identity, as scopes. -/
def contracts (v v' : Option ResolutionScope) : Fact where
  holds g u := ∃ a a', v = some (.assemblyRef a) ∧ v' = some (.assemblyRef a') ∧
    (contract a a').holds g u
  stays h hg hu := by
    obtain ⟨a, a', hv, hv', h⟩ := h
    exact ⟨a, a', hv, hv', (contract a a').stays h hg hu⟩

end Fact

/-! ## Where references lead -/

namespace TypeRefId

variable {P : Fact} {r r' : TypeRefId}

/-- The scope of a row is the same again. -/
theorem scope_rereads (hrow : r.key.IsRow) : Rereads P r.scope r.scope .inScope := by
  refine .of_runs r.scope_peruses fun {g u} hP hg hu hper => ?_
  have hread := rereads_slot (P := P) .scope (Fact.rooted_row (Fact.le_of hrow))
    mem_values_scope (fun _ _ => rfl) r.scope_peruses
  obtain ⟨hrests, hvalue, hrows⟩ := hread.run hP hg hu hper
  refine ⟨hrests, hvalue, hrows, fun m hm => ?_⟩
  -- what has been read is held, and what is held is a module that exists
  have hheld : m ∈ Entity.scopeModules ((r.scope.run g).2.get r).scope := by
    rw [scope_read, hm]
    exact List.mem_singleton_self m
  exact (r.scope_peruses g hg).1.housed (n := r.node) hrow m (List.mem_cons_of_mem _ hheld)

/-- **The scopes of references that stand for the same** are the scope of one row, or refer to
assemblies of one identity. -/
theorem scope_again (hP : P ≤ .same r r') :
    Again P r.scope r'.scope fun v v' =>
      ((Fact.of ((r' = r ∧ r.key.IsRow) ∧ v' = v)).and (.inScope v)).or (.contracts v v') := by
  refine .or_elim hP (.of_fact r.scope_peruses Fact.and_right ?_) ?_
  · rintro ⟨rfl, hrow⟩
    exact Again.gives (scope_rereads hrow) fun _ _ _ _ h => .inl ⟨⟨⟨rfl, hrow⟩, h.1⟩, h.2⟩
  · refine again_held r.scope_peruses fun h => ?_
    obtain ⟨d, -, h, h'⟩ := h.2
    obtain ⟨a, hscope, ha⟩ := h.scope
    obtain ⟨a', hscope', ha'⟩ := h'.scope
    exact ⟨_, _, hscope, hscope', .inr ⟨a, a', rfl, rfl, d.identity, ha, ha'⟩⟩

theorem declaringType_again (hP : P ≤ .same r r') :
    Again P r.declaringType r'.declaringType fun o o' => .both .same o o' := by
  refine (scope_again hP).bind fun v v' => ?_
  refine .or_elim Fact.and_right
    (.of_fact (φ := v' = v ∧ (SlotValue.scope v).OfRows) (by split <;> exact Keeps.pure _)
      (fun _ _ h => ⟨h.2.1.2, h.2.2.1⟩) ?_)
    (.of_fact (φ := ∃ a a', v = some (.assemblyRef a) ∧ v' = some (.assemblyRef a'))
      (by split <;> exact Keeps.pure _) ?_ ?_)
  · rintro ⟨rfl, hrows⟩
    split
    · exact .pure (Fact.both_some fun _ _ _ => .inl ⟨rfl, hrows _ List.mem_cons_self⟩)
    · exact .pure Fact.both_none
  · rintro g u ⟨_, a, a', hv, hv', _⟩
    exact ⟨a, a', hv, hv'⟩
  · rintro ⟨a, a', rfl, rfl⟩
    exact .pure Fact.both_none

theorem nonNested_again (hP : P ≤ .same r r') :
    Again P r.nonNested r'.nonNested fun o o' => .both .same o o' :=
  Again.outermost declaringType_again _ hP

theorem nestingChain_again (hP : P ≤ .same r r') :
    Again P r.nestingChain r'.nestingChain fun c c' => .both (.forall₂ .same) c c' :=
  (Again.chain declaringType_again _ hP).bind_both (.pure Fact.both_none) fun _ _ =>
    .pure (Fact.both_some fun _ _ h => List.rel_reverse h.2)

end TypeRefId

/-! ## Paths -/

namespace Graph.Perused

variable {g u : Graph} (h : g.Perused u) {r r' : TypeRefId}

include h

/-- References that stand for the same have one namespace and name. -/
theorem same_level (hr : (Fact.same r r').holds g u) : r'.level u = r.level g := by
  rcases hr with ⟨rfl, hrow⟩ | ⟨d, -, hr, hr'⟩
  · exact h.typeRef_level hrow.known
  · exact hr'.level.trans hr.level.symm

theorem same_levels {rs rs' : List TypeRefId} (hrs : (Fact.forall₂ .same rs rs').holds g u) :
    rs'.map (TypeRefId.level u) = rs.map (TypeRefId.level g) := by
  induction hrs with
  | nil => rfl
  | cons hr _ ih => exact congrArg₂ List.cons (h.same_level hr) ih

/-- A reference belongs to the module that the one it is read for belongs to. -/
theorem same_module (hg : g.Grounded) (hr : (Fact.same r r').holds g u) :
    u.upgrade (u.get r').module = g.upgrade (g.get r).module := by
  rcases hr with ⟨rfl, hrow⟩ | ⟨d, halive, hr, hr'⟩
  · rw [h.typeRef_module hrow.known]
    exact h.upgrade (hg.housed (n := r'.node) hrow _ List.mem_cons_self)
  · rw [hr.module, hr'.module]
    exact h.upgrade halive

end Graph.Perused

namespace TypeRefId

variable {P : Fact} {r r' : TypeRefId}

/-- The path that a reference asks for is the same. -/
theorem path?_rereads (hP : P ≤ .same r r') : Rereads P r.path? r'.path? fun _ => .of True := by
  refine (nestingChain_again hP).bind_both ?_ fun rs rs' => ?_
  · exact Rereads.reads fun _ _ _ => ⟨rfl, trivial⟩
  · refine Rereads.reads fun {g u} hP' _ (hper : g.Perused u) => ⟨?_, trivial⟩
    exact congrArg some (hper.same_levels hP'.2)

/-- So is its module. -/
theorem module_rereads (hP : P ≤ .same r r') :
    Rereads P r.module r'.module fun m => .maybe m fun m => .alive m.node :=
  Rereads.reads fun hP' hg (hper : Graph.Perused _ _) =>
    ⟨hper.same_module hg (hP _ _ hP'), fun _ hm => alive_of_upgrade (Option.mem_toList.mp hm)⟩

end TypeRefId
end CliMetadata
