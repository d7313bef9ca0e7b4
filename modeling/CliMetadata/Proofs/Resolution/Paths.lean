import CliMetadata.Proofs.Graph.References
import CliMetadata.Proofs.Ownership.BackReferences

/-!
# Paths and full names

A path and a full name are read on the way up, from a type along its back-references
and from a reference along its scopes.  `Chain.Climbs next start xs` says that going up
from a start by `next` comes to the entities `xs` and to no more; **a walk along a climb
that is within its bound reads it as it is** (`Climbs.ancestors`, `Climbs.chain`).

`TypeRefId.Enclosed g r rs` says that `rs` are a reference and those that enclose it,
all of them read, and `TypeDefId.Enclosed g t ts` the same of a type.  Each has one
lemma for what the path reads as and one for the full name.  Reading a reference whose
chain has been read changes nothing, and reading a type only asks for back-references.
-/

namespace CliMetadata

open CliMetadata.Graph Loading Stateful

/-! ## Climbs -/

namespace Chain

variable {α : Type} {next : α → Option α} {start : Option α} {xs : List α}

/-- Going up from a start comes to some entities, nearest first, and then to an end. -/
inductive Climbs (next : α → Option α) : Option α → List α → Prop
  | ended : Climbs next none []
  | step {x : α} {xs : List α} (above : Climbs next (next x) xs) : Climbs next (some x) (x :: xs)

variable {S : Graph → Prop} {up : α → GraphM (Option α)}

/-- A climb that is shorter than the bound is collected, with the note that it ends. -/
theorem Climbs.ancestors : ∀ {bound : Nat} {start : Option α} {xs : List α},
    Climbs next start xs → xs.length < bound → (∀ x ∈ xs, Yields S (up x) (next x)) → ∀ g, S g →
    ((Chain.ancestors up bound start).run g).1 = (xs, true) ∧
      S ((Chain.ancestors up bound start).run g).2
  | n + 1, none, _, .ended, _, _, g, hg => ⟨rfl, hg⟩
  | n + 1, some x, _ :: xs, .step above, hbound, hup, g, hg => by
    obtain ⟨hvalue, hkept⟩ := hup x List.mem_cons_self g hg
    obtain ⟨hrest, hafter⟩ := ancestors above (Nat.lt_of_succ_lt_succ hbound)
      (fun y hy => hup y (List.mem_cons_of_mem _ hy)) _ hkept
    rw [Chain.ancestors, run_bind, hvalue, run_bind]
    exact ⟨by rw [hrest]; rfl, hafter⟩

/-- A climb within the bound is collected by `chain`. -/
theorem Climbs.chain : ∀ {bound : Nat} {x : α} {xs : List α},
    Climbs next (some x) xs → xs.length ≤ bound → (∀ y ∈ xs, Yields S (up y) (next y)) → ∀ g, S g →
    ((Chain.chain up bound x).run g).1 = some xs ∧ S ((Chain.chain up bound x).run g).2
  | 0, _, _, .step _, hbound, _, _, _ => absurd hbound (Nat.not_succ_le_zero _)
  | n + 1, x, _ :: xs, .step above, hbound, hup, g, hg => by
    obtain ⟨hvalue, hkept⟩ := hup x List.mem_cons_self g hg
    rw [Chain.chain, run_bind, hvalue]
    cases hnext : next x with
    | none =>
      rw [hnext] at above
      cases above
      exact ⟨rfl, hkept⟩
    | some y =>
      rw [hnext] at above
      obtain ⟨hrest, hafter⟩ := chain above (Nat.le_of_succ_le_succ hbound)
        (fun y hy => hup y (List.mem_cons_of_mem _ hy)) _ hkept
      dsimp only
      rw [run_bind]
      exact ⟨by rw [hrest]; rfl, hafter⟩

end Chain

/-- A path as a full name spells it. -/
def TypePath.spelled (path : TypePath) : String :=
  "/".intercalate (path.map fun level => Name.qualified level.1 level.2)

/-! ## References -/

namespace TypeRefId

open Chain

variable {g g' : Graph} {r : TypeRefId} {rs : List TypeRefId}

/-- The reference that encloses a reference, as far as its scope has been read. -/
def above (g : Graph) (r : TypeRefId) : Option TypeRefId := enclosing? ((g.get r).scope.getD none)

theorem above_eq {scope : Option ResolutionScope} (h : (g.get r).scope = some scope) :
    above g r = enclosing? scope := by
  rw [above, h]
  rfl

/-- A reference with those that enclose it, all of them read. -/
structure Enclosed (g : Graph) (r : TypeRefId) (rs : List TypeRefId) : Prop where
  climbs : Climbs (above g) (some r) rs
  bounded : rs.length ≤ recursionBound
  read : ∀ x ∈ rs, (g.get x).scope.isSome

/-- What the nesting chain of a reference has been read as is what encloses it, in every
later graph. -/
theorem chain_climbs : ∀ {bound : Nat} {g : Graph} {r : TypeRefId} {rs : List TypeRefId},
    ((Chain.chain declaringType bound r).run g).1 = some rs →
    ((Chain.chain declaringType bound r).run g).2.Later g' →
    Climbs (above g') (some r) rs ∧ rs.length ≤ bound ∧ ∀ x ∈ rs, (g'.get x).scope.isSome
  | 0, _, _, _, h, _ => by cases h
  | n + 1, g, r, rs, h, hlater => by
    have hread := scope_read g r
    rw [Chain.chain, run_bind, declaringType_eq] at h hlater
    generalize (r.scope.run g).2 = g₁ at *
    generalize (r.scope.run g).1 = scope at *
    cases hup : enclosing? scope with
    | none =>
      rw [hup] at h hlater
      cases h
      have hheld := hlater.scope_held hread
      have hlast : Climbs (above g') (some r) [r] := by
        refine .step ?_
        rw [above_eq hheld, hup]
        exact .ended
      refine ⟨hlast, Nat.succ_le_succ (Nat.zero_le n), ?_⟩
      intro x hx
      obtain rfl := List.mem_singleton.mp hx
      rw [hheld]
      rfl
    | some y =>
      rw [hup] at h hlater
      dsimp only at h hlater
      rw [run_bind] at h hlater
      replace hlater : ((Chain.chain declaringType n y).run g₁).2.Later g' := hlater
      obtain ⟨rest, hrest, rfl⟩ := Option.map_eq_some_iff.mp h
      obtain ⟨hclimbs, hlength, hall⟩ := chain_climbs hrest hlater
      -- the scope was held before the walk above it, which keeps it
      have hheld := ((keeps_chain keeps_declaringType n y g₁).trans hlater).scope_held hread
      refine ⟨.step ?_, Nat.succ_le_succ hlength, ?_⟩
      · rw [above_eq hheld, hup]
        exact hclimbs
      · intro x hx
        rcases List.mem_cons.mp hx with rfl | hx
        · rw [hheld]
          rfl
        · exact hall x hx

namespace Enclosed

/-- Nothing is left to be read of a reference that is read with what encloses it. -/
theorem reads (h : Enclosed g r rs) : ∀ x ∈ rs, Yields (· = g) x.declaringType (above g x) := by
  rintro x hx _ rfl
  obtain ⟨scope, hscope⟩ := Option.isSome_iff_exists.mp (h.read x hx)
  rw [declaringType_eq, scope_run hscope, above_eq hscope]
  exact ⟨rfl, rfl⟩

theorem nestingChain_run (h : Enclosed g r rs) : r.nestingChain.run g = (some rs.reverse, g) := by
  obtain ⟨hvalue, hstate⟩ := h.climbs.chain h.bounded h.reads g rfl
  rw [nestingChain, run_bind, hvalue, hstate]
  rfl

theorem path?_run (h : Enclosed g r rs) :
    r.path?.run g = (some (rs.reverse.map (level g)), g) := by
  rw [path?, run_bind, h.nestingChain_run]
  rfl

theorem fullName_run (h : Enclosed g r rs) :
    r.fullName.run g = (TypePath.spelled (rs.reverse.map (level g)), g) := by
  obtain ⟨x, rest, rfl⟩ : ∃ x rest, rs = x :: rest := by
    cases h.climbs with
    | step _ => exact ⟨_, _, rfl⟩
  obtain ⟨rfl, habove⟩ : r = x ∧ Climbs (above g) (above g r) rest := by
    cases h.climbs with
    | step habove => exact ⟨rfl, habove⟩
  obtain ⟨hup, hstate⟩ := h.reads r List.mem_cons_self g rfl
  obtain ⟨hrest, hafter⟩ := habove.ancestors (Nat.lt_of_succ_le h.bounded)
    (fun y hy => h.reads y (List.mem_cons_of_mem _ hy)) g rfl
  rw [fullName, run_bind, hup, hstate, run_bind, hrest, hafter]
  unfold TypePath.spelled
  rw [List.map_map, List.map_reverse]
  rfl

end Enclosed
end TypeRefId

/-! ## Types -/

/-- Back-references read alike however many of them have been asked for. -/
theorem Graph.Asked.owner {children : Node → Prop} {g g' : Graph} (h : g.Asked children g')
    (e : Edge) (c : Key) :
    ((Ownership.owner e c).run g').1 = ((Ownership.owner e c).run g).1 := by
  rw [(owner_run g' e c).2.1, (owner_run g e c).2.1, h.noted]
  exact congrArg (Option.filter · (g.noted e c)) (funext h.alive)

namespace TypeDefId

open Chain

variable {g g' : Graph} {t : TypeDefId} {ts : List TypeDefId}

/-- The type that encloses a type, as its back-reference reads. -/
def above (g : Graph) (t : TypeDefId) : Option TypeDefId := (t.declaringType.run g).1

/-- A type with those that enclose it. -/
structure Enclosed (g : Graph) (t : TypeDefId) (ts : List TypeDefId) : Prop where
  climbs : Climbs (above g) (some t) ts
  bounded : ts.length ≤ recursionBound

/-- The graph after some back-references have been asked for. -/
abbrev Asks (g : Graph) : Graph → Prop := g.Asked fun _ => True

theorem yields_above (g : Graph) (t : TypeDefId) :
    Yields (Asks g) t.declaringType (above g t) := by
  intro g' h
  have hvalue : above g' t = above g t :=
    congrArg (Option.map fun n : Node => (⟨n.key⟩ : TypeDefId)) (h.owner .nestedTypes t.key)
  have hasked := (owner_run g' .nestedTypes t.key).1
  exact ⟨hvalue, h.trans (hasked.mono fun _ _ => trivial)⟩

theorem level_asked (h : Asks g g') (t : TypeDefId) : t.level g' = t.level g := by
  have hsame : g'.get t = g.get t := Entity.typeDef.inj (h.entity t.node)
  unfold level
  rw [hsame]

namespace Enclosed

theorem ancestors_run (h : Enclosed g t ts) :
    ∃ rest, ts = t :: rest ∧
      (((Chain.ancestors declaringType recursionBound (above g t)).run
        (t.declaringType.run g).2).1 = (rest, true)) ∧
      Asks g ((Chain.ancestors declaringType recursionBound (above g t)).run
        (t.declaringType.run g).2).2 := by
  obtain ⟨rest, rfl, habove⟩ : ∃ rest, ts = t :: rest ∧ Climbs (above g) (above g t) rest := by
    cases h.climbs with
    | step habove => exact ⟨_, rfl, habove⟩
  obtain ⟨-, hstate⟩ := yields_above g t g (Asked.refl g)
  exact ⟨rest, rfl, habove.ancestors (Nat.lt_of_succ_le h.bounded) (fun y _ => yields_above g y) _ hstate⟩

theorem path?_run (h : Enclosed g t ts) :
    (t.path?.run g).1 = some (ts.reverse.map (level g)) ∧ Asks g (t.path?.run g).2 := by
  obtain ⟨rest, rfl, hrest, hasked⟩ := h.ancestors_run
  have hlevels : level ((Chain.ancestors declaringType recursionBound (above g t)).run
      (t.declaringType.run g).2).2 = level g := funext (level_asked hasked)
  rw [path?, run_bind, run_bind]
  unfold above at hrest hasked hlevels
  rw [hrest, run_get_bind, hlevels, List.map_reverse]
  exact ⟨rfl, hasked⟩

theorem fullName_run (h : Enclosed g t ts) :
    (t.fullName.run g).1 = TypePath.spelled (ts.reverse.map (level g)) := by
  obtain ⟨rest, rfl, hrest, hasked⟩ := h.ancestors_run
  have hlevels : level ((Chain.ancestors declaringType recursionBound (above g t)).run
      (t.declaringType.run g).2).2 = level g := funext (level_asked hasked)
  rw [fullName, run_bind, run_bind]
  unfold above at hrest hasked hlevels
  rw [hrest, run_get_bind, hlevels]
  unfold TypePath.spelled
  rw [List.map_map, List.map_reverse]
  rfl

end Enclosed
end TypeDefId
end CliMetadata
