import CliMetadata.Proofs.Resolution.Scopes
import Mathlib.Data.List.Chain

/-!
# The bounded walks up a reference agree

Three walks go up the scopes of a reference: `nonNested` for its outermost reference,
`nestingChain` for all of them, and `fullName` for their names.  They are arranged
differently.  The first two count the reference they start from and give nothing where
the bound is reached; the third starts above it and takes what the bound allows.

`Chain.outermost_eq_chain` and `Chain.ancestors_eq_chain` reduce the first and the third
to the second, **state and all**.  What the second gives is a climb of at most `bound`
entities (`Chain.chain_eq_some_iff`).  So for every reference of every graph, cyclic ones
included, the walks give something alike, and what they give fits together
(`TypeRefId.nestingChain_agrees`).

The graph need not hold the reference: one that is neither held nor a row has no scope,
and so it ends a climb before anything else is read.
-/

namespace CliMetadata

open CliMetadata.Graph Loading Stateful

namespace Chain

variable {α : Type} {up : α → GraphM (Option α)} {next : α → Option α} {start : Option α}
  {xs : List α} {g : Graph}

/-! ## One walk in the terms of another -/

/-- A chain begins with its start. -/
theorem chain_starts : ∀ {n : Nat} {x : α} {g : Graph} {xs : List α},
    ((Chain.chain up n x).run g).1 = some xs → ∃ above, xs = x :: above
  | 0, _, _, _, h => by cases h
  | n + 1, x, g, xs, h => by
    rw [Chain.chain, run_bind] at h
    cases hnext : ((up x).run g).1 with
    | none =>
      rw [hnext] at h
      cases h
      exact ⟨[], rfl⟩
    | some y =>
      rw [hnext] at h
      obtain ⟨above, -, rfl⟩ := Option.map_eq_some_iff.mp h
      exact ⟨above, rfl⟩

/-- Going up to the outermost is going up the chain and taking its last. -/
theorem outermost_eq_chain : ∀ (bound : Nat) (x : α) (g : Graph),
    (Chain.outermost up bound x).run g =
      (((Chain.chain up bound x).run g).1.bind List.getLast?, ((Chain.chain up bound x).run g).2)
  | 0, _, _ => rfl
  | n + 1, x, g => by
    rw [Chain.outermost, Chain.chain, run_bind, run_bind]
    cases hnext : ((up x).run g).1 with
    | none => rfl
    | some y =>
      dsimp only
      rw [outermost_eq_chain n y, run_bind]
      cases hrest : ((Chain.chain up n y).run ((up x).run g).2).1 with
      | none => rfl
      | some ys =>
        obtain ⟨zs, rfl⟩ := chain_starts hrest
        exact Prod.ext List.getLast?_cons_cons.symm rfl

/-- **A chain that ends is collected from above its start**, under any bound that it is within. -/
theorem ancestors_eq_chain : ∀ {n bound : Nat} {x : α} {g : Graph} {above : List α}, n ≤ bound →
    ((Chain.chain up n x).run g).1 = some (x :: above) →
    (up x >>= Chain.ancestors up bound).run g = ((above, true), ((Chain.chain up n x).run g).2)
  | 0, _, _, _, _, _, h => by cases h
  | n + 1, 0, _, _, _, hbound, _ => absurd hbound (Nat.not_succ_le_zero n)
  | n + 1, bound + 1, x, g, above, hbound, h => by
    rw [Chain.chain, run_bind] at h
    rw [Chain.chain, run_bind, run_bind]
    cases hnext : ((up x).run g).1 with
    | none =>
      rw [hnext] at h
      cases h
      rfl
    | some y =>
      rw [hnext] at h
      obtain ⟨rest, hrest, hcons⟩ := Option.map_eq_some_iff.mp h
      obtain rfl := (List.cons.inj hcons).2
      obtain ⟨zs, rfl⟩ := chain_starts hrest
      -- the step up from `y` and the walk above it are those of the shorter chain
      have habove := ancestors_eq_chain (Nat.le_of_succ_le_succ hbound) hrest
      rw [run_bind] at habove
      dsimp only
      rw [Chain.ancestors, run_bind, run_bind, habove]
      rfl

/-! ## What a climb is -/

namespace Climbs

theorem head? (h : Climbs next start xs) : xs.head? = start := by
  cases h <;> rfl

/-- Each entity of a climb is above the one before it. -/
theorem isChain (h : Climbs next start xs) : xs.IsChain fun x y => next x = some y := by
  induction h with
  | ended => exact .nil
  | @step x xs above ih =>
    cases xs with
    | nil => exact .singleton x
    | cons y ys => exact .cons_cons above.head?.symm ih

/-- Nothing is above the last entity of a climb. -/
theorem last_top (h : Climbs next start xs) : ∀ y ∈ xs.getLast?, next y = none := by
  induction h with
  | ended => simp
  | @step x xs above ih =>
    cases xs with
    | nil =>
      intro y hy
      obtain rfl : x = y := Option.some.inj hy
      cases hnext : next x with
      | none => rfl
      | some z =>
        rw [hnext] at above
        cases above
    | cons z zs =>
      rw [List.getLast?_cons_cons]
      exact ih

end Climbs

/-- Going up gives what `next` says, and where that is something the walk can go on. -/
structure Follows (S : Graph → Prop) (up : α → GraphM (Option α)) (next : α → Option α) :
    Prop where
  value : ∀ {g}, S g → ∀ x, ((up x).run g).1 = next x
  goes_on : ∀ {g}, S g → ∀ x, (next x).isSome → S ((up x).run g).2

/-- **A chain is given exactly where there is a climb within the bound.** -/
theorem chain_eq_some_iff {S : Graph → Prop} (h : Follows S up next) :
    ∀ {bound : Nat} {x : α} {xs : List α} {g : Graph}, S g →
      (((Chain.chain up bound x).run g).1 = some xs ↔
        Climbs next (some x) xs ∧ xs.length ≤ bound)
  | 0, x, xs, g, _ => by
    constructor
    · intro hchain
      cases hchain
    · rintro ⟨hclimbs, hlength⟩
      cases hclimbs
      exact absurd hlength (Nat.not_succ_le_zero _)
  | n + 1, x, xs, g, hg => by
    have hvalue := h.value hg x
    rw [Chain.chain, run_bind, hvalue]
    cases hnext : next x with
    | none =>
      constructor
      · intro hchain
        cases hchain
        exact ⟨.step (hnext ▸ .ended), Nat.succ_le_succ (Nat.zero_le n)⟩
      · rintro ⟨hclimbs, -⟩
        cases hclimbs with
        | step above =>
          rw [hnext] at above
          cases above
          rfl
    | some y =>
      have hrest := @chain_eq_some_iff S h n y
      have hkept := h.goes_on hg x (by rw [hnext]; rfl)
      constructor
      · intro hchain
        obtain ⟨ys, hys, rfl⟩ := Option.map_eq_some_iff.mp hchain
        obtain ⟨hclimbs, hlength⟩ := (hrest hkept).mp hys
        exact ⟨.step (hnext ▸ hclimbs), Nat.succ_le_succ hlength⟩
      · rintro ⟨hclimbs, hlength⟩
        cases hclimbs with
        | step above =>
          rw [hnext] at above
          have hys := (hrest hkept).mpr ⟨above, Nat.le_of_succ_le_succ hlength⟩
          exact Option.map_eq_some_iff.mpr ⟨_, hys, rfl⟩

end Chain

/-! ## References -/

namespace TypeRefId

open Chain

variable {g g' : Graph} {r : TypeRefId}

/-- The reference that encloses a reference, as a graph reads it. -/
def enclosing (g : Graph) (r : TypeRefId) : Option TypeRefId := (r.declaringType.run g).1

theorem enclosing_eq (g : Graph) (r : TypeRefId) :
    enclosing g r = enclosing? (lazyScope.value g r) :=
  congrArg Prod.fst (declaringType_eq g r)

/-- A reference that is not there has no scope. -/
theorem scope_absent (h : g.present r.node = false) : lazyScope.value g r = none := by
  obtain ⟨hunmade, hrow⟩ := Bool.or_eq_false_iff.mp h
  have hentry : g.entities.get? r.node = none := by
    unfold Index.contains at hunmade
    exact Option.isSome_eq_false_iff.mp hunmade |> Option.isNone_iff_eq_none.mp
  have hblank : g.get r = Recorded.blank .typeRef := by
    obtain ⟨key⟩ := r
    unfold Graph.get
    rw [hentry]
    cases key with
    | built _ => rfl
    | row loader place =>
      have hmade := ofRow?_isSome (k := .typeRef) g loader place
      rw [show g.hasRow ⟨.typeRef, .row loader place⟩ = false from hrow] at hmade
      dsimp only
      rw [Option.isNone_iff_eq_none.mp (Option.isSome_eq_false_iff.mp hmade)]
      rfl
  have horigin : g.origin r.node = .inMemory := by
    unfold origin
    rw [Recorded.Lawful.entity_node (ρ := TypeRef), hblank]
    rfl
  rw [lazyScope.value_empty (lazyScope.get_unmade hentry), LazySlot.stored, horigin]
  rfl

/-- Going up references reads what encloses them, and goes on where they are there. -/
theorem follows_enclosing (g : Graph) : Follows g.Consulted declaringType (enclosing g) where
  value {g'} h x := by
    show enclosing g' x = enclosing g x
    rw [enclosing_eq, enclosing_eq, h.value (z := lazyScope) fun _ _ => rfl]
  goes_on {g'} h x hx := by
    rw [declaringType_eq]
    have hpresent : g'.present x.node := by
      by_contra habsent
      have hscope := scope_absent (Bool.not_eq_true _ ▸ habsent)
      rw [h.value (z := lazyScope) fun _ _ => rfl] at hscope
      rw [enclosing_eq, hscope] at hx
      cases hx
    exact h.trans (.of_read (z := lazyScope) (fun _ _ => rfl) hpresent)

/-- The full name of a reference spells its chain. -/
theorem fullName_of_chain {above : List TypeRefId}
    (h : ((Chain.chain declaringType recursionBound r).run g).1 = some (r :: above)) :
    (r.fullName.run g).1 = TypePath.spelled ((r :: above).reverse.map (level g)) := by
  have hwalk := ancestors_eq_chain (Nat.le_refl _) h
  have hlater := keeps_chain keeps_declaringType recursionBound r g
  rw [run_bind] at hwalk
  rw [fullName, run_bind, run_bind, hwalk, run_get_bind, funext hlater.typeRef_level]
  unfold TypePath.spelled
  rw [List.map_map, List.map_reverse]
  rfl

/-- So it spells its path. -/
theorem fullName_of_path {path : TypePath} (h : (r.path?.run g).1 = some path) :
    (r.fullName.run g).1 = path.spelled := by
  have hlater := keeps_chain keeps_declaringType recursionBound r g
  have hread : (r.path?.run g).1 =
      ((Chain.chain declaringType recursionBound r).run g).1.map fun rs =>
        rs.reverse.map (level ((Chain.chain declaringType recursionBound r).run g).2) :=
    Option.map_map ..
  rw [h] at hread
  obtain ⟨rs, hrs, rfl⟩ := Option.map_eq_some_iff.mp hread.symm
  obtain ⟨above, rfl⟩ := chain_starts hrs
  rw [fullName_of_chain hrs, funext hlater.typeRef_level]

/-- **The walks up a reference agree**, in every graph.  The nesting chain and the outermost
reference are given for the same references, those that a climb of at most `recursionBound`
references leads from.  The chain is that climb from its far end: it ends with the reference,
it begins with the outermost one, which nothing encloses, and its names spell the full name. -/
theorem nestingChain_agrees (g : Graph) (r : TypeRefId) :
    ((r.nestingChain.run g).1.isSome ↔ (r.nonNested.run g).1.isSome) ∧
      ((r.nestingChain.run g).1.isSome ↔
        ∃ rs, Climbs (enclosing g) (some r) rs ∧ rs.length ≤ recursionBound) ∧
      ∀ chain, (r.nestingChain.run g).1 = some chain →
        chain.getLast? = some r ∧
        (chain.IsChain fun outer inner => enclosing g inner = some outer) ∧
        (∃ outermost, (r.nonNested.run g).1 = some outermost ∧ chain.head? = some outermost ∧
          enclosing g outermost = none) ∧
        (r.fullName.run g).1 = TypePath.spelled (chain.map (level g)) := by
  have hclimbs : ∀ rs, ((Chain.chain declaringType recursionBound r).run g).1 = some rs ↔
      Climbs (enclosing g) (some r) rs ∧ rs.length ≤ recursionBound :=
    fun rs => chain_eq_some_iff (follows_enclosing g) (Consulted.refl g)
  have hchain : (r.nestingChain.run g).1 =
      ((Chain.chain declaringType recursionBound r).run g).1.map List.reverse := rfl
  have houtermost : (r.nonNested.run g).1 =
      ((Chain.chain declaringType recursionBound r).run g).1.bind List.getLast? :=
    congrArg Prod.fst (outermost_eq_chain recursionBound r g)
  rw [hchain, houtermost, Option.isSome_map]
  refine ⟨?_, Option.isSome_iff_exists.trans (exists_congr hclimbs), ?_⟩
  · cases hread : ((Chain.chain declaringType recursionBound r).run g).1 with
    | none => exact Iff.rfl
    | some rs =>
      obtain ⟨above, rfl⟩ := chain_starts hread
      simp
  · intro chain hsome
    obtain ⟨rs, hread, rfl⟩ := Option.map_eq_some_iff.mp hsome
    have hrs := ((hclimbs rs).mp hread).1
    obtain ⟨above, rfl⟩ := chain_starts hread
    have hlast := List.getLast?_eq_some_getLast (List.cons_ne_nil r above)
    refine ⟨?_, List.isChain_reverse.mpr hrs.isChain, ⟨_, ?_, ?_, hrs.last_top _ hlast⟩,
      fullName_of_chain hread⟩
    · rw [List.getLast?_reverse, List.head?_cons]
    · rw [hread]
      exact hlast
    · rw [List.head?_reverse, hlast]

end TypeRefId
end CliMetadata
