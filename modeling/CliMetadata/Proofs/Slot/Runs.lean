import CliMetadata.Slot

/-!
# A slot as a cell with an optional value

A slot is published to in three ways: a read under the locking policy stores what it computed, a
read without locking and a relaxed read keep what was published first, and a set stores what it is
given.  All three come to the same for whoever reads the slot: **a run of a slot is the run of a cell
that holds an optional value** (`runAll_cell`).  A read that finds a value gives it and computes
nothing.  A read that finds none computes once; it gives and leaves in the cell the first of the
values that are **offered** while it runs (`Action.offers`), which are those that its computation
publishes on the way and after them the one that it yields.

The one thing that tells the policies apart is a computation that publishes into the slot during a
read *under the policy* (`Action.racesLocked`): the locking policy stores the reader's value over what
was published, as its lock is there to keep such a publication out.
-/

namespace CliMetadata.Slot

variable {α : Type}

/-! ## Actions on an optional value -/

namespace Action

/-- The values that are offered to a slot while a read runs, in order: what its computation publishes
on the way, then what it yields.  Nothing else offers any. -/
def offers : Action α → List α
  | .get v | .getRelaxed v => [v]
  | .getRacing v other | .getRacingLocked v other => [other, v]
  | .set _ | .setRelaxed _ | .reset | .peek => []

/-- Whether an action is a read that computes where it finds nothing. -/
def isRead (a : Action α) : Bool := !a.offers.isEmpty

/-- Whether an action is a read under the slot's policy with a computation that publishes. -/
def racesLocked : Action α → Bool
  | .getRacingLocked _ _ => true
  | _ => false

/-- Whether an action has to compute, given what the slot holds. -/
def misses (held : Option α) (a : Action α) : Bool := a.isRead && held.isNone

/-- The optional value after an action: a read keeps it, or else the first value offered. -/
def next (held : Option α) : Action α → Option α
  | .set v | .setRelaxed v => some v
  | .reset => none
  | a => held.or a.offers.head?

/-- What an action answers, given the optional value: a read gives the value that is there after it. -/
def answer (held : Option α) : Action α → Option α
  | .set _ | .setRelaxed _ | .reset => none
  | a => a.next held

end Action

/-- **One action on a cell that holds an optional value**: from the cell `c` to the cell `c'`. -/
structure Proceeds (a : Action α) (c : Cell α) (answer : Option α) (c' : Cell α) : Prop where
  /-- A read that finds a value gives it and computes nothing. -/
  found : a.isRead → ∀ v, c.value = some v → answer = some v ∧ c' = c
  /-- A read that finds none computes once and gives what is stored afterwards, the first value
  published. -/
  missed : a.isRead → c.value = none →
    c'.computations = c.computations + 1 ∧
      ∃ v, a.offers.head? = some v ∧ c'.value = some v ∧ answer = some v
  /-- A set stores its value, whether one is held or not. -/
  stored : ∀ v, a = .set v ∨ a = .setRelaxed v → answer = none ∧ c' = { c with value := some v }
  emptied : a = .reset → answer = none ∧ c' = { c with value := none }
  peeked : a = .peek → answer = c.value ∧ c' = c

/-- How many actions of a run have to compute: the reads that find the slot empty. -/
def missed (policy : InitPolicy) : List (Action α) → Cell α → Nat
  | [], _ => 0
  | a :: rest, c => (if a.misses c.value then 1 else 0) + missed policy rest (a.run policy c).2

/-! ## Steps -/

namespace Action

/-- **An action on a slot is an action on an optional value**, under either policy. -/
theorem run_eq {a : Action α} (h : a.racesLocked = false) (policy : InitPolicy) (c : Cell α) :
    a.run policy c =
      (a.answer c.value,
        ⟨a.next c.value, c.computations + if a.misses c.value then 1 else 0⟩) := by
  obtain ⟨held, count⟩ := c
  cases a with
  | get v => cases policy <;> cases held <;> rfl
  | getRelaxed v => cases held <;> rfl
  | getRacing v other => cases held <;> rfl
  | getRacingLocked v other => cases h
  | set v => rfl
  | setRelaxed v => rfl
  | reset => rfl
  | peek => cases held <;> rfl

/-- An action on an optional value is as a cell is expected to take it. -/
theorem proceeds (a : Action α) (c : Cell α) :
    Proceeds a c (a.answer c.value)
      ⟨a.next c.value, c.computations + if a.misses c.value then 1 else 0⟩ := by
  obtain ⟨held, count⟩ := c
  constructor
  · rintro hread v ⟨rfl⟩
    cases a <;> first | exact ⟨rfl, rfl⟩ | cases hread
  · rintro hread ⟨rfl⟩
    cases a <;> first | exact ⟨rfl, _, rfl, rfl, rfl⟩ | cases hread
  · rintro v (rfl | rfl) <;> exact ⟨rfl, rfl⟩
  · rintro rfl
    exact ⟨rfl, rfl⟩
  · rintro rfl
    cases held <;> exact ⟨rfl, rfl⟩

end Action

/-! ## Runs -/

theorem runAll_cons (policy : InitPolicy) (a : Action α) (rest : List (Action α)) (c : Cell α) :
    runAll policy (a :: rest) c =
      (((a.run policy c).1, (a.run policy c).2.computations) ::
        (runAll policy rest (a.run policy c).2).1, (runAll policy rest (a.run policy c).2).2) := rfl

/-- A run goes on from where another one ended. -/
theorem runAll_append (policy : InitPolicy) : ∀ (first rest : List (Action α)) (c : Cell α),
    runAll policy (first ++ rest) c =
      ((runAll policy first c).1 ++ (runAll policy rest (runAll policy first c).2).1,
        (runAll policy rest (runAll policy first c).2).2)
  | [], _, _ => rfl
  | a :: first, rest, c => by
    rw [List.cons_append, runAll_cons, runAll_cons, runAll_append policy first rest, List.cons_append]

/-- There is an answer for each action. -/
theorem length_runAll (policy : InitPolicy) : ∀ (actions : List (Action α)) (c : Cell α),
    (runAll policy actions c).1.length = actions.length
  | [], _ => rfl
  | a :: rest, c => by
    rw [runAll_cons, List.length_cons, length_runAll policy rest, List.length_cons]

/-- The answer at the place of an action, with the computations after it. -/
theorem runAll_at (policy : InitPolicy) (first rest : List (Action α)) (a : Action α)
    (c : Cell α) :
    let reached := (runAll policy first c).2
    (runAll policy (first ++ a :: rest) c).1[first.length]? =
      some ((a.run policy reached).1, (a.run policy reached).2.computations) := by
  intro reached
  have hlength : (runAll policy first c).1.length = first.length := length_runAll policy first c
  rw [runAll_append, List.getElem?_append_right (Nat.le_of_eq hlength), hlength, Nat.sub_self]
  rfl

theorem runAll_concat (policy : InitPolicy) (first : List (Action α)) (a : Action α) (c : Cell α) :
    (runAll policy (first ++ [a]) c).2 = (a.run policy (runAll policy first c).2).2 := by
  rw [runAll_append]
  rfl

/-- Runs do not depend on the policy. -/
theorem runAll_policy (policy other : InitPolicy) : ∀ {actions : List (Action α)} (c : Cell α),
    (∀ a ∈ actions, a.racesLocked = false) → runAll other actions c = runAll policy actions c
  | [], _, _ => rfl
  | a :: rest, c, h => by
    obtain ⟨ha, hrest⟩ := List.forall_mem_cons.mp h
    have hstep : a.run other c = a.run policy c := by rw [Action.run_eq ha, Action.run_eq ha]
    rw [runAll_cons, runAll_cons, hstep, runAll_policy policy other (a.run policy c).2 hrest]

/-- As many computations are run as reads find the slot empty. -/
theorem computations_runAll (policy : InitPolicy) : ∀ {actions : List (Action α)} (c : Cell α),
    (∀ a ∈ actions, a.racesLocked = false) →
    (runAll policy actions c).2.computations = c.computations + missed policy actions c
  | [], _, _ => rfl
  | a :: rest, c, h => by
    obtain ⟨ha, hrest⟩ := List.forall_mem_cons.mp h
    have ih := computations_runAll policy (a.run policy c).2 hrest
    have hstep : (a.run policy c).2.computations =
        c.computations + if a.misses c.value then 1 else 0 := by rw [Action.run_eq ha]
    rw [runAll_cons, missed]
    dsimp only
    omega

/-- **A run of a slot is the run of a cell that holds an optional value**, from whatever the slot
holds: it is the same under both policies, each action proceeds as on such a cell, and as many
computations are run as reads find the slot empty. -/
theorem runAll_cell (policy : InitPolicy) (c : Cell α) (actions : List (Action α))
    (h : ∀ a ∈ actions, a.racesLocked = false) :
    (∀ other : InitPolicy, runAll other actions c = runAll policy actions c) ∧
      (∀ first a rest, actions = first ++ a :: rest →
        let reached := (runAll policy first c).2
        let after := (runAll policy (first ++ [a]) c).2
        ∃ answer, (runAll policy actions c).1[first.length]? = some (answer, after.computations) ∧
          Proceeds a reached answer after) ∧
      (runAll policy actions c).2.computations = c.computations + missed policy actions c := by
  refine ⟨fun other => runAll_policy policy other c h, ?_, computations_runAll policy c h⟩
  rintro first a rest rfl reached after
  have ha : a.racesLocked = false := h a (List.mem_append_right _ List.mem_cons_self)
  have hafter : after = (a.run policy reached).2 := runAll_concat policy first a c
  refine ⟨(a.run policy reached).1, ?_, ?_⟩
  · rw [hafter]
    exact runAll_at policy first rest a c
  · rw [hafter, Action.run_eq ha]
    exact a.proceeds reached

/-- A slot that is read, emptied, read by computations that publish, set and read again. -/
def mixedRun : List (Action Nat) :=
  [.get 1, .getRelaxed 2, .reset, .getRacing 3 4, .peek, .set 5, .get 6, .reset, .get 7]

/-- The third computation of the mixed run is for its last read, which finds the slot empty. -/
theorem runAll_cell_mixed :
    (∀ a ∈ mixedRun, a.racesLocked = false) ∧
      runAll .noLocking mixedRun ⟨none, 0⟩ = runAll .perEntityLock mixedRun ⟨none, 0⟩ ∧
      (runAll .perEntityLock mixedRun ⟨none, 0⟩).1[3]? = some (some 4, 2) ∧
      (runAll .perEntityLock mixedRun ⟨none, 0⟩).2.computations = 0 + 3 :=
  have h : ∀ a ∈ mixedRun, a.racesLocked = false := by decide
  have hcell := runAll_cell .perEntityLock ⟨none, 0⟩ mixedRun h
  ⟨h, hcell.1 .noLocking, by decide, hcell.2.2⟩

/-- A computation that publishes during a read under the policy tells the policies apart. -/
example : (runAll .noLocking [.getRacingLocked 1 2] ⟨none, 0⟩).1 = [(some 2, 1)] ∧
    (runAll .perEntityLock [.getRacingLocked 1 2] ⟨none, 0⟩).1 = [(some 1, 1)] := by decide

end CliMetadata.Slot
