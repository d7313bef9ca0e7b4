/-!
# Slots that are computed on demand

A slot holds a value or nothing.  Reading an empty slot runs a computation and
publishes a value; a computation may itself reach the slot, so what is published
can differ from what was computed.  Under the **locking** policy the reader's
value is stored; **without locking** (and for a relaxed read under either
policy) the value published first stays.

`SlotIn σ α` is a slot inside a larger state `σ`, so that one definition serves a
single cell (`Slot.Cell`) and the slots of a metadata graph.
-/

namespace CliMetadata

/-- How the first read of a slot is protected. -/
inductive InitPolicy where
  | noLocking
  | perEntityLock
deriving Repr, DecidableEq

namespace InitPolicy

instance : Inhabited InitPolicy := ⟨perEntityLock⟩

/-- The policy for use by one thread at a time. -/
def singleThreaded : InitPolicy := noLocking

/-- The policy for use by several threads. -/
def threadSafe : InitPolicy := perEntityLock

/-- The name of a policy. -/
def name : InitPolicy → String
  | noLocking => "NoLocking"
  | perEntityLock => "PerEntityLock"

end InitPolicy

/-- A slot inside a state. -/
structure SlotIn (σ α : Type) where
  /-- The value held. -/
  peek : σ → Option α
  /-- The state with another value held. -/
  publish : α → σ → σ
  /-- The state with no value held. -/
  clear : σ → σ

namespace SlotIn

variable {σ α : Type}

/-- Publishes a value unless one is held, and gives the value held then. -/
def publishFirst (slot : SlotIn σ α) (computed : α) : StateM σ α := fun s =>
  match slot.peek s with
  | some held => (held, s)
  | none => (computed, slot.publish computed s)

/-- Reads a slot; a relaxed read of an empty slot keeps the value that was
published first. -/
def getRelaxed (slot : SlotIn σ α) (compute : StateM σ α) : StateM σ α := do
  match slot.peek (← get) with
  | some held => return held
  | none => slot.publishFirst (← compute)

/-- Reads a slot under a policy. -/
def read (slot : SlotIn σ α) (policy : InitPolicy) (compute : StateM σ α) : StateM σ α := do
  match slot.peek (← get) with
  | some held => return held
  | none =>
    match policy with
    | .noLocking => slot.publishFirst (← compute)
    | .perEntityLock => do
      let computed ← compute
      modify (slot.publish computed)
      return computed

end SlotIn

namespace Slot

/-- A single slot, with the number of computations run for it so far. -/
structure Cell (α : Type) where
  value : Option α
  computations : Nat
deriving Repr, DecidableEq

variable {α : Type}

/-- The slot of a cell. -/
def inCell : SlotIn (Cell α) α where
  peek c := c.value
  publish v c := { c with value := some v }
  clear c := { c with value := none }

/-- A computation that yields a value. -/
def yielding (v : α) : StateM (Cell α) α := do
  modify fun c => { c with computations := c.computations + 1 }
  return v

/-- A computation during which another value is published before it yields its
own. -/
def racing (v other : α) : StateM (Cell α) α := do
  modify (inCell.publish other)
  yielding v

/-- What can be done to a slot. -/
inductive Action (α : Type) where
  | get (v : α)
  | getRelaxed (v : α)
  /-- A relaxed read whose computation publishes `other` on the way. -/
  | getRacing (v other : α)
  /-- The same with a read under the slot's policy. -/
  | getRacingLocked (v other : α)
  | set (v : α)
  | setRelaxed (v : α)
  | reset
  | peek
deriving Repr, DecidableEq

/-- Does one thing to a slot; the answer is the value read, if any. -/
def Action.run (policy : InitPolicy) : Action α → StateM (Cell α) (Option α)
  | .get v => some <$> inCell.read policy (yielding v)
  | .getRelaxed v => some <$> inCell.getRelaxed (yielding v)
  | .getRacing v other => some <$> inCell.getRelaxed (racing v other)
  | .getRacingLocked v other => some <$> inCell.read policy (racing v other)
  | .set v | .setRelaxed v => do
    modify (inCell.publish v)
    return none
  | .reset => do
    modify inCell.clear
    return none
  | .peek => do return (← MonadState.get).value

/-- Does several things in order: each answer, with the number of computations
after it. -/
def runAll (policy : InitPolicy) :
    List (Action α) → Cell α → List (Option α × Nat) × Cell α
  | [], c => ([], c)
  | a :: rest, c =>
    let (answer, c') := a.run policy c
    let (answers, last) := runAll policy rest c'
    ((answer, c'.computations) :: answers, last)

end Slot
end CliMetadata
