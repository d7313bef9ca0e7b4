import CliMetadata.Graph.Basic

/-!
# Walks along enclosing entities

Types are nested in types, and nothing keeps such a chain from being endless, so
every walk along one gives up after `recursionBound` steps.  `ancestors` collects
what encloses a start, nearest first; `chain` collects a start with what encloses
it, for chains that end; `outermost` gives the last of those alone.
-/

namespace CliMetadata

/-- The bound on walks along chains and on the depth of recursions. -/
def recursionBound : Nat := 100

namespace Chain

variable {α : Type} (up : α → GraphM (Option α))

/-- The entities from a start on, at most `bound` of them, and whether there was
none after them. -/
def ancestors : (bound : Nat) → Option α → GraphM (List α × Bool)
  | 0, _ => return ([], false)
  | _ + 1, none => return ([], true)
  | n + 1, some x => do
    let (rest, ended) ← ancestors n (← up x)
    return (x :: rest, ended)

/-- A start and what encloses it, nearest first; none where that is more than
`bound` entities. -/
def chain : (bound : Nat) → α → GraphM (Option (List α))
  | 0, _ => return none
  | n + 1, x => do
    match ← up x with
    | none => return some [x]
    | some y => return (← chain n y).map (x :: ·)

/-- The outermost of a start and what encloses it; none where that is more than
`bound` entities. -/
def outermost : (bound : Nat) → α → GraphM (Option α)
  | 0, _ => return none
  | n + 1, x => do
    match ← up x with
    | none => return some x
    | some y => outermost n y

end Chain
end CliMetadata
