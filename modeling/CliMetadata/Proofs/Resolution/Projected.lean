import CliMetadata.Proofs.Graph.References
import CliMetadata.Resolution

/-!
# References that take the place of others

What is resolved is the reference that a projection puts in the place of the one that
is asked for.  A projection may come from outside, and all that is asked of it is that
it leaves a closed graph closed (`ReferenceProjection.Safe`): it may change what there
is, but it puts nothing into a list that there is not.  **The usual projection is
safe**, since all it does is to read the graph and to make a reference to an assembly
and one to a type in it.
-/

namespace CliMetadata

open CliMetadata.Graph Loading Stateful

/-- A projection that leaves a closed graph closed. -/
def ReferenceProjection.Safe (p : ReferenceProjection) : Prop :=
  ∀ (ref : TypeRefId) (g : Graph), g.Closed → ((p.typeRef ref).run g).2.Closed

/-- The graph that a reference is resolved in is closed, under a safe projection. -/
theorem Resolver.projectType_closed {r : Resolver} (hr : ∀ p, r.projection = some p → p.Safe)
    (ref : TypeRefId) {s : Resolving} (closed : s.graph.Closed) :
    ((r.projectType ref).run s).2.graph.Closed := by
  unfold Resolver.projectType
  cases hp : r.projection with
  | none => exact closed
  | some p => exact hr p hp ref s.graph closed

/-! ## The usual projection -/

/-- The graph stays closed. -/
def Graph.StaysClosed (g g' : Graph) : Prop := g.Closed → g'.Closed

instance : IsPreorder Graph StaysClosed where
  refl _ := id
  trans _ _ _ h k := k ∘ h

theorem Keeps.staysClosed {α : Type} {x : GraphM α} (h : Keeps Later x) : Keeps StaysClosed x :=
  fun g closed => closed.later (h g)

theorem makeAssemblyRef_closed (identity : AssemblyIdentity) (flags : Flags) :
    Keeps StaysClosed (makeAssemblyRef identity flags) := by
  intro g closed
  have hlists : ((makeAssemblyRef identity flags).run g).2.lists = g.lists := rfl
  exact closed.of_lists hlists (Nat.le_succ g.built)

theorem makeTypeRef_closed (m : ModuleId) (space name : Name) (scope : Option ResolutionScope) :
    Keeps StaysClosed (makeTypeRef m space name scope) := by
  intro g closed
  have hlists : ((makeTypeRef m space name scope).run g).2.lists = g.lists := rfl
  exact closed.of_lists hlists (Nat.le_succ g.built)

theorem Projection.keeps_mappingOf (ref : TypeRefId) : Keeps Later (mappingOf ref) := by
  refine ref.keeps_scope.bind fun scope => ?_
  split
  · exact Keeps.get.bind fun _ => Keeps.ite (Keeps.pure _) (Keeps.pure _)
  · exact Keeps.pure _

theorem ReferenceProjection.windowsRuntime_safe : windowsRuntime.Safe := by
  intro ref
  show Keeps StaysClosed (Projection.typeRef ref)
  refine (Projection.keeps_mappingOf ref).staysClosed.bind fun mapping => ?_
  cases mapping with
  | none => exact Keeps.pure _
  | some mapping =>
    refine ref.keeps_module.staysClosed.bind fun m => ?_
    cases m with
    | none => exact Keeps.pure _
    | some m =>
      refine (makeAssemblyRef_closed _ _).bind fun a => Keeps.map ?_
      exact makeTypeRef_closed m _ _ _

end CliMetadata
