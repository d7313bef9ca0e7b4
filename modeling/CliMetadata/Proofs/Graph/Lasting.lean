import CliMetadata.Proofs.Graph.Perusing
import CliMetadata.Proofs.Graph.Stores

/-!
# What has been read is read again alike

A slot that has been filled is never filled again, so reading it once more gives the same
and changes nothing.  `Answered R s x a` says this of a whole computation: in `s`, and in
every state that the relation `R` leads to from it, `x` gives `a` and leaves the state as
it is.  `Repeats R x` says that **whatever `x` is run on, it is answered from then on**.
Both follow the way in which a computation is built.

`Graph.Lasting` is the relation for references, exported types and modules: more of their
slots may be filled, and nothing else is different of them.  It asks nothing of the graph,
since reading gives numbers to no entities of these kinds.  With it everything that is read
to find an exported type repeats (`ModuleId.findExported_repeats`).
-/

namespace CliMetadata

open CliMetadata.Graph Loading Stateful

/-! ## Answers -/

/-- In a state, and in all that are in the relation with it, a computation gives one value
and changes nothing. -/
def Answered {σ α : Type} (R : σ → σ → Prop) (s : σ) (x : StateM σ α) (a : α) : Prop :=
  ∀ s', R s s' → x.run s' = (a, s')

/-- A computation that is answered once it has been run. -/
structure Repeats {σ α : Type} (R : σ → σ → Prop) (x : StateM σ α) : Prop where
  keeps : Keeps R x
  answered : ∀ s, Answered R (x.run s).2 x (x.run s).1

section Answers

variable {σ α β : Type} {R : σ → σ → Prop} {s s' : σ} {x : StateM σ α} {a : α}

namespace Answered

theorem pure (a : α) : Answered R s (Pure.pure a) a := fun _ _ => rfl

theorem bind {f : α → StateM σ β} {b : β} (hx : Answered R s x a)
    (hf : Answered R s (f a) b) : Answered R s (x >>= f) b := by
  intro s' h
  rw [run_bind, hx s' h]
  exact hf s' h

variable [IsPreorder σ R]

theorem later (hx : Answered R s x a) (h : R s s') : Answered R s' x a :=
  fun _ h' => hx _ (trans_of R h h')

theorem run (hx : Answered R s x a) : x.run s = (a, s) := hx s (refl_of R s)

end Answered

namespace Repeats

variable [IsPreorder σ R]

theorem pure (a : α) : Repeats R (Pure.pure a : StateM σ α) := ⟨.pure a, fun _ => .pure a⟩

theorem bind {f : α → StateM σ β} (hx : Repeats R x) (hf : ∀ a, Repeats R (f a)) :
    Repeats R (x >>= f) where
  keeps := hx.keeps.bind fun a => (hf a).keeps
  answered s := ((hx.answered s).later ((hf _).keeps _)).bind ((hf _).answered _)

/-- What is looked up where the states that are in the relation do not differ. -/
theorem look {f : σ → α} (hf : ∀ {s s'}, R s s' → f s' = f s) :
    Repeats R (do return f (← get)) where
  keeps := Keeps.get.bind fun _ => Keeps.pure _
  answered _ _ h := Prod.ext (hf h) rfl

end Repeats
end Answers

/-- Computations over a graph that repeat follow one another. -/
theorem Repeats.sequential {R : Graph → Graph → Prop} [IsPreorder Graph R] :
    Sequential fun _ x => Repeats R x := ⟨.pure, .bind⟩

/-- **A slot that is read on demand repeats**, where what it holds stays. -/
theorem Repeats.readSlot {R : Graph → Graph → Prop} [IsPreorder Graph R] {k : Kind} {ρ α : Type}
    [Recorded k ρ] {id : Id k} {slot : SlotIn Graph α} {absent : α} {compute : Nat → Nat → GraphM α}
    (hc : ∀ loader rid, Keeps R (compute loader rid))
    (hp : ∀ g v, slot.peek g = none → R g (slot.publish v g))
    (hslot : ∀ v g, slot.peek (slot.publish v g) = some v)
    (hheld : ∀ {g g' v}, R g g' → slot.peek g = some v → slot.peek g' = some v) :
    Repeats R (CliMetadata.readSlot id slot absent compute) where
  keeps := keeps_readSlot hc hp
  answered _ _ h := getRelaxed_held (hheld h (getRelaxed_read hslot))

/-! ## References, exported types and modules -/

theorem Entity.Le.of_exportedType {e e' : ExportedType}
    (h : (Entity.exportedType e).Le (.exportedType e')) :
    e.implementation.Le e'.implementation ∧ e' = { e with implementation := e'.implementation } := by
  cases h with
  | same => exact ⟨.refl _, rfl⟩
  | exportedType implementation columns => exact ⟨implementation, columns⟩

theorem Entity.Le.of_module {e e' : Module} (h : (Entity.module e).Le (.module e')) :
    e.exportedTypes.Le e'.exportedTypes := by
  cases h with
  | same => exact .refl _
  | module exportedTypes _ _ => exact exportedTypes

namespace Graph

variable {g g' : Graph}

/-- **What references, exported types and modules hold lasts.** -/
structure Lasting (g g' : Graph) : Prop where
  reference : ∀ r : TypeRefId, (Entity.typeRef (g.get r)).Le (.typeRef (g'.get r))
  exported : ∀ e : ExportedTypeId, (Entity.exportedType (g.get e)).Le (.exportedType (g'.get e))
  module : ∀ m : ModuleId, (Entity.module (g.get m)).Le (.module (g'.get m))

instance : IsPreorder Graph Lasting where
  refl _ := ⟨fun _ => .same _, fun _ => .same _, fun _ => .same _⟩
  trans _ _ _ h k := ⟨fun r => (h.reference r).trans (k.reference r),
    fun e => (h.exported e).trans (k.exported e), fun m => (h.module m).trans (k.module m)⟩

namespace Lasting

/-- Every entity that is no attribute has as many of its slots filled. -/
theorem of_entities (h : ∀ n : Node, n.kind ≠ .customAttribute → (g.entity n).Le (g'.entity n)) :
    g.Lasting g' :=
  ⟨fun r => h r.node nofun, fun e => h e.node nofun, fun m => h m.node nofun⟩

/-- Reading from stores makes no difference. -/
theorem of_quiet (h : g.Quiet g') : g.Lasting g' :=
  of_entities fun _ hn => h.entity hn ▸ .same _

/-- A slot that is empty is filled. -/
theorem of_update {k : Kind} {ρ : Type} [Recorded k ρ] [Recorded.Lawful k] {id : Id k} {f : ρ → ρ}
    (hl : ∀ l, (g.update id f).loader? l = g.loader? l)
    (he : (Recorded.pack k (g.get id)).Le (Recorded.pack k (f (g.get id)))) :
    g.Lasting (g.update id f) := by
  refine of_entities fun n _ => ?_
  by_cases hid : id.node = n
  · subst hid
    rw [Recorded.Lawful.entity_node (ρ := ρ), Graph.update, entity_put]
    exact he
  · exact (entity_put_of_ne hl hid) ▸ .same _

/-- The namespace and name of a reference stay. -/
theorem typeRef_level (h : g.Lasting g') (r : TypeRefId) : r.level g' = r.level g := by
  unfold TypeRefId.level
  rw [(Entity.Le.of_typeRef (h.reference r)).2]

/-- So do those of an exported type. -/
theorem exportedType_level (h : g.Lasting g') (e : ExportedTypeId) : e.level g' = e.level g := by
  unfold ExportedTypeId.level
  rw [(Entity.Le.of_exportedType (h.exported e)).2]

end Lasting
end Graph

theorem quiet_implementation (loader : Nat) (index : CodedIndex) :
    Keeps Quiet (Loading.implementation loader index) := by
  unfold Loading.implementation
  split
  · split
    · exact Keeps.map fun g => (fromStores_sharedWithAttributes (by decide) _ _ _).quiet
    · exact Keeps.map fun g => (fromStores_sharedWithAttributes (by decide) _ _ _).quiet
    · exact Keeps.map fun g => (fromStores_shared _ _).quiet
    · exact Keeps.pure _
  · exact Keeps.pure _

/-! ## Reading them -/

section References

variable (r : TypeRefId)

theorem TypeRefId.scope_repeats : Repeats Lasting r.scope := by
  refine .readSlot (fun loader rid g => .of_quiet ?_) (fun g v hempty => ?_)
    (fun v g => congrArg TypeRef.scope (get_put (g := g) r _)) fun h hv => ?_
  · exact (lazyScope.told g loader rid).choose_spec.1.quiet
  · show g.Lasting (g.update r fun x => { x with scope := some v })
    exact .of_update (loader?_put (k := .typeRef) (by decide) _ _)
      (.typeRef (Slot.Le.fill hempty v) rfl)
  · exact (Entity.Le.of_typeRef (h.reference r)).1.held hv

theorem TypeRefId.declaringType_repeats : Repeats Lasting r.declaringType := by
  refine r.scope_repeats.bind fun scope => ?_
  split <;> exact .pure _

theorem TypeRefId.nestingChain_repeats : Repeats Lasting r.nestingChain :=
  (Repeats.sequential.chain declaringType_repeats _ r).bind fun _ => .pure _

theorem TypeRefId.path?_repeats : Repeats Lasting r.path? :=
  r.nestingChain_repeats.bind fun _ => .look fun h => by rw [funext (Lasting.typeRef_level h)]

end References

namespace ExportedTypeId

variable (e : ExportedTypeId)

theorem implementation_repeats : Repeats Lasting e.implementation := by
  refine .readSlot (fun loader rid => ?_) (fun g v hempty => ?_)
    (fun v g => congrArg ExportedType.implementation (get_put (g := g) e _)) fun h hv => ?_
  · refine Keeps.bind (fun g => .of_quiet (Quiet.refl g)) fun row => ?_
    cases row with
    | none => exact Keeps.pure _
    | some row => exact fun g => .of_quiet (quiet_implementation _ _ g)
  · show g.Lasting (g.update e fun x => { x with implementation := some v })
    exact .of_update (loader?_put (k := .exportedType) (by decide) _ _)
      (.exportedType (Slot.Le.fill hempty v) rfl)
  · exact (Entity.Le.of_exportedType (h.exported e)).1.held hv

theorem declaringType_repeats : Repeats Lasting e.declaringType := by
  refine e.implementation_repeats.bind fun i => ?_
  split <;> exact .pure _

theorem path?_repeats : Repeats Lasting e.path? :=
  e.declaringType_repeats.bind fun _ =>
    (Repeats.sequential.ancestors declaringType_repeats _ _).bind fun _ =>
      .look fun h => by rw [funext (Lasting.exportedType_level h)]

theorem answers_repeats (r : TypeRefId) : Repeats Lasting (e.answers r) := by
  refine r.path?_repeats.bind fun expected => ?_
  cases expected with
  | none => exact .pure _
  | some _ => exact e.path?_repeats.bind fun _ => .pure _

end ExportedTypeId

namespace ModuleId

variable (m : ModuleId)

theorem exportedTypes_repeats : Repeats Lasting m.exportedTypes := by
  refine .readSlot (fun loader rid => ?_) (fun g v hempty => ?_)
    (fun v g => congrArg Module.exportedTypes (get_put (g := g) m _)) fun h hv => ?_
  · refine Keeps.bind (fun g => .of_quiet (Quiet.of_eq rfl rfl rfl)) fun rids => ?_
    exact keeps_collect (fun rid g => .of_quiet (fromStores_shared _ _).quiet) rids
  · show g.Lasting (g.update m fun x => { x with exportedTypes := some v })
    exact .of_update (loader?_update fun _ => rfl)
      (.module (Slot.Le.fill hempty v) (.refl _) rfl)
  · exact (Entity.Le.of_module (h.module m)).held hv

theorem firstAnswer_repeats (r : TypeRefId) :
    ∀ es : List ExportedTypeId, Repeats Lasting (firstAnswer r es)
  | [] => .pure _
  | e :: es => (e.answers_repeats r).bind fun answered => by
    cases answered with
    | true => exact .pure _
    | false => exact firstAnswer_repeats r es

/-- **Finding an exported type repeats.** -/
theorem findExported_repeats (r : TypeRefId) : Repeats Lasting (m.findExported r) :=
  m.exportedTypes_repeats.bind (firstAnswer_repeats r)

end ModuleId
end CliMetadata
