import CliMetadata.Proofs.Rereading.References
import Mathlib.Data.List.Find

/-!
# Searches that are made again

What a module or an assembly has for a reference, it has again: the types of a module are listed as
they were, and so are the types nested in them, and the first of a namespace and name is the one
that it was (`ModuleId.find_rereads`).  The same goes for the types that a module exports and for
the assembly that defines one of them.  The second search may be for another reference that stands
for the same.
-/

namespace CliMetadata

open CliMetadata.Graph Loading Stateful
open List (Forall₂)

/-! ## Types of modules -/

/-- A type that is known, where there is one. -/
def Fact.found (o : Option TypeDefId) : Fact := .maybe o fun t => .known t.key

variable {P : Fact} {r r' : TypeRefId}

/-- What an edge lists for a type is the same again. -/
theorem TypeDefId.children_rereads {k : Kind} (e : Edge) (t : TypeDefId) :
    Rereads P (children e t : GraphM (List (Id k))) (children e t) fun cs =>
      .all cs fun c => .known c.key :=
  (items_rereads e t.node).put_into _ fun _ _ _ h _ hc => by
    obtain ⟨c, hmem, rfl⟩ := List.mem_map.mp hc
    exact h c hmem

namespace ModuleId

theorem types_rereads (m : ModuleId) :
    Rereads P m.types m.types fun ts => .all ts fun t => .known t.key :=
  (items_rereads .moduleTypes m.node).put_into _ fun _ _ _ h _ ht => by
    obtain ⟨c, hmem, rfl⟩ := List.mem_map.mp ht
    exact h c hmem

theorem globalType_rereads (m : ModuleId) : Rereads P m.globalType m.globalType .found :=
  m.types_rereads.put_into _ fun _ _ _ h t ht =>
    h t (List.mem_of_getElem? (Option.mem_toList.mp ht))

/-- The type of a list that a reference names is the same. -/
theorem firstAt_perused {g u : Graph} (h : g.Perused u) {ts : List TypeDefId}
    (hts : ∀ t ∈ ts, g.Known t.key) (hr : (Fact.same r r').holds g u) :
    firstAt u r' ts = firstAt g r ts := by
  unfold firstAt
  refine List.find?_congr fun t ht => ?_
  rw [h.same_level hr, h.typeDef_level (hts t ht)]

/-- What a reference names in a list of types decides how to go on. -/
theorem firstAt_rereads {ts : List TypeDefId} (hr : P ≤ .same r r')
    (hts : P ≤ .all ts fun t => .known t.key) {f f' : TypeDefId → GraphM (Option TypeDefId)}
    (hf : ∀ t, Rereads (P.and (.known t.key)) (f t) (f' t) .found) :
    Rereads P (get >>= fun g => (firstAt g r ts).elim (pure none) f)
      (get >>= fun g => (firstAt g r' ts).elim (pure none) f') .found := by
  refine Rereads.look (R := .found) (firstAt · r ts) (firstAt · r' ts)
    (fun o => o.elim (pure none) f) (fun o => o.elim (pure none) f') (fun hP _ hper => ?_) fun o => ?_
  · refine ⟨firstAt_perused hper (hts _ _ hP) (hr _ _ hP), fun t ht => ?_⟩
    exact hts _ _ hP t (List.mem_of_find?_eq_some (Option.mem_toList.mp ht))
  · cases o with
    | none => exact Rereads.pure Fact.maybe_none
    | some t => exact (hf t).under fun _ _ h => ⟨h.1, h.2 t (Option.mem_toList.mpr rfl)⟩

theorem descend_cons (t : TypeDefId) (r : TypeRefId) (rs : List TypeRefId) :
    descend t (r :: rs) = t.nestedTypes >>= fun nested => get >>= fun g =>
      (firstAt g r nested).elim (pure none) (descend · rs) := by
  refine bind_congr fun nested => bind_congr fun g => ?_
  cases firstAt g r nested <;> rfl

/-- **Going down leads to the same type again.** -/
theorem descend_rereads : ∀ (rs rs' : List TypeRefId) {t : TypeDefId} {P : Fact},
    P ≤ .known t.key → P ≤ .forall₂ .same rs rs' →
    Rereads P (descend t rs) (descend t rs') .found
  | [], [], _, _, ht, _ => Rereads.pure (Fact.maybe_some.mpr ht)
  | [], _ :: _, _, _, _, hrs => Again.absurd (Keeps.pure _) fun g u hP =>
    List.cons_ne_nil _ _ (List.forall₂_nil_left_iff.mp (hrs g u hP))
  | r :: rs, [], t, _, _, hrs => Again.absurd (searches_peruses.descend (r :: rs) t) fun g u hP =>
    List.cons_ne_nil _ _ (List.forall₂_nil_right_iff.mp (hrs g u hP))
  | r :: rs, r' :: rs', t, P, ht, hrs => by
    have hr : P ≤ .same r r' := fun g u hP => (List.forall₂_cons.mp (hrs g u hP)).1
    have hrest : P ≤ .forall₂ .same rs rs' := fun g u hP => (List.forall₂_cons.mp (hrs g u hP)).2
    rw [descend_cons, descend_cons]
    refine (TypeDefId.children_rereads .nestedTypes t).bind fun nested => ?_
    exact firstAt_rereads (Fact.before hr) Fact.and_right fun t' =>
      descend_rereads rs rs' Fact.and_right (Fact.before (Fact.before hrest))

/-- The search for what some levels name, outermost first. -/
def findFrom (m : ModuleId) : List TypeRefId → GraphM (Option TypeDefId)
  | [] => return none
  | outermost :: nested => m.types >>= fun ts => get >>= fun g =>
    (firstAt g outermost ts).elim (pure none) (descend · nested)

theorem find_eq (m : ModuleId) (r : TypeRefId) :
    m.find r = r.nestingChain >>= fun c => c.elim (pure none) m.findFrom := by
  refine bind_congr fun c => ?_
  rcases c with _ | _ | ⟨outermost, nested⟩
  · rfl
  · rfl
  · refine bind_congr fun ts => bind_congr fun g => ?_
    cases firstAt g outermost ts <;> rfl

/-- **A type that a module has for a reference is found again.** -/
theorem find_rereads (hr : P ≤ .same r r') (m : ModuleId) :
    Rereads P (m.find r) (m.find r') .found := by
  rw [find_eq, find_eq]
  refine (TypeRefId.nestingChain_again hr).bind_both (Rereads.pure Fact.maybe_none) fun rs rs' => ?_
  refine Again.forall₂_elim m.findFrom m.findFrom (Rereads.pure Fact.maybe_none)
    (fun outermost nested outermost' nested' => ?_) rs rs'
  refine m.types_rereads.bind fun ts => ?_
  exact firstAt_rereads (Fact.before (Fact.before Fact.and_right)) Fact.and_right fun t =>
    descend_rereads nested nested' Fact.and_right (Fact.before (Fact.before Fact.and_right))

end ModuleId

namespace AssemblyId

theorem modules_rereads (a : AssemblyId) : Rereads P a.modules a.modules fun _ => .of True :=
  (items_rereads .assemblyModules a.node).put_into _ fun _ _ _ _ => trivial

/-- The first answer of several modules is given again. -/
theorem firstOf_rereads {α : Type} {f f' : ModuleId → GraphM (Option α)} {G : α → Fact}
    (h : ∀ m, Rereads P (f m) (f' m) fun o => .maybe o G) : ∀ ms : List ModuleId,
    Rereads P (firstOf f ms) (firstOf f' ms) fun o => .maybe o G
  | [] => Rereads.pure Fact.maybe_none
  | m :: ms => (h m).bind_some (firstOf_rereads h ms) fun _ =>
    Rereads.pure (Fact.maybe_some.mpr Fact.and_right)

/-- **So is the type that an assembly has.** -/
theorem find_rereads (hr : P ≤ .same r r') (a : AssemblyId) :
    Rereads P (a.find r) (a.find r') .found :=
  a.modules_rereads.bind fun ms => firstOf_rereads (fun m => m.find_rereads (Fact.before hr)) ms

/-- So is the module of a name. -/
theorem findModule_rereads (a : AssemblyId) (name : String) :
    Rereads P (a.findModule name) (a.findModule name) fun _ => .of True := by
  refine a.modules_rereads.bind fun ms => Rereads.reads fun {g u} _ _ (hper : g.Perused u) => ?_
  exact ⟨List.find?_congr fun m _ => by rw [hper.module_name], trivial⟩

end AssemblyId

/-! ## What modules export -/

namespace ExportedTypeId

variable {e : ExportedTypeId}

theorem implementation_rereads (he : P ≤ .of e.key.IsRow) :
    Rereads P e.implementation e.implementation fun i => .of (SlotValue.implementation i).OfRows :=
  rereads_slot .implementation (Fact.rooted_row he) (fun r v => by simp [Recorded.pack, Entity.values])
    (fun _ _ => rfl) e.implementation_peruses

/-- The type that encloses an exported one, as a row. -/
theorem declaringType_rereads (he : P ≤ .of e.key.IsRow) :
    Rereads P e.declaringType e.declaringType fun o => .maybe o fun e => .of e.key.IsRow := by
  refine (implementation_rereads he).bind fun i => ?_
  split
  · next enclosing =>
    exact Rereads.pure (Fact.maybe_some.mpr fun _ _ h => h.2 _ List.mem_cons_self)
  · exact Rereads.pure Fact.maybe_none

theorem path?_rereads (he : P ≤ .of e.key.IsRow) : Rereads P e.path? e.path? fun _ => .of True := by
  refine (declaringType_rereads he).bind fun above => ?_
  refine (Rereads.ancestors declaringType_rereads _ above Fact.and_right).bind fun walked => ?_
  refine Rereads.reads fun {g u} hP _ (hper : g.Perused u) => ⟨?_, trivial⟩
  have hlevels : (e :: walked.1).map (level u) = (e :: walked.1).map (level g) := by
    refine List.map_congr_left fun x hx => hper.exported_level (Key.IsRow.known ?_)
    rcases List.mem_cons.mp hx with rfl | hx
    · exact he _ _ hP.1.1
    · exact hP.2 x hx
  exact congrArg (fun l => if walked.2 then some l.reverse else none) hlevels

theorem answers_rereads (he : P ≤ .of e.key.IsRow) (hr : P ≤ .same r r') :
    Rereads P (e.answers r) (e.answers r') fun _ => .of True := by
  refine (TypeRefId.path?_rereads hr).bind fun path => ?_
  cases path with
  | none => exact Rereads.pure fun _ _ _ => trivial
  | some _ => exact (path?_rereads (Fact.before he)).put_into _ fun _ _ _ _ => trivial

theorem module_rereads (he : P ≤ .of e.key.IsRow) :
    Rereads P e.module e.module fun _ => .of True := by
  refine Rereads.reads fun {g u} hP hg (hper : g.Perused u) => ⟨?_, trivial⟩
  have hrow : e.key.IsRow := he _ _ hP
  show u.upgrade (u.get e).module = g.upgrade (g.get e).module
  rw [hper.exported_module hrow.known]
  exact hper.upgrade (hg.housed (n := e.node) hrow _ (List.mem_singleton_self _))

end ExportedTypeId

namespace ModuleId

theorem exportedTypes_rereads (m : ModuleId) :
    Rereads P m.exportedTypes m.exportedTypes fun es => .all es fun e => .of e.key.IsRow := by
  refine (rereads_slot .exported (fun _ _ _ => ⟨.inr (.inr rfl), .inr ?_⟩)
    (fun r v => by simp [Recorded.pack, Entity.values]) (fun _ _ => rfl)
    m.exportedTypes_peruses).gives fun _ _ _ h e he => h e.node (List.mem_map_of_mem he)
  show Kind.module ∉ _
  decide

theorem assembly_rereads (m : ModuleId) : Rereads P m.assembly m.assembly fun _ => .of True :=
  (owner_rereads fun _ => ⟨.inr rfl, fun h => absurd rfl h.offered.1⟩).put_into _
    fun _ _ _ _ => trivial

theorem firstAnswer_rereads : ∀ {P : Fact} {es : List ExportedTypeId}, P ≤ .same r r' →
    (P ≤ .all es fun e => .of e.key.IsRow) →
    Rereads P (firstAnswer r es) (firstAnswer r' es) fun o => .maybe o fun e => .of e.key.IsRow
  | _, [], _, _ => Rereads.pure Fact.maybe_none
  | P, e :: es, hr, hes => by
    have he : P ≤ .of e.key.IsRow := fun g u h => hes g u h e List.mem_cons_self
    refine (ExportedTypeId.answers_rereads he hr).bind fun answer => .ite (Rereads.pure ?_) ?_
    · exact Fact.maybe_some.mpr (Fact.before he)
    · exact firstAnswer_rereads (Fact.before hr)
        fun g u h e' he' => hes g u h.1 e' (List.mem_cons_of_mem _ he')

/-- **The exported type that answers a reference answers it again.** -/
theorem findExported_rereads (hr : P ≤ .same r r') (m : ModuleId) :
    Rereads P (m.findExported r) (m.findExported r') fun o => .maybe o fun e => .of e.key.IsRow :=
  m.exportedTypes_rereads.bind fun _ => firstAnswer_rereads (Fact.before hr) Fact.and_right

end ModuleId

/-- What defines an exported type is an assembly, or a row. -/
def Fact.defined : DefinitionAssembly → Fact
  | .assembly _ => .of True
  | .reference a => .of a.key.IsRow

namespace ExportedTypeId

theorem definitionFrom_rereads {e : ExportedTypeId} : ∀ (bound : Nat) {P : Fact} {i : Implementation},
    P ≤ .of e.key.IsRow → P ≤ .of i.node.key.IsRow →
    Rereads P (e.definitionFrom bound i) (e.definitionFrom bound i) fun d => .maybe d .defined
  | 0, _, _, _, _ => Rereads.pure Fact.maybe_none
  | _ + 1, _, .assemblyRef a, _, hi => Rereads.pure (Fact.maybe_some.mpr hi)
  | _ + 1, _, .file _, he, _ => by
    refine (module_rereads he).bind fun m => ?_
    cases m with
    | none => exact Rereads.pure Fact.maybe_none
    | some m =>
      refine m.assembly_rereads.put_into _ fun a _ _ _ d hd => ?_
      obtain ⟨a, -, rfl⟩ := Option.map_eq_some_iff.mp (Option.mem_toList.mp hd)
      trivial
  | n + 1, _, .exportedType enclosing, he, hi => by
    refine (implementation_rereads hi).bind fun i => ?_
    cases i with
    | none => exact Rereads.pure Fact.maybe_none
    | some i => exact definitionFrom_rereads n (Fact.before he) fun g u h => h.2 _ List.mem_cons_self

/-- **The assembly that defines an exported type is the same again.** -/
theorem definitionAssembly_rereads {e : ExportedTypeId} (he : P ≤ .of e.key.IsRow) :
    Rereads P e.definitionAssembly e.definitionAssembly fun d => .maybe d .defined := by
  refine (implementation_rereads he).bind fun i => ?_
  cases i with
  | none => exact Rereads.pure Fact.maybe_none
  | some i => exact definitionFrom_rereads _ (Fact.before he) fun g u h => h.2 _ List.mem_cons_self

end ExportedTypeId
end CliMetadata
