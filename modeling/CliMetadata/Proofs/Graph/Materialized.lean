import CliMetadata.Proofs.Graph.Opened
import CliMetadata.Proofs.Graph.ReadCalls
import CliMetadata.Proofs.Ownership.Changes
import Mathlib.Data.List.InsertIdx

/-!
# Graphs of what has been opened

A graph is **materialized** if it comes from nothing by opening modules and assemblies, adding modules
to assemblies and reading, whatever the stores hold (`Graph.Materialized`).  As soon as anything
exists in it, reading can rely on it (`Graph.Materialized.grounded`).
-/

namespace CliMetadata

open CliMetadata.Graph Loading Stateful

namespace Graph

variable {g : Graph} {e : Edge} {o : Node} {c : Key}

/-! ## Adding to a list -/

/-- Whether a child is refused is found out by reading. -/
theorem refusal_peruses (e : Edge) (o : Node) (c : Key) :
    Keeps Peruses (Ownership.refusal? e o c) := by
  intro g
  rw [(refusal_free (g := g) e o c).1]
  exact .of_asked (keepsAsked_free e o c g)

theorem Grounded.insert (hg : g.Grounded) (ho : g.alive o) (hknown : g.Known o.key)
    (hc : g.Known c) (i : Nat) : ((Ownership.insert e o i c).run g).2.Grounded := by
  let before := (Ownership.items e o).run g
  let refusal := (Ownership.refusal? e o c).run before.2
  obtain ⟨hbefore, hitems⟩ := items_peruses e o g hg
  obtain ⟨hafter, hrefusal⟩ := refusal_peruses e o c before.2 hbefore
  have hper : g.Perused refusal.2 := hitems.trans hrefusal
  have hlisted : ∀ c' ∈ before.1, refusal.2.Known c' :=
    fun c' hc' => (hbefore.listed (items_read g e o) hc').mono hrefusal.built
  rw [insert_run ho]
  dsimp only
  split
  · exact hafter
  · refine (hafter.setOwner (hper.alive ho) (hknown.mono hper.built) e c).setList fun c' hc' => ?_
    rcases List.eq_or_mem_of_mem_insertIdx hc' with rfl | hc'
    · exact hc.mono hper.built
    · exact hlisted c' hc'

/-- Nothing is added to a list of what does not exist. -/
theorem add_dead (ho : g.alive o = false) : ((Ownership.add e o c).run g).2 = g := by
  unfold Ownership.add
  rw [run_get_bind, ho]
  rfl

theorem Grounded.add (hg : g.Grounded) (hknown : g.Known o.key) (hc : g.Known c) :
    ((Ownership.add e o c).run g).2.Grounded := by
  cases ho : g.alive o with
  | false =>
    rw [add_dead ho]
    exact hg
  | true =>
    obtain ⟨hbefore, hitems⟩ := items_peruses e o g hg
    rw [add_run ho]
    exact hbefore.insert (hitems.alive ho) (hknown.mono hitems.built) (hc.mono hitems.built) _

/-! ## Opening -/

theorem dead_empty (n : Node) : Graph.empty.alive n = false := by
  obtain ⟨kind, key⟩ := n
  cases key <;> rfl

section Opening

variable {s : Store} {policy : InitPolicy}

theorem Openable.openModule (hg : g.Openable) (s : Store) (policy : InitPolicy) :
    ((openModule s policy).run g).2 = g ∨ ((openModule s policy).run g).2.Grounded := by
  cases hrow : s.moduleRow? with
  | none =>
    left
    unfold CliMetadata.openModule
    rw [hrow]
    rfl
  | some row =>
    right
    rw [openModule_run hrow]
    exact hg.opening

/-- The assembly that is made of a row when its store is opened. -/
def openedAssembly (s : Store) (loader : Nat) (row : AssemblyRow) : Assembly :=
  ⟨row.rid, .row loader row.rid, row.identity s, row.hashAlgorithm, row.flags⟩

/-- **Opening an assembly** opens its module, makes the assembly, and adds the module to it. -/
theorem openAssembly_run {row : ModuleRow} {assembly : AssemblyRow} (hrow : s.moduleRow? = some row)
    (hassembly : s.assemblyRow? = some assembly) :
    let opened := g.opening s policy row
    let a : AssemblyId := ⟨.built opened.built⟩
    ((openAssembly s policy).run g).2 = ((Ownership.add .assemblyModules a.node (.built g.built)).run
      ((opened.grow .assembly (openedAssembly s g.built assembly)).setList .assemblyModules a.node
        [])).2 := by
  have hmodule : (makeStoredModule s policy row).run g = (⟨.built g.built⟩, g.opening s policy row) :=
    rfl
  have hmade : (makeStoredAssembly s g.built assembly).run (g.opening s policy row) =
      (⟨.built (g.built + 1)⟩, ((g.opening s policy row).grow .assembly
        (openedAssembly s g.built assembly)).setList .assemblyModules
          ⟨.assembly, .built (g.built + 1)⟩ []) := rfl
  intro opened a
  unfold openAssembly
  rw [hrow, hassembly]
  dsimp only
  rw [run_get_bind, run_bind, hmodule, run_bind, hmade, run_bind]
  dsimp only
  split <;> rfl

theorem Openable.openAssembly (hg : g.Openable) (s : Store) (policy : InitPolicy) :
    ((openAssembly s policy).run g).2 = g ∨ ((openAssembly s policy).run g).2.Grounded := by
  cases hrow : s.moduleRow? with
  | none =>
    left
    unfold CliMetadata.openAssembly
    rw [hrow]
    rfl
  | some row =>
    cases hassembly : s.assemblyRow? with
    | none =>
      left
      unfold CliMetadata.openAssembly
      rw [hrow, hassembly]
      rfl
    | some assembly =>
      right
      rw [openAssembly_run hrow hassembly]
      have hopened : (g.opening s policy row).Grounded := hg.opening
      refine Grounded.add (Grounded.setList ?_ (fun _ hc => absurd hc List.not_mem_nil)) ?_ ?_
      · exact hopened.grow (by decide) fun _ v hv => absurd hv List.not_mem_nil
      · exact Nat.lt_succ_self _
      · exact Nat.lt_succ_of_lt (Nat.lt_succ_self _)

/-- **A graph of what has been opened**, with modules added to assemblies, after any reading. -/
inductive Materialized : Graph → Prop
  | empty : Materialized .empty
  | openModule {g : Graph} (h : g.Materialized) (s : Store) (policy : InitPolicy) :
    Materialized ((CliMetadata.openModule s policy).run g).2
  | openAssembly {g : Graph} (h : g.Materialized) (s : Store) (policy : InitPolicy) :
    Materialized ((CliMetadata.openAssembly s policy).run g).2
  | addModule {g : Graph} (h : g.Materialized) {a : AssemblyId} {m : ModuleId} (ha : g.Known a.key)
      (hm : g.Known m.key) :
    Materialized ((Ownership.add .assemblyModules a.node m.key).run g).2
  | read {g : Graph} (h : g.Materialized) {n : Node} (hn : g.alive n) (call : ReadCall) :
    Materialized (call.run.run g).2

theorem Materialized.empty_or_grounded (h : g.Materialized) : g = .empty ∨ g.Grounded := by
  have openable : ∀ {g : Graph}, g = .empty ∨ g.Grounded → g.Openable := by
    rintro g (rfl | hg)
    · exact openable_empty
    · exact hg.openable
  induction h with
  | empty => exact .inl rfl
  | openModule _ s policy ih =>
    rcases (openable ih).openModule s policy with hsame | hg
    · rwa [hsame]
    · exact .inr hg
  | openAssembly _ s policy ih =>
    rcases (openable ih).openAssembly s policy with hsame | hg
    · rwa [hsame]
    · exact .inr hg
  | addModule _ ha hm ih =>
    rcases ih with rfl | hg
    · exact .inl (add_dead (dead_empty _))
    · exact .inr (hg.add ha hm)
  | read _ hn call ih =>
    rcases ih with rfl | hg
    · rw [dead_empty] at hn
      cases hn
    · exact .inr (call.run_peruses _ hg).1

/-- **Reading can rely on a graph of what has been opened**, as soon as anything exists in it. -/
theorem Materialized.grounded (h : g.Materialized) {n : Node} (hn : g.alive n) : g.Grounded := by
  rcases h.empty_or_grounded with rfl | hg
  · rw [dead_empty] at hn
    cases hn
  · exact hg

end Opening
end Graph
end CliMetadata
