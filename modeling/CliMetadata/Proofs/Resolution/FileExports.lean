import CliMetadata.Proofs.Resolution.Forwarders
import CliMetadata.Proofs.Resolution.Members

/-!
# Types that are exported from a file

A module may export a type that another module of its assembly defines; the exported type is
then kept in a file, and the assembly that defines it is the one of the module itself
(`ExportedTypeId.definitionAssembly_file`).

A resolver treats this like a forwarder to another assembly.  It has the assembly at hand,
but takes its identity and asks the source of assemblies for it, and goes on with the answer.
So **what the assembly has is found exactly if the answer leads to it**
(`Resolver.resolveType_fromFile_iff`).  A source that does not know the assembly makes the
reference name nothing, and one that knows another version makes it name what that one has.
-/

namespace CliMetadata

open CliMetadata.Graph Loading Stateful

/-- **What is kept in a file is defined in the assembly of its module.** -/
theorem ExportedTypeId.definitionAssembly_file {e : ExportedTypeId} {f : FileId} {m : ModuleId}
    {a : AssemblyId} {g g₁ g₂ : Graph}
    (himplementation : e.implementation.run g = (some (.file f), g₁))
    (hmodule : e.module.run g₁ = (some m, g₁)) (hassembly : m.assembly.run g₁ = (some a, g₂)) :
    e.definitionAssembly.run g = (some (.assembly a), g₂) := by
  rw [definitionAssembly, run_bind, himplementation]
  show (e.definitionFrom (99 + 1) (.file f)).run g₁ = _
  rw [definitionFrom, run_bind, hmodule]
  dsimp only
  rw [run_bind, hassembly]
  rfl

namespace Resolver

/-- A reference into a module that does not define the type, while the first exported type of
the module that matches is defined in an assembly; with what has been read on the way. -/
structure ExportedWithin (g : Graph) (ref : TypeRefId) (a : AssemblyId) where
  outermost : TypeRefId
  module : ModuleId
  exported : ExportedTypeId
  (g₁ g₂ g₃ g₄ after : Graph)
  nonNested : ref.nonNested.run g = (some outermost, g₁)
  scope : outermost.scope.run g₁ = (some (.module module), g₂)
  alive : g₂.upgrade module = some module
  undefined : (module.find ref).run g₂ = (none, g₃)
  exports : (module.findExported ref).run g₃ = (some exported, g₄)
  definition : exported.definitionAssembly.run g₄ = (some (.assembly a), after)

section Exporting

variable {r : Resolver} {s : Resolving} {ref : TypeRefId} {a b : AssemblyId} {d : TypeDefId}
  {source : Option ModuleId} {hops : Nat}

/-- The request for the assembly that a type is exported from. -/
def ExportedWithin.request (x : ExportedWithin s.graph ref a) (source : Option ModuleId) :
    AssemblyRequest := ⟨(x.after.get a).identity, asker ref source s⟩

/-- What resolving has come to when the source has been asked. -/
def ExportedWithin.asked (x : ExportedWithin s.graph ref a) (source : Option ModuleId) :
    Resolving := ⟨x.after, s.requests ++ [x.request source]⟩

/-- What the source answers. -/
def ExportedWithin.answer (x : ExportedWithin s.graph ref a) (r : Resolver)
    (source : Option ModuleId) : Option AssemblyId :=
  r.source x.after s.requests (x.request source)

theorem ExportedWithin.forwardedTo_run (x : ExportedWithin s.graph ref a) (r : Resolver)
    (source : Option ModuleId) :
    (r.forwardedTo ref (asker ref source s) [x.module]).run ⟨x.g₃, s.requests⟩ =
      (x.answer r source, x.asked source) := by
  have hforwarder : (findForwarder [x.module] ref).run x.g₃ = (some x.exported, x.g₄) := by
    rw [findForwarder, AssemblyId.firstOf, run_bind, x.exports]
    rfl
  rw [forwardedTo, run_bind, inGraph_run hforwarder]
  dsimp only
  rw [run_bind, inGraph_run x.definition]
  rfl

/-- **The search goes on with what the source answers**, whichever assembly that is. -/
theorem ExportedWithin.resolveType_run (x : ExportedWithin s.graph ref a)
    (hr : r.projection = none) (hhops : r.config.maxHops = hops + 1) :
    (r.resolveType ref source).run s =
      match x.answer r source with
      | none => (none, x.asked source)
      | some b => (r.findWithin ref (asker ref source s) hops b).run (x.asked source) := by
  rw [resolveType_lookIn hr x.nonNested x.scope, lookIn, run_get_bind, x.alive, ← asker]
  show (r.findInModule ref (asker ref source s) x.module).run ⟨x.g₂, s.requests⟩ = _
  rw [findInModule, run_bind, inGraph_run x.undefined]
  dsimp only
  rw [hhops, followForwarders_succ, run_bind, x.forwardedTo_run r source]
  cases x.answer r source <;> rfl

/-- **What the assembly has is found exactly if the source's answer leads to it.**  Let the
assembly that a type is exported from have what the reference names.  If the source answers
with the assembly itself, that is found; if it answers with another one that has a type of
the name, the other type is found; if it does not know the assembly, nothing is.  So whatever
the graph is, there is a source with which the reference names nothing. -/
theorem resolveType_fromFile_iff (source : Option ModuleId) (hr : r.projection = none)
    (hhops : r.config.maxHops = hops + 1) (x : ExportedWithin s.graph ref a) (hd : ((a.find ref).run x.after).1 = some d) :
    (((r.resolveType ref source).run s).1 = some d ↔ ∃ b, x.answer r source = some b ∧
      ((r.findWithin ref (asker ref source s) hops b).run (x.asked source)).1 = some d) ∧
    (x.answer r source = some a → ((r.resolveType ref source).run s).1 = some d) ∧
    (∀ b d', x.answer r source = some b → ((b.find ref).run x.after).1 = some d' →
      ((r.resolveType ref source).run s).1 = some d') ∧
    (x.answer r source = none → ((r.resolveType ref source).run s).1 = none) ∧
    ∃ stranger : AssemblySource,
      (({ r with source := stranger }.resolveType ref source).run s).1 = none := by
  have hother : ∀ b d', x.answer r source = some b → ((b.find ref).run x.after).1 = some d' →
      ((r.resolveType ref source).run s).1 = some d' := by
    intro b d' hanswer hd'
    rw [x.resolveType_run hr hhops, hanswer]
    exact findWithin_found r ref (asker ref source s) (s := x.asked source) hd' hops
  have hunknown : ∀ {r' : Resolver}, r'.projection = none → r'.config.maxHops = hops + 1 →
      x.answer r' source = none → ((r'.resolveType ref source).run s).1 = none := by
    intro r' hr' hhops' hanswer
    rw [x.resolveType_run hr' hhops', hanswer]
  refine ⟨⟨fun hfound => ?_, ?_⟩, fun hanswer => hother a d hanswer hd, hother, hunknown hr hhops,
    fun _ _ _ => none, hunknown hr hhops rfl⟩
  · rw [x.resolveType_run hr hhops] at hfound
    cases hanswer : x.answer r source with
    | none =>
      rw [hanswer] at hfound
      cases hfound
    | some b =>
      rw [hanswer] at hfound
      exact ⟨b, rfl, hfound⟩
  · rintro ⟨b, hanswer, hfound⟩
    rw [x.resolveType_run hr hhops, hanswer]
    exact hfound

end Exporting

/-! ## A type in a second module -/

/-- A graph of an assembly of two modules.  The second has a type, and the first exports it
from a file and refers to it.  A later version of the assembly has a type of the name too. -/
def keptInFile : Graph :=
  ((do
    let m : ModuleId ← make .module ⟨0, .inMemory, .empty, Guid.zero, none, some [], some []⟩
    let a ← makeAssembly ⟨"Lib", ⟨1, 0, 0, 0⟩, none, none⟩
    let _ ← Ownership.add .assemblyModules a.node m.key
    let second : ModuleId ← make .module ⟨0, .inMemory, .empty, Guid.zero, none, some [], some []⟩
    let _ ← Ownership.add .assemblyModules a.node second.key
    let t ← makeTypeDef .empty .empty 0
    let _ ← Ownership.add .moduleTypes second.node t.key
    let file ← makeFile .empty 0
    let exported ← makeExportedType m .empty .empty 0 (some (.file file))
    modify (m.exportedTypesSlot.publish [exported])
    let _ ← makeTypeRef m .empty .empty (some (.module m))
    let later ← makeAssembly ⟨"Lib", ⟨1, 1, 0, 0⟩, none, none⟩
    let m' : ModuleId ← make .module ⟨0, .inMemory, .empty, Guid.zero, none, some [], some []⟩
    let _ ← Ownership.add .assemblyModules later.node m'.key
    let t' ← makeTypeDef .empty .empty 0
    let _ ← Ownership.add .moduleTypes m'.node t'.key
    return ()
    : GraphM Unit).run Graph.empty).2

/-- A resolver over a cache of some assemblies. -/
def overCache (assemblies : List AssemblyId) : Resolver where
  source := (assemblies.foldl (·.register keptInFile ·) AssemblyCache.empty).source
  projection := none
  config := ⟨false, 30⟩

/-- The reference into the first module. -/
def exportedWithin : ExportedWithin keptInFile ⟨.built 6⟩ ⟨.built 1⟩ where
  outermost := ⟨.built 6⟩
  module := ⟨.built 0⟩
  exported := ⟨.built 5⟩
  g₁ := keptInFile
  g₂ := keptInFile
  g₃ := keptInFile
  g₄ := keptInFile
  after := keptInFile
  nonNested := Prod.ext (by decide +kernel) rfl
  scope := Prod.ext (by decide +kernel) rfl
  alive := by decide +kernel
  undefined := Prod.ext (by decide +kernel) rfl
  exports := Prod.ext (by decide +kernel) rfl
  definition := ExportedTypeId.definitionAssembly_file (f := ⟨.built 4⟩)
    (Prod.ext (by decide +kernel) rfl) (Prod.ext (by decide +kernel) rfl)
    (Prod.ext (by decide +kernel) rfl)

/-- With the assembly in the cache, its type is found. -/
theorem resolveType_keptInFile :
    (((overCache [⟨.built 1⟩]).resolveType ⟨.built 6⟩ none).run ⟨keptInFile, []⟩).1 =
      some ⟨.built 3⟩ := by
  have hanswer : exportedWithin.answer (s := ⟨keptInFile, []⟩) (overCache [⟨.built 1⟩]) none =
      some ⟨.built 1⟩ := by decide +kernel
  exact (resolveType_fromFile_iff (s := ⟨keptInFile, []⟩) none rfl rfl exportedWithin
    (by decide +kernel)).2.1 hanswer

/-- With no assembly in the cache nothing is found although the assembly has the type, and
with the later version its type is found instead, whether the assembly is there or not. -/
theorem unresolved_keptInFile :
    let a : AssemblyId := ⟨.built 1⟩
    let first : ModuleId := ⟨.built 0⟩
    let second : ModuleId := ⟨.built 2⟩
    let ref : TypeRefId := ⟨.built 6⟩
    let exported : ExportedTypeId := ⟨.built 5⟩
    (ref.scope.run keptInFile).1 = some (.module first) ∧
    (a.modules.run keptInFile).1 = [first, second] ∧
    ((first.find ref).run keptInFile).1 = none ∧
    ((first.findExported ref).run keptInFile).1 = some exported ∧
    (exported.implementation.run keptInFile).1 = some (.file ⟨.built 4⟩) ∧
    (exported.definitionAssembly.run keptInFile).1 = some (.assembly a) ∧
    ((a.find ref).run keptInFile).1 = some ⟨.built 3⟩ ∧
    (((overCache []).resolveType ref none).run ⟨keptInFile, []⟩).1 = none ∧
    (((overCache [⟨.built 7⟩]).resolveType ref none).run ⟨keptInFile, []⟩).1 =
      some ⟨.built 9⟩ ∧
    (((overCache [a, ⟨.built 7⟩]).resolveType ref none).run ⟨keptInFile, []⟩).1 =
      some ⟨.built 9⟩ := by
  decide +kernel

end Resolver
end CliMetadata
