import CliMetadata.Proofs.Resolution.Members

/-!
# Names that are not text

Names are bytes, and bytes are what paths are compared by.  Two look-ups go through the text
that a name is read as instead: a reference to a member is looked up by the text of its
name, and so is the module that a reference to a module names, where it is not the module
that asks.

Reading a name as text and writing it again gives the name back exactly if it is text
(`Name.ofString_lossy_iff`).  So **both find what has the same name exactly if the name is
text** (`Resolver.found_iff_text`).  Where it is not, a member of the name is passed over,
in the type and in all of its base types, and so is every module of the name, in whatever
letters.
-/

namespace CliMetadata
namespace Resolver

open CliMetadata.Graph Loading Stateful

section Modules

variable {g g₁ g₂ : Graph} {mr : ModuleRefId} {current m : ModuleId} {a : AssemblyId}
  {ms : List ModuleId}

/-- A reference to another module names the first one of the assembly that agrees with the
text of its name up to case. -/
theorem referencedModule_run (hother : namesModule g mr current = false)
    (hassembly : current.assembly.run g = (some a, g₁)) (hmodules : a.modules.run g₁ = (ms, g₂)) :
    (referencedModule mr current).run g =
      (ms.find? fun m => (g₂.get m).name.sameIgnoringCase (.ofString (g.get mr).name.lossy), g₂) := by
  rw [referencedModule, run_get_bind, if_neg (Bool.not_eq_true _ ▸ hother), run_bind, hassembly]
  dsimp only
  rw [AssemblyId.findModule, run_bind, hmodules]
  rfl

/-- **The first module of a name is found exactly if the name is text.** -/
theorem referencedModule_iff_text (hother : namesModule g mr current = false)
    (hassembly : current.assembly.run g = (some a, g₁)) (hmodules : a.modules.run g₁ = (ms, g₂))
    (hfirst : ms.find? (fun m => (g₂.get m).name.sameIgnoringCase (g.get mr).name) = some m) :
    (referencedModule mr current).run g = (some m, g₂) ↔ (g.get mr).name.text?.isSome := by
  rw [referencedModule_run hother hassembly hmodules]
  constructor
  · intro h
    -- the module agrees with the text that was looked up, and with the name itself
    have htext := List.find?_some (congrArg Prod.fst h)
    have hname := List.find?_some hfirst
    exact Name.isSome_text?_of_same
      (Name.sameIgnoringCase_trans (Name.sameIgnoringCase_symm hname) htext)
  · intro htext
    rw [Name.ofString_lossy_iff.mpr htext, hfirst]

end Modules

section Types

variable {r : Resolver} {s : Resolving} {ref outermost : TypeRefId} {mr : ModuleRefId}
  {current m : ModuleId} {d : TypeDefId} {g₁ g₂ g₃ g₄ : Graph}

/-- What a referenced module has is what a reference into it is resolved to. -/
theorem resolveType_referenced (hr : r.projection = none)
    (houtermost : ref.nonNested.run s.graph = (some outermost, g₁))
    (hscope : outermost.scope.run g₁ = (some (.moduleRef mr), g₂))
    (hcurrent : outermost.module.run g₂ = (some current, g₂))
    (hmodule : (referencedModule mr current).run g₂ = (some m, g₃))
    (hfind : (m.find ref).run g₃ = (some d, g₄)) (source : Option ModuleId) :
    (r.resolveType ref source).run s = (some d, ⟨g₄, s.requests⟩) := by
  rw [resolveType_lookIn hr houtermost hscope, lookIn_moduleRef_eq_some]
  refine ⟨current, m, g₃, congrArg Prod.fst hcurrent, hmodule, ?_⟩
  rw [findInModule, run_bind, inGraph_run hfind]
  rfl

end Types

/-- **What has the same name is found exactly if the name is text.**

* Let a reference to a member have a type as its parent, and let the type list a member of
  the same name and an equal signature.  Then the reference is resolved to a listed member of
  its name exactly if that name is text.
* Let a type reference be scoped to a module reference that does not name the module that
  asks, let a module be the first of the assembly whose name is the same up to case, and let
  it have the type.  Then it is the module that is looked in exactly if the name is text, and
  if it is, the type is what the type reference is resolved to. -/
theorem found_iff_text {r : Resolver} (hr : r.projection = none) (s : Resolving) :
    (∀ (member : MemberRefId) (t : TypeDefId) (sig : Signature TypeDefOrRef) (x : MemberDef)
        (xs : List MemberDef) (g₁ g₂ g₃ : Graph), s.graph.Whole →
      member.parent.run s.graph = (some (.typeDef t), g₁) →
      member.sig.run g₁ = (some sig, g₂) →
      (t.membersLike sig).run g₂ = (xs, g₃) →
      x ∈ xs → x.name g₃ = (g₂.get member).name → ((x.answers sig).run g₃).1 = true →
      ((∃ y ∈ xs, ∃ s', (r.resolveMember member).run s = (some y, s') ∧
        y.name s'.graph = (g₂.get member).name) ↔ (g₂.get member).name.text?.isSome)) ∧
    (∀ (ref outermost : TypeRefId) (mr : ModuleRefId) (current m : ModuleId) (a : AssemblyId)
        (ms : List ModuleId) (d : TypeDefId) (g₁ g₂ g₃ g₄ g₅ : Graph),
      ref.nonNested.run s.graph = (some outermost, g₁) →
      outermost.scope.run g₁ = (some (.moduleRef mr), g₂) →
      outermost.module.run g₂ = (some current, g₂) →
      namesModule g₂ mr current = false →
      current.assembly.run g₂ = (some a, g₃) →
      a.modules.run g₃ = (ms, g₄) →
      ms.find? (fun m => (g₄.get m).name.sameIgnoringCase (g₂.get mr).name) = some m →
      (m.find ref).run g₄ = (some d, g₅) →
      ((referencedModule mr current).run g₂ = (some m, g₄) ↔ (g₂.get mr).name.text?.isSome) ∧
      ((g₂.get mr).name.text?.isSome → ∀ source,
        (r.resolveType ref source).run s = (some d, ⟨g₅, s.requests⟩))) := by
  constructor
  · intro member t sig x xs g₁ g₂ g₃ whole hparent hsig hlist hx hname hequal
    refine ⟨?_, resolveMember_listed hr whole hparent hsig hlist hx hname hequal⟩
    rintro ⟨y, -, s', hrun, hy⟩
    exact Name.ofString_lossy_iff.mp ((resolveMember_name hr hparent hsig hrun).symm.trans hy)
  · intro ref outermost mr current m a ms d g₁ g₂ g₃ g₄ g₅ houtermost hscope hcurrent hother
      hassembly hmodules hfirst hfind
    have hiff := referencedModule_iff_text hother hassembly hmodules hfirst
    exact ⟨hiff, fun htext source =>
      resolveType_referenced hr houtermost hscope hcurrent (hiff.mpr htext) hfind source⟩

/-! ## A module and a method of one name -/

/-- A graph of an assembly of two modules.  The second has a name and a type, and the type a
method of the same name.  The first refers to the type through a reference to a module of
the name, and to the method. -/
def namedAlike (name : Name) : Graph :=
  ((do
    let m : ModuleId ← make .module ⟨0, .inMemory, .empty, Guid.zero, none, some [], some []⟩
    let named : ModuleId ← make .module ⟨0, .inMemory, name, Guid.zero, none, some [], some []⟩
    let a ← makeAssembly default
    let _ ← Ownership.add .assemblyModules a.node m.key
    let _ ← Ownership.add .assemblyModules a.node named.key
    let t ← makeTypeDef .empty .empty 0
    let _ ← Ownership.add .moduleTypes named.node t.key
    let method ← makeMethodDef name 0 (some default)
    let _ ← Ownership.add .methods t.node method.key
    let mr ← makeModuleRef name
    let _ ← makeTypeRef m .empty .empty (some (.moduleRef mr))
    let _ ← makeMemberRef m name (some (.typeDef t)) (some (.method default))
    return ()
    : GraphM Unit).run Graph.empty).2

/-- A resolver that asks for nothing outside the graph. -/
def withinGraph : Resolver := ⟨fun _ _ _ => none, none, ⟨false, 30⟩⟩

/-- Where the name is text, the method and the type are found. -/
theorem found_namedAlike :
    ((withinGraph.resolveMember ⟨.built 7⟩).run ⟨namedAlike ⟨[78]⟩, []⟩).1 =
      some (.method ⟨.built 4⟩) ∧
    ((withinGraph.resolveType ⟨.built 6⟩ none).run ⟨namedAlike ⟨[78]⟩, []⟩).1 =
      some ⟨.built 3⟩ := by
  obtain ⟨members, types⟩ := found_iff_text (r := withinGraph) rfl ⟨namedAlike ⟨[78]⟩, []⟩
  constructor
  · have hfound := (members ⟨.built 7⟩ ⟨.built 3⟩ (.method default) (.method ⟨.built 4⟩)
      [.method ⟨.built 4⟩] _ _ _ (by decide +kernel) (Prod.ext (by decide +kernel) rfl)
      (Prod.ext rfl rfl) (Prod.ext (by decide +kernel) rfl) (by decide) (by decide +kernel)
      (by decide +kernel)).mpr (by decide +kernel)
    obtain ⟨y, hy, s', hrun, -⟩ := hfound
    rw [hrun, List.mem_singleton.mp hy]
  · have hfound := (types ⟨.built 6⟩ ⟨.built 6⟩ ⟨.built 5⟩ ⟨.built 0⟩ ⟨.built 1⟩ ⟨.built 2⟩
      [⟨.built 0⟩, ⟨.built 1⟩] ⟨.built 3⟩ _ _ _ _ _ (Prod.ext (by decide +kernel) rfl)
      (Prod.ext (by decide +kernel) rfl) (Prod.ext (by decide +kernel) rfl) (by decide +kernel)
      (Prod.ext (by decide +kernel) rfl) (Prod.ext (by decide +kernel) rfl) (by decide +kernel)
      (Prod.ext (by decide +kernel) rfl)).2 (by decide +kernel) none
    rw [hfound]

/-- Where it is not, neither is.  The type of the reference lists the method, of the same
name and an equal signature, and the first module of the name that the assembly has is
another one than asks and has the type; but the references are resolved to nothing. -/
theorem unfound_namedAlike :
    let g := namedAlike ⟨[0xFF]⟩
    let asking : ModuleId := ⟨.built 0⟩
    let named : ModuleId := ⟨.built 1⟩
    let t : TypeDefId := ⟨.built 3⟩
    let method : MethodDefId := ⟨.built 4⟩
    let mr : ModuleRefId := ⟨.built 5⟩
    let ref : TypeRefId := ⟨.built 6⟩
    let member : MemberRefId := ⟨.built 7⟩
    (member.sig.run g).1 = some (.method default) ∧
    (member.parent.run g).1 = some (.typeDef t) ∧ (t.methods.run g).1 = [method] ∧
    (g.get method).name = (g.get member).name ∧
    (((MemberDef.method method).answers (.method default)).run g).1 = true ∧
    ((withinGraph.resolveMember member).run ⟨g, []⟩).1 = none ∧
    (ref.scope.run g).1 = some (.moduleRef mr) ∧ (ref.module.run g).1 = some asking ∧
    (asking.assembly.run g).1 = some ⟨.built 2⟩ ∧
    ((AssemblyId.modules ⟨.built 2⟩).run g).1 = [asking, named] ∧
    namesModule g mr asking = false ∧ namesModule g mr named = true ∧
    ((named.find ref).run g).1 = some t ∧
    ((withinGraph.resolveType ref none).run ⟨g, []⟩).1 = none :=
  ⟨rfl, by decide +kernel⟩

end Resolver
end CliMetadata
