import CliMetadata.Catalogue.Properties
import CliMetadata.Containment
import CliMetadata.Graph.InMemory
import CliMetadata.Proofs.Comparison.Columns
import CliMetadata.Proofs.Graph.Perusing
import CliMetadata.Proofs.Resolution.Lookup

/-!
# What is put together from accessors

Walks, names, searches, comparisons, the search for generic parameters, the search for members and
the replacement of references are put together from accessors, and so **they lead to graphs that
have been read**, as accessors do.  Replacing a reference makes new ones on its way, which are in no
container and stand for no row.
-/

namespace CliMetadata

open CliMetadata.Graph Loading Stateful

/-! ## Walks and names -/

theorem within_peruses : ReadsWithin fun _ x => Keeps Peruses x :=
  ReadsKeep.within ⟨owner_peruses, TypeRefId.scope_peruses, TypeSpecId.sig_peruses⟩

theorem searches_peruses : Searches fun _ x => Keeps Peruses x where
  toSequential := Keeps.sequential
  scope := TypeRefId.scope_peruses
  items := items_peruses
  look := Keeps.get.bind

section Walks

variable {R : Graph → Graph → Prop} [IsPreorder Graph R] {α : Type} {up : α → GraphM (Option α)}

/-- A text along a walk is read as the walk is. -/
theorem keeps_spelled {β : Type} (h : ∀ x, Keeps R (up x)) (start : α)
    (f : List α × Bool → Graph → β) : Keeps R (do
      let walked ← Chain.ancestors up recursionBound (← up start)
      let g ← get
      return f walked g) :=
  (h start).bind fun above => (Keeps.sequential.ancestors h _ above).bind fun _ =>
    Keeps.get.bind fun _ => Keeps.pure _

end Walks

namespace TypeDefId

theorem declaringType_peruses (t : TypeDefId) : Keeps Peruses t.declaringType :=
  within_peruses.declaringType t

theorem ownerModule_peruses (t : TypeDefId) : Keeps Peruses t.ownerModule :=
  (owner_peruses _ _).put_into _

theorem module_peruses (t : TypeDefId) : Keeps Peruses t.module := within_peruses.moduleWithin _ t

theorem children_peruses {k : Kind} (e : Edge) (t : TypeDefId) :
    Keeps Peruses (children e t : GraphM (List (Id k))) := (items_peruses _ _).put_into _

theorem fullName_peruses (t : TypeDefId) : Keeps Peruses t.fullName :=
  keeps_spelled declaringType_peruses t _

end TypeDefId

namespace TypeRefId

theorem module_peruses (r : TypeRefId) : Keeps Peruses r.module := Keeps.get.bind fun _ => Keeps.pure _

theorem declaringType_peruses (r : TypeRefId) : Keeps Peruses r.declaringType :=
  within_peruses.enclosing r

theorem nonNested_peruses (r : TypeRefId) : Keeps Peruses r.nonNested :=
  Keeps.sequential.outermost declaringType_peruses _ r

theorem nestingChain_peruses (r : TypeRefId) : Keeps Peruses r.nestingChain :=
  searches_peruses.nestingChain r

theorem path?_peruses (r : TypeRefId) : Keeps Peruses r.path? :=
  (nestingChain_peruses r).bind fun _ => Keeps.get.bind fun _ => Keeps.pure _

theorem fullName_peruses (r : TypeRefId) : Keeps Peruses r.fullName :=
  keeps_spelled declaringType_peruses r _

end TypeRefId

namespace TypeSpecId

theorem scopeTypeWithin_peruses : ∀ (bound : Nat) (t : Sig),
    Keeps Peruses (scopeTypeWithin bound t)
  | 0, _ => Keeps.pure _
  | n + 1, t => by
    unfold scopeTypeWithin
    split
    · next spec _ =>
      refine (sig_peruses spec).bind fun t' => ?_
      cases t' with
      | none => exact Keeps.pure _
      | some t' => exact scopeTypeWithin_peruses n t'
    · exact Keeps.pure _

theorem scopeType_peruses (s : TypeSpecId) : Keeps Peruses s.scopeType := by
  refine (sig_peruses s).bind fun t => ?_
  cases t with
  | none => exact Keeps.pure _
  | some t => exact scopeTypeWithin_peruses _ t

end TypeSpecId

/-! ## Texts of signatures -/

section Display

variable {specName : TypeSpecId → GraphM (Option String)}

theorem TypeSig.refName_peruses (h : ∀ s, Keeps Peruses (specName s)) (r : TypeDefOrRef) :
    Keeps Peruses (TypeSig.refName specName r) := by
  cases r with
  | typeDef t => exact (TypeDefId.fullName_peruses t).map
  | typeRef r => exact (TypeRefId.fullName_peruses r).map
  | typeSpec s => exact h s

mutual

/-- Writing a signature reads what it refers to. -/
theorem TypeSig.displayWith_peruses (h : ∀ s, Keeps Peruses (specName s)) : ∀ t : Sig,
    Keeps Peruses (TypeSig.displayWith specName t)
  | .leaf _ | .param _ _ | .fnPtr _ _ _ _ => by
    unfold TypeSig.displayWith
    exact Keeps.pure _
  | .named _ r => by
    unfold TypeSig.displayWith
    cases r with
    | typeSpec s => exact Keeps.get.bind fun _ => Keeps.pure _
    | typeDef _ | typeRef _ => exact TypeSig.refName_peruses h _
  | .wrap _ next => by
    unfold TypeSig.displayWith
    exact (TypeSig.displayWith_peruses h next).put_into _
  | .modified _ m base => by
    unfold TypeSig.displayWith
    exact (TypeSig.refName_peruses h m).bind fun _ => (TypeSig.displayWith_peruses h base).put_into _
  | .inst generic args => by
    unfold TypeSig.displayWith
    exact (TypeSig.displayWith_peruses h generic).bind fun _ =>
      (TypeSig.displayAllWith_peruses h args).put_into _

/-- So does writing several. -/
theorem TypeSig.displayAllWith_peruses (h : ∀ s, Keeps Peruses (specName s)) : ∀ ts : List Sig,
    Keeps Peruses (TypeSig.displayAllWith specName ts)
  | [] => by
    unfold TypeSig.displayAllWith
    exact Keeps.pure _
  | t :: ts => by
    unfold TypeSig.displayAllWith
    exact (TypeSig.displayWith_peruses h t).bind fun _ =>
      (TypeSig.displayAllWith_peruses h ts).put_into _

end

end Display

namespace TypeSpecId

theorem nameWithin_peruses : ∀ (n : Nat) (s : TypeSpecId), Keeps Peruses (nameWithin n s)
  | 0, _ => Keeps.pure _
  | n + 1, s => by
    refine (sig_peruses s).bind fun t => ?_
    cases t with
    | none => exact Keeps.pure _
    | some t => exact TypeSig.displayWith_peruses (nameWithin_peruses n) t

theorem fullName_peruses (s : TypeSpecId) : Keeps Peruses s.fullName :=
  Keeps.get.bind fun _ => nameWithin_peruses _ s

end TypeSpecId

/-! ## Members -/

theorem declaringTypeOf_peruses (e : Edge) (member : Key) :
    Keeps Peruses (declaringTypeOf e member) := (owner_peruses _ _).put_into _

theorem memberFullName_peruses (e : Edge) (member : Key) (name : Name) :
    Keeps Peruses (memberFullName e member name) := by
  refine (declaringTypeOf_peruses e member).bind fun t => ?_
  cases t with
  | none => exact Keeps.pure _
  | some t => exact (TypeDefId.fullName_peruses t).put_into _

namespace MemberRefId

theorem module_peruses (m : MemberRefId) : Keeps Peruses m.module :=
  Keeps.get.bind fun _ => Keeps.pure _

theorem parentName_peruses (m : MemberRefId) : Keeps Peruses m.parentName := by
  refine (parent_peruses m).bind fun p => ?_
  split
  · exact (TypeDefId.fullName_peruses _).map
  · exact (TypeRefId.fullName_peruses _).map
  · exact TypeSpecId.fullName_peruses _
  · exact Keeps.get.bind fun _ => Keeps.pure _
  · refine (declaringTypeOf_peruses _ _).bind fun t => ?_
    cases t with
    | none => exact Keeps.pure _
    | some t => exact (TypeDefId.fullName_peruses t).map
  · exact Keeps.pure _

theorem fullName_peruses (m : MemberRefId) : Keeps Peruses m.fullName :=
  (parentName_peruses m).bind fun _ => Keeps.get.bind fun _ => Keeps.pure _

end MemberRefId

/-! ## Exported types, modules and assemblies -/

theorem ModuleId.assembly_peruses (m : ModuleId) : Keeps Peruses m.assembly :=
  (owner_peruses _ _).put_into _

namespace ExportedTypeId

theorem module_peruses (e : ExportedTypeId) : Keeps Peruses e.module :=
  Keeps.get.bind fun _ => Keeps.pure _

theorem declaringType_peruses (e : ExportedTypeId) : Keeps Peruses e.declaringType := by
  refine (implementation_peruses e).bind fun i => ?_
  split
  · exact Keeps.pure _
  · exact Keeps.pure _

theorem path?_peruses (e : ExportedTypeId) : Keeps Peruses e.path? :=
  keeps_spelled declaringType_peruses e fun walked g =>
    if walked.2 then some ((e :: walked.1).map (level g)).reverse else none

theorem fullName_peruses (e : ExportedTypeId) : Keeps Peruses e.fullName :=
  keeps_spelled declaringType_peruses e _

theorem answers_peruses (e : ExportedTypeId) (r : TypeRefId) : Keeps Peruses (e.answers r) := by
  refine r.path?_peruses.bind fun path => ?_
  cases path with
  | none => exact Keeps.pure _
  | some _ => exact (path?_peruses e).put_into _

theorem definitionFrom_peruses (e : ExportedTypeId) : ∀ (bound : Nat) (i : Implementation),
    Keeps Peruses (e.definitionFrom bound i)
  | 0, _ => Keeps.pure _
  | _ + 1, .assemblyRef _ => Keeps.pure _
  | _ + 1, .file _ => by
    refine (module_peruses e).bind fun m => ?_
    cases m with
    | none => exact Keeps.pure _
    | some m => exact m.assembly_peruses.put_into _
  | n + 1, .exportedType enclosing => by
    refine (implementation_peruses enclosing).bind fun i => ?_
    cases i with
    | none => exact Keeps.pure _
    | some i => exact definitionFrom_peruses e n i

theorem definitionAssembly_peruses (e : ExportedTypeId) : Keeps Peruses e.definitionAssembly := by
  refine (implementation_peruses e).bind fun i => ?_
  cases i with
  | none => exact Keeps.pure _
  | some i => exact definitionFrom_peruses e _ i

end ExportedTypeId

namespace ModuleId

theorem types_peruses (m : ModuleId) : Keeps Peruses m.types := searches_peruses.types m

theorem globalType_peruses (m : ModuleId) : Keeps Peruses m.globalType := (types_peruses m).put_into _

theorem firstAnswer_peruses (r : TypeRefId) : ∀ es : List ExportedTypeId,
    Keeps Peruses (firstAnswer r es)
  | [] => Keeps.pure _
  | e :: es => (e.answers_peruses r).bind fun _ => Keeps.ite (Keeps.pure _) (firstAnswer_peruses r es)

theorem findExported_peruses (m : ModuleId) (r : TypeRefId) : Keeps Peruses (m.findExported r) :=
  (exportedTypes_peruses m).bind (firstAnswer_peruses r)

theorem levels_peruses : ∀ (bound : Nat) (ts : List TypeDefId), Keeps Peruses (levels bound ts)
  | 0, _ => Keeps.pure _
  | _ + 1, [] => Keeps.pure _
  | n + 1, _ :: _ => (Keeps.mapM (fun t => t.children_peruses _) _).bind fun _ =>
    (levels_peruses n _).put_into _

theorem allTypes_peruses (m : ModuleId) : Keeps Peruses m.allTypes :=
  (types_peruses m).bind (levels_peruses _)

theorem isManifest_peruses (m : ModuleId) : Keeps Peruses m.isManifest := by
  refine (assembly_peruses m).bind fun a => ?_
  cases a with
  | none => exact Keeps.pure _
  | some a => exact (items_peruses _ _).put_into _

end ModuleId

theorem AssemblyId.modules_peruses (a : AssemblyId) : Keeps Peruses a.modules :=
  searches_peruses.modules a

theorem TypeDefId.isGlobal_peruses (t : TypeDefId) : Keeps Peruses t.isGlobal := by
  refine t.ownerModule_peruses.bind fun m => ?_
  cases m with
  | none => exact Keeps.pure _
  | some m => exact m.globalType_peruses.put_into _

namespace ResourceId

theorem assembly_peruses (r : ResourceId) : Keeps Peruses r.assembly := by
  refine (implementation_peruses r).bind fun i => ?_
  split
  · exact Keeps.pure _
  · exact Keeps.pure _

theorem file_peruses (r : ResourceId) : Keeps Peruses r.file := by
  refine (implementation_peruses r).bind fun i => ?_
  split
  · exact Keeps.pure _
  · exact Keeps.pure _

theorem fileName_peruses (r : ResourceId) : Keeps Peruses r.fileName := by
  refine (file_peruses r).bind fun f => ?_
  cases f with
  | none => exact Keeps.pure _
  | some _ => exact Keeps.get.bind fun _ => Keeps.pure _

end ResourceId

/-! ## Outlines, comparisons and generic parameters -/

theorem ResolutionScope.inspect_peruses (s : ResolutionScope) : Keeps Peruses s.inspect := by
  cases s with
  | module _ | moduleRef _ | assemblyRef _ => exact Keeps.get.bind fun _ => Keeps.pure _
  | typeRef r => exact r.fullName_peruses.put_into _

namespace CompareOptions

variable (o : CompareOptions)

theorem equalTypes_peruses (a b : TypeDefOrRef) : Keeps Peruses (o.equalTypes a b) :=
  (within_peruses.comparison o _).1 a b

theorem equalPropertySigs_peruses (a b : PropertySig TypeDefOrRef) :
    Keeps Peruses (o.equalPropertySigs a b) := by
  unfold equalPropertySigs
  refine Keeps.ite (Keeps.pure _) ((within_peruses.equalSigs o _ _).bind fun _ => ?_)
  exact Keeps.ite (Keeps.pure _) (within_peruses.allEqual (within_peruses.equalSigs o) _ _)

end CompareOptions

namespace Containment

theorem any_peruses {α : Type} {test : α → GraphM Bool} (h : ∀ a, Keeps Peruses (test a)) :
    ∀ xs : List α, Keeps Peruses (any test xs)
  | [] => Keeps.pure _
  | x :: xs => (h x).bind fun _ => Keeps.ite (Keeps.pure _) (any_peruses h xs)

/-- The search for generic parameters reads specifications, under every budget. -/
theorem search_peruses : ∀ d : Nat, (∀ s, Keeps Peruses (spec d s)) ∧
    (∀ m, Keeps Peruses (method d m)) ∧ ∀ t, Keeps Peruses (type d t)
  | 0 => ⟨fun _ => Keeps.pure _, fun _ => Keeps.pure _, fun _ => Keeps.pure _⟩
  | d + 1 => by
    obtain ⟨hspec, hmethod, htype⟩ := search_peruses d
    refine ⟨fun s => ?_, fun m => ?_, fun t => ?_⟩
    · refine (TypeSpecId.sig_peruses s).bind fun t => ?_
      cases t with
      | none => exact Keeps.pure _
      | some t => exact htype t
    · refine (htype _).bind fun _ => Keeps.ite (Keeps.pure _) ?_
      exact (any_peruses htype _).bind fun _ => Keeps.ite (Keeps.pure _) (any_peruses htype _)
    · cases t with
      | leaf _ | param _ _ => exact Keeps.pure _
      | named _ r =>
        rw [type]
        split
        · exact hspec _
        · exact Keeps.pure _
      | wrap _ next => exact htype next
      | modified _ m base =>
        rw [type]
        split
        · exact (hspec _).bind fun _ => Keeps.ite (Keeps.pure _) (htype base)
        · exact (Keeps.pure _).bind fun _ => Keeps.ite (Keeps.pure _) (htype base)
      | inst generic args =>
        exact (htype generic).bind fun _ => Keeps.ite (Keeps.pure _) (any_peruses htype args)
      | fnPtr _ _ _ _ => exact hmethod _

theorem signature_peruses (d : Nat) (s : Signature TypeDefOrRef) :
    Keeps Peruses (signature d s) := by
  cases s with
  | method m =>
    cases d with
    | zero => exact (search_peruses 0).2.1 m
    | succ d => exact (search_peruses (d + 1)).2.1 m
  | field _ | property _ | locals _ | instantiation _ =>
    cases d with
    | zero => exact Keeps.pure _
    | succ d =>
      have htype := (search_peruses d).2.2
      first
        | exact htype _
        | exact any_peruses htype _
        | exact (htype _).bind fun _ => Keeps.ite (Keeps.pure _) (any_peruses htype _)

theorem reference_peruses (d : Nat) (r : TypeDefOrRef) : Keeps Peruses (reference d r) := by
  unfold reference
  split
  · exact (search_peruses d).1 _
  · exact Keeps.pure _

theorem memberRef_peruses (d : Nat) (m : MemberRefId) : Keeps Peruses (memberRef d m) := by
  refine m.sig_peruses.bind fun sig => ?_
  have hsig : ∀ s, Keeps Peruses (signature d s) := signature_peruses d
  have hfalse : Keeps Peruses (pure false : GraphM Bool) := Keeps.pure _
  cases sig with
  | none | some _ =>
    refine Keeps.bind (by first | exact hsig _ | exact hfalse) fun found => ?_
    refine Keeps.ite (Keeps.pure _) (m.parent_peruses.bind fun p => ?_)
    split
    · exact (search_peruses d).1 _
    · refine (MethodDefId.sig_peruses _).bind fun sig => ?_
      cases sig with
      | none => exact Keeps.pure _
      | some sig => exact (search_peruses d).2.1 sig
    · exact Keeps.pure _

theorem constraint_peruses (d : Nat) (c : ConstraintId) : Keeps Peruses (constraint d c) := by
  refine Keeps.get.bind fun g => ?_
  split
  · exact reference_peruses d _
  · exact Keeps.pure _

end Containment

/-! ## Members of types -/

theorem firstThat_peruses {α : Type} {test : α → GraphM Bool} (h : ∀ a, Keeps Peruses (test a)) :
    ∀ xs : List α, Keeps Peruses (firstThat test xs)
  | [] => Keeps.pure _
  | x :: xs => (h x).bind fun _ => Keeps.ite (Keeps.pure _) (firstThat_peruses h xs)

namespace TypeDefId

theorem answersSig_peruses {α : Type} {equal : α → α → GraphM Bool}
    (h : ∀ a b, Keeps Peruses (equal a b)) {read : GraphM (Option α)} (hread : Keeps Peruses read)
    (expected : Option α) : Keeps Peruses (answersSig equal read expected) := by
  cases expected with
  | none => exact Keeps.pure _
  | some expected =>
    refine hread.bind fun actual => ?_
    cases actual with
    | none => exact Keeps.pure _
    | some actual => exact h actual expected

theorem findMethod_peruses (t : TypeDefId) (name : String)
    (sig : Option (MethodSig TypeDefOrRef)) : Keeps Peruses (t.findMethod name sig) :=
  (t.children_peruses _).bind fun _ => firstThat_peruses (fun m => Keeps.get.bind fun _ =>
    Keeps.ite (answersSig_peruses (within_peruses.equalMethodSigs _) m.sig_peruses sig)
      (Keeps.pure _)) _

theorem findField_peruses (t : TypeDefId) (name : String) (sig : Option Sig) :
    Keeps Peruses (t.findField name sig) :=
  (t.children_peruses _).bind fun _ => firstThat_peruses (fun f => Keeps.get.bind fun _ =>
    Keeps.ite (answersSig_peruses (within_peruses.equalSigs _) f.sig_peruses sig)
      (Keeps.pure _)) _

theorem ownMember_peruses (t : TypeDefId) (name : String) (sig : Signature TypeDefOrRef) :
    Keeps Peruses (t.ownMember name sig) := by
  cases sig with
  | method m => exact (t.findMethod_peruses name (some m)).put_into _
  | field f => exact (t.findField_peruses name (some f)).put_into _
  | property _ | locals _ | instantiation _ => exact Keeps.pure _

theorem inheritedMember_peruses (name : String) (sig : Signature TypeDefOrRef) :
    ∀ (bound : Nat) (base : Option TypeDefOrRef), Keeps Peruses (inheritedMember name sig bound base)
  | 0, _ => Keeps.pure _
  | _ + 1, none => Keeps.pure _
  | n + 1, some base => by
    have hplain : Keeps Peruses (plainBase base) := by
      cases base with
      | typeDef _ | typeRef _ => exact Keeps.pure _
      | typeSpec s =>
        refine s.scopeType_peruses.bind fun t => ?_
        split <;> exact Keeps.pure _
    refine hplain.bind fun t => ?_
    cases t with
    | none => exact Keeps.pure _
    | some t =>
      refine (t.ownMember_peruses name sig).bind fun found => ?_
      cases found with
      | some _ => exact Keeps.pure _
      | none => exact t.base_peruses.bind fun base => inheritedMember_peruses name sig n base

theorem resolveMember_peruses (t : TypeDefId) (name : String) (sig : Signature TypeDefOrRef) :
    Keeps Peruses (t.resolveMember name sig) := by
  refine (t.ownMember_peruses name sig).bind fun found => ?_
  cases found with
  | some _ => exact Keeps.pure _
  | none => exact t.base_peruses.bind (inheritedMember_peruses name sig _)

end TypeDefId

/-! ## Replacing references -/

/-- A reference or a specification is made, which may refer to anything. -/
theorem make_peruses {k : Kind} {ρ : Type} [Recorded k ρ] [Recorded.Lawful k]
    (hk : k ∈ [Kind.typeRef, .typeSpec, .memberRef, .assemblyRef]) (r : ρ)
    (hvalues : k = .assemblyRef → (Recorded.pack k r).values = []) : Keeps Peruses (make k r) := by
  intro g
  have hsettle : ∀ g' : Graph, g'.Peruses (settle ⟨k, .built g.built⟩ g') := by
    intro g'
    simp only [List.mem_cons, List.not_mem_nil, or_false] at hk
    rcases hk with rfl | rfl | rfl | rfl <;> exact .of_eq rfl rfl rfl rfl
  refine trans_of Peruses (Peruses.of_grow (r := r) ?_ ?_ fun hkinds v hv => ?_) (hsettle _)
  · rintro rfl
    simp at hk
  · rintro rfl
    simp at hk
  · have hassembly : k = .assemblyRef := by
      simp only [List.mem_cons, List.not_mem_nil, or_false] at hk hkinds
      tauto
    rw [hvalues hassembly] at hv
    exact absurd hv List.not_mem_nil

theorem makeAssemblyRef_peruses (identity : AssemblyIdentity) (flags : Flags) :
    Keeps Peruses (makeAssemblyRef identity flags) :=
  make_peruses (by decide) _ fun _ => rfl

theorem makeTypeRef_peruses (m : ModuleId) (space name : Name) (scope : Option ResolutionScope) :
    Keeps Peruses (makeTypeRef m space name scope) :=
  make_peruses (by decide) _ fun h => by cases h

theorem makeTypeSpec_peruses (t : Sig) : Keeps Peruses (makeTypeSpec t) :=
  make_peruses (by decide) _ fun h => by cases h

theorem makeMemberRef_peruses (m : ModuleId) (name : Name) (p : Option MemberParent)
    (s : Option (Signature TypeDefOrRef)) : Keeps Peruses (makeMemberRef m name p s) :=
  make_peruses (by decide) _ fun h => by cases h

namespace Projection

theorem mappingOf_peruses (r : TypeRefId) : Keeps Peruses (mappingOf r) := by
  refine r.scope_peruses.bind fun scope => ?_
  split
  · exact Keeps.get.bind fun _ => Keeps.ite (Keeps.pure _) (Keeps.pure _)
  · exact Keeps.pure _

theorem typeRef_peruses (r : TypeRefId) : Keeps Peruses (typeRef r) := by
  refine (mappingOf_peruses r).bind fun m => ?_
  cases m with
  | none => exact Keeps.pure _
  | some m =>
    refine r.module_peruses.bind fun module => ?_
    cases module with
    | none => exact Keeps.pure _
    | some module =>
      exact (makeAssemblyRef_peruses _ _).bind fun a => (makeTypeRef_peruses _ _ _ _).map

theorem all_peruses {α : Type} {replace : α → GraphM (Option α)}
    (h : ∀ x, Keeps Peruses (replace x)) (xs : List α) : Keeps Peruses (all replace xs) :=
  (Keeps.mapM h xs).bind fun _ => Keeps.ite (Keeps.pure _) (Keeps.pure _)

theorem typeWith_peruses {sig : Sig → GraphM (Option Sig)} (h : ∀ t, Keeps Peruses (sig t))
    (r : TypeDefOrRef) : Keeps Peruses (typeWith sig r) := by
  cases r with
  | typeDef _ => exact Keeps.pure _
  | typeRef r => exact (typeRef_peruses r).put_into _
  | typeSpec s =>
    refine s.sig_peruses.bind fun t => ?_
    cases t with
    | none => exact Keeps.pure _
    | some t =>
      refine (h t).bind fun t' => ?_
      cases t' with
      | none => exact Keeps.pure _
      | some t' => exact (makeTypeSpec_peruses _).put_into _

theorem sig_peruses : ∀ (d : Nat) (t : Sig), Keeps Peruses (sig d t)
  | 0, _ => Keeps.pure _
  | d + 1, t => by
    have hsig := sig_peruses d
    cases t with
    | leaf _ | param _ _ => exact Keeps.pure _
    | named _ r => exact (typeWith_peruses hsig r).put_into _
    | wrap w next =>
      cases w with
      | valueArray _ | module _ => exact Keeps.pure _
      | ptr | byRef | szArray | pinned | array _ _ => exact (hsig next).put_into _
    | modified _ _ base => exact (hsig base).put_into _
    | inst generic args =>
      exact (hsig generic).bind fun _ => (all_peruses hsig args).bind fun _ =>
        Keeps.ite (Keeps.pure _) (Keeps.pure _)
    | fnPtr _ returnType params _ =>
      exact (hsig returnType).bind fun _ => (all_peruses hsig params).bind fun _ =>
        Keeps.ite (Keeps.pure _) (Keeps.pure _)

theorem methodSig_peruses (d : Nat) (m : MethodSig TypeDefOrRef) : Keeps Peruses (methodSig d m) :=
  (sig_peruses d _).bind fun _ => (all_peruses (sig_peruses d) _).bind fun _ =>
    Keeps.ite (Keeps.pure _) (Keeps.pure _)

theorem signature_peruses (s : Signature TypeDefOrRef) : Keeps Peruses (signature s) := by
  cases s with
  | method m => exact (methodSig_peruses _ m).put_into _
  | field t => exact (sig_peruses _ t).put_into _
  | property _ | locals _ | instantiation _ => exact Keeps.pure _

theorem parent_peruses (name : Name) (p : Option MemberParent) : Keeps Peruses (parent name p) := by
  unfold parent
  split
  · refine (typeRef_peruses _).bind fun owner' => ?_
    cases owner' with
    | none => exact Keeps.pure _
    | some _ => exact Keeps.get.bind fun _ => Keeps.pure _
  · refine (TypeSpecId.sig_peruses _).bind fun t => ?_
    cases t with
    | none => exact Keeps.pure _
    | some t =>
      refine (sig_peruses _ t).bind fun t' => ?_
      cases t' with
      | none => exact Keeps.pure _
      | some t' => exact (makeTypeSpec_peruses _).put_into _
  · exact Keeps.pure _

theorem memberRef_peruses (m : MemberRefId) : Keeps Peruses (memberRef m) := by
  refine m.module_peruses.bind fun module => ?_
  cases module with
  | none => exact Keeps.pure _
  | some module =>
    refine m.parent_peruses.bind fun p => m.sig_peruses.bind fun s => Keeps.get.bind fun _ =>
      (parent_peruses _ p).bind fun replaced => ?_
    have hrest : ∀ s' : Option (Signature TypeDefOrRef), Keeps Peruses (if
        replaced.1.isNone && s'.isNone then Pure.pure none
        else some <$> makeMemberRef module replaced.2 (replaced.1.or p) (s'.or s)) :=
      fun s' => Keeps.ite (Keeps.pure _) (makeMemberRef_peruses _ _ _ _).map
    cases s with
    | none => exact (Keeps.pure _).bind hrest
    | some s => exact (signature_peruses s).bind hrest

end Projection
end CliMetadata
