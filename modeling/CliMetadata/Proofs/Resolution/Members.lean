import CliMetadata.Proofs.Comparison.Columns
import CliMetadata.Proofs.Comparison.Equality
import CliMetadata.Proofs.Graph.Whole
import CliMetadata.Proofs.Resolution.Lookup
import CliMetadata.Proofs.Text.Names

/-!
# Looking members up by name

A member reference is resolved by the text of its name: the members of a type are tested
one after the other, each by its name and then by its signature, and the first that passes
is the answer.  **Whatever is found has the bytes of that text as its name**
(`Resolver.findMember_names`), in any graph.

Where nothing is missing, the tests do not disturb each other (`MemberDef.yields_fits`), and
the answer is the first member that passes them in the graph that the list was read in.  So
**a listed member is found if its name is text** (`Resolver.resolveMember_listed`).
-/

namespace CliMetadata

open CliMetadata.Graph Loading Stateful

/-! ## Methods and fields alike -/

namespace MemberDef

/-- The name of a member. -/
def name (g : Graph) : MemberDef → Name
  | method m => (g.get m).name
  | field f => (g.get f).name

/-- Whether a member has a signature that is equal to the expected one. -/
def answers : Signature TypeDefOrRef → MemberDef → GraphM Bool
  | .method e, .method m =>
    TypeDefId.answersSig (CompareOptions.equalMethodSigs {}) m.sig (some e)
  | .field e, .field f => TypeDefId.answersSig (CompareOptions.equalSigs {}) f.sig (some e)
  | _, _ => return false

/-- Whether a member has a name, and a signature that is equal to the expected one. -/
def fits (text : String) (sig : Signature TypeDefOrRef) (x : MemberDef) : GraphM Bool := do
  if (x.name (← get)).isText text then x.answers sig else return false

end MemberDef

/-- What a type lists of the sort that a signature is of. -/
def TypeDefId.membersLike (t : TypeDefId) : Signature TypeDefOrRef → GraphM (List MemberDef)
  | .method _ => do return (← t.methods).map .method
  | .field _ => do return (← t.fields).map .field
  | _ => return []

theorem firstThat_map {α β : Type} (f : α → β) (test : β → GraphM Bool) : ∀ xs : List α,
    firstThat test (xs.map f) = Option.map f <$> firstThat (fun x => test (f x)) xs
  | [] => rfl
  | x :: xs => by
    rw [List.map_cons, firstThat, firstThat, map_bind]
    refine bind_congr fun passed => ?_
    split
    · rfl
    · exact firstThat_map f test xs

/-- A type's own members are looked up alike, methods or fields. -/
theorem TypeDefId.ownMember_eq (t : TypeDefId) (text : String) (sig : Signature TypeDefOrRef) :
    t.ownMember text sig = t.membersLike sig >>= firstThat (MemberDef.fits text sig) := by
  cases sig with
  | method e =>
    rw [ownMember, membersLike, findMethod, bind_assoc, bind_assoc]
    refine bind_congr fun ms => ?_
    rw [pure_bind, firstThat_map]
    rfl
  | field e =>
    rw [ownMember, membersLike, findField, bind_assoc, bind_assoc]
    refine bind_congr fun fs => ?_
    rw [pure_bind, firstThat_map]
    rfl
  | _ => rfl

/-! ## What is found has the name -/

section Found

variable {g g' : Graph}

/-- What comes first has passed the test last. -/
theorem firstThat_some {α : Type} {test : α → GraphM Bool} {x : α} :
    ∀ {xs : List α} {g : Graph}, (firstThat test xs).run g = (some x, g') →
      x ∈ xs ∧ ∃ g₀, (test x).run g₀ = (true, g')
  | [], _, h => by cases h
  | y :: ys, g, h => by
    rw [firstThat, run_bind] at h
    cases hy : ((test y).run g).1 with
    | true =>
      rw [hy] at h
      cases h
      exact ⟨List.mem_cons_self, g, Prod.ext hy rfl⟩
    | false =>
      rw [hy] at h
      obtain ⟨hmem, htest⟩ := firstThat_some h
      exact ⟨List.mem_cons_of_mem _ hmem, htest⟩

theorem Graph.SameColumns.name (h : g.SameColumns g') (x : MemberDef) : x.name g' = x.name g := by
  cases x with
  | method m =>
    have hcolumns := Entity.methodDef.inj (h m.node (by rintro ⟨⟩))
    exact (congrArg MethodDef.name hcolumns :)
  | field f =>
    have hcolumns := Entity.field.inj (h f.node (by rintro ⟨⟩))
    exact (congrArg Field.name hcolumns :)

/-- Comparing a member's signature changes no columns. -/
theorem MemberDef.answers_columns (sig : Signature TypeDefOrRef) (x : MemberDef) :
    Keeps SameColumns (x.answers sig) := by
  have hmethod : ∀ m : MethodDefId, Keeps SameColumns m.sig := fun m =>
    .of_read (z := MethodDefId.lazySig) (fun _ _ => rfl) m
  have hfield : ∀ f : FieldId, Keeps SameColumns f.sig := fun f =>
    .of_read (z := FieldId.lazySig) (fun _ _ => rfl) f
  unfold answers
  split
  · refine (hmethod _).bind fun actual => ?_
    cases actual with
    | none => exact Keeps.pure _
    | some actual => exact readsKeep_columns.within.equalMethodSigs _ _ _
  · refine (hfield _).bind fun actual => ?_
    cases actual with
    | none => exact Keeps.pure _
    | some actual => exact readsKeep_columns.within.equalSigs _ _ _
  · exact Keeps.pure _

/-- A member that fits has the name when the test is over. -/
theorem MemberDef.fits_name {text : String} {sig : Signature TypeDefOrRef} {x : MemberDef}
    (h : (x.fits text sig).run g = (true, g')) : x.name g' = .ofString text := by
  rw [fits, run_get_bind] at h
  by_cases hname : (x.name g).isText text
  · rw [if_pos hname] at h
    rw [((x.answers_columns sig).result h).name]
    exact Name.isText_iff.mp hname
  · rw [if_neg hname] at h
    cases h

/-- **A type's own member that is found has the name that it was looked up by.** -/
theorem TypeDefId.ownMember_name {t : TypeDefId} {text : String} {sig : Signature TypeDefOrRef}
    {x : MemberDef} (h : (t.ownMember text sig).run g = (some x, g')) :
    x.name g' = .ofString text := by
  rw [ownMember_eq, run_bind] at h
  obtain ⟨-, g₀, hfits⟩ := firstThat_some h
  exact MemberDef.fits_name hfits

end Found

namespace Resolver

/-- Whatever a computation gives has a text as its name in the end. -/
def Names (text : String) (x : ResolveM (Option MemberDef)) : Prop :=
  ∀ s y, (x.run s).1 = some y → y.name (x.run s).2.graph = .ofString text

namespace Names

variable {text : String}

theorem none : Names text (pure .none) := by
  intro s y h
  cases h

theorem bind {α : Type} {x : ResolveM α} {f : α → ResolveM (Option MemberDef)}
    (hf : ∀ a, Names text (f a)) : Names text (x >>= f) := fun _ y h => hf _ _ y h

/-- What a look-up gives is returned, and where it gives nothing the search goes on. -/
theorem orElse {x : GraphM (Option MemberDef)} {z : ResolveM (Option MemberDef)}
    (hx : ∀ g g' y, x.run g = (some y, g') → y.name g' = .ofString text) (hz : Names text z) :
    Names text (do
      match ← inGraph x with
      | some y => return some y
      | .none => z) := by
  intro s y h
  rw [run_bind] at h ⊢
  cases hv : ((inGraph x).run s).1 with
  | some y' =>
    rw [hv] at h
    cases h
    exact hx s.graph _ y (Prod.ext hv rfl)
  | none =>
    rw [hv] at h
    exact hz _ y h

end Names

/-- **So has one that is found in a base type**, however many there are. -/
theorem findMember_names {r : Resolver} {text : String} {sig : Signature TypeDefOrRef} :
    ∀ (bound : Nat) (t : TypeDefId), Names text (r.findMember text sig bound t)
  | 0, _ => Names.none
  | n + 1, t => by
    rw [findMember]
    split
    · exact Names.none
    · refine Names.orElse (fun _ _ _ => TypeDefId.ownMember_name) (Names.bind fun base => ?_)
      cases base with
      | none => exact Names.none
      | some base =>
        refine Names.bind fun m => Names.bind fun above => ?_
        cases above with
        | none => exact Names.none
        | some above => exact findMember_names n above

end Resolver

/-! ## What fits is found -/

theorem Yields.firstThat {α : Type} {S : Graph → Prop} {test : α → GraphM Bool} {value : α → Bool} :
    ∀ {xs : List α}, (∀ x ∈ xs, Yields S (test x) (value x)) →
      Yields S (firstThat test xs) (xs.find? value)
  | [], _ => .pure _
  | x :: xs, h => by
    rw [List.find?_cons]
    refine (h x List.mem_cons_self).bind ?_
    cases value x with
    | true => exact .pure _
    | false => exact firstThat fun y hy => h y (List.mem_cons_of_mem _ hy)

section Fits

variable {g : Graph} {sig : Signature TypeDefOrRef} {x : MemberDef} {text : String}

/-- Comparing a member that is there with a signature of what is there reads alike, whatever
has been consulted before. -/
theorem MemberDef.settles_answers (hg : g.Intact) (hx : g.present x.node)
    (hsig : ∀ r ∈ sig.refs, g.present r.node) :
    Settles g.Consulted (x.answers sig) fun _ => True := by
  cases sig with
  | method e =>
    cases x with
    | method m =>
      have hread := LazySlot.yields (z := MethodDefId.lazySig) (fun _ _ => rfl) hx
      have hrefs := MethodDefId.lazySig.refs_value hg.method m
      refine Settles.after hread ?_
      cases hv : MethodDefId.lazySig.value g m with
      | none => exact .pure trivial
      | some actual =>
        rw [hv] at hrefs
        obtain ⟨b, hb, -⟩ := CompareOptions.decides_equalMethodSigs (o := {}) hg hrefs hsig
        exact ⟨b, hb, trivial⟩
    | field _ => exact .pure trivial
  | field e =>
    cases x with
    | method _ => exact .pure trivial
    | field f =>
      have hread := LazySlot.yields (z := FieldId.lazySig) (fun _ _ => rfl) hx
      have hrefs := FieldId.lazySig.refs_value hg.field f
      refine Settles.after hread ?_
      cases hv : FieldId.lazySig.value g f with
      | none => exact .pure trivial
      | some actual =>
        rw [hv] at hrefs
        obtain ⟨b, hb, -⟩ := (CompareOptions.decides_comparison (o := {}) hg recursionBound).2
          actual e hrefs hsig
        exact ⟨b, hb, trivial⟩
  | _ => exact .pure trivial

/-- Whether a member has the name and a signature that is equal to the expected one, as the
graph is before any of it has been looked up. -/
def MemberDef.fitsIn (g : Graph) (text : String) (sig : Signature TypeDefOrRef) (x : MemberDef) :
    Bool :=
  (x.name g).isText text && ((x.answers sig).run g).1

/-- **Testing a member does not depend on what has been tested before.** -/
theorem MemberDef.yields_fits (hg : g.Intact) (hx : g.present x.node)
    (hsig : ∀ r ∈ sig.refs, g.present r.node) :
    Yields g.Consulted (x.fits text sig) (x.fitsIn g text sig) := by
  have hanswers := ((x.settles_answers hg hx hsig).value (.refl g)).1
  intro g' h
  rw [fits, run_get_bind, h.sameColumns.name, fitsIn]
  cases (x.name g).isText text with
  | false => exact ⟨rfl, h⟩
  | true => exact hanswers g' h

end Fits

/-! ## Resolving -/

section Resolving

variable {g g' : Graph} {t : TypeDefId} {sig : Signature TypeDefOrRef} {text : String}
  {x : MemberDef}

/-- What a type of a whole graph lists is there, once it has been listed. -/
theorem TypeDefId.membersLike_whole (whole : g.Whole) {xs : List MemberDef}
    (h : (t.membersLike sig).run g = (xs, g')) :
    g.Extended g' ∧ ∀ x ∈ xs, g'.present x.node := by
  have listed : ∀ {k : Kind} (e : Edge), e.childKind = k → e ≠ .assemblyModules →
      .typeDef ∈ e.ownerKinds →
      let read := (Ownership.items e t.node).run g
      g.Extended read.2 ∧ ∀ c ∈ read.1, read.2.present ⟨k, c⟩ := by
    rintro k e rfl he hkind read
    have hread : g.Extended read.2 := keepsExtended_items he hkind g
    exact ⟨hread, fun c hc => (whole.extended hread).listed (items_read g e t.node) hc⟩
  cases sig with
  | method _ =>
    obtain ⟨hread, hpresent⟩ := listed .methods rfl (by decide) (by decide)
    cases h
    refine ⟨hread, fun x hx => ?_⟩
    simp only [List.map_map, List.mem_map] at hx
    obtain ⟨c, hc, rfl⟩ := hx
    exact hpresent c hc
  | field _ =>
    obtain ⟨hread, hpresent⟩ := listed .fields rfl (by decide) (by decide)
    cases h
    refine ⟨hread, fun x hx => ?_⟩
    simp only [List.map_map, List.mem_map] at hx
    obtain ⟨c, hc, rfl⟩ := hx
    exact hpresent c hc
  | _ =>
    cases h
    exact ⟨.refl g, by simp⟩

/-- A type's own member ends the search. -/
theorem Resolver.findMember_own {r : Resolver} {s : Resolving}
    (h : (t.ownMember text sig).run s.graph = (some x, g')) (bound : Nat) :
    (r.findMember text sig (bound + 1) t).run s = (some x, ⟨g', s.requests⟩) := by
  have hsort : ¬(sig.method?.isNone && sig.field?.isNone) = true := by
    cases sig with
    | method _ | field _ => exact Bool.false_ne_true
    | _ => cases h
  rw [findMember, if_neg hsort, run_bind, inGraph_run h]
  rfl

variable {r : Resolver} {member : MemberRefId} {s : Resolving} {g₁ g₂ g₃ : Graph}

/-- Without a projection, a reference to a member of a type is looked up in that type by
the text of its name. -/
theorem Resolver.resolveMember_eq (hr : r.projection = none)
    (hparent : member.parent.run s.graph = (some (.typeDef t), g₁))
    (hsig : member.sig.run g₁ = (some sig, g₂)) :
    (r.resolveMember member).run s =
      (r.findMember (g₂.get member).name.lossy sig recursionBound t).run ⟨g₂, s.requests⟩ := by
  have hproject : (r.projectMember member).run s = (member, s) := by
    rw [projectMember_none hr]
    rfl
  exact resolveMember_typeDef hproject hparent hsig

/-- **Whatever a reference to a member of a type is resolved to has the bytes of a text as
its name**: the bytes of the text that the name of the reference is read as. -/
theorem Resolver.resolveMember_name (hr : r.projection = none)
    (hparent : member.parent.run s.graph = (some (.typeDef t), g₁))
    (hsig : member.sig.run g₁ = (some sig, g₂)) {s' : Resolving}
    (h : (r.resolveMember member).run s = (some x, s')) :
    x.name s'.graph = .ofString (g₂.get member).name.lossy := by
  rw [resolveMember_eq hr hparent hsig] at h
  have hname := findMember_names recursionBound t _ x (congrArg Prod.fst h)
  rwa [h] at hname

/-- **A listed member is found if its name is text.**  Let the type of a reference list a
member of the same name and an equal signature.  Then the reference is resolved to a member
that the type lists, of the very name. -/
theorem Resolver.resolveMember_listed (hr : r.projection = none) (whole : s.graph.Whole)
    (hparent : member.parent.run s.graph = (some (.typeDef t), g₁))
    (hsig : member.sig.run g₁ = (some sig, g₂)) {xs : List MemberDef}
    (hlist : (t.membersLike sig).run g₂ = (xs, g₃)) (hx : x ∈ xs)
    (hname : x.name g₃ = (g₂.get member).name) (hequal : ((x.answers sig).run g₃).1 = true)
    (htext : (g₂.get member).name.text?.isSome) :
    ∃ y ∈ xs, ∃ s', (r.resolveMember member).run s = (some y, s') ∧
      y.name s'.graph = (g₂.get member).name := by
  rw [resolveMember_eq hr hparent hsig]
  rw [← Name.ofString_lossy_iff] at htext
  generalize (g₂.get member).name = name at hname htext
  -- what the signature refers to and what is listed is there
  have whole₁ : g₁.Whole := whole.extended ((keepsExtended_parent member).result hparent)
  have hextended₂ : g₁.Extended g₂ := (keepsExtended_sig member).result hsig
  have hrefs : ∀ u ∈ sig.refs, g₁.present u.node := by
    have hsafe : MemberRefId.lazySig.Safe g₁ := whole₁.safe fun _ => rfl
    have hvalue : MemberRefId.lazySig.value g₁ member = some sig := congrArg Prod.fst hsig
    have hpresent := MemberRefId.lazySig.refs_value hsafe member
    rw [hvalue] at hpresent
    exact hpresent
  obtain ⟨hextended₃, hpresent⟩ := t.membersLike_whole (whole₁.extended hextended₂) hlist
  have hintact : g₃.Intact := ((whole₁.extended hextended₂).extended hextended₃).intact
  have hrefs₃ : ∀ u ∈ sig.refs, g₃.present u.node := fun u hu =>
    (hextended₂.trans hextended₃).present u.ne_customAttribute (hrefs u hu)
  -- so the first member that fits is found
  have hfits : x.fitsIn g₃ name.lossy sig = true := by
    rw [MemberDef.fitsIn, hequal, Bool.and_true, Name.isText_iff, hname, htext]
  obtain ⟨y, hfirst⟩ := Option.isSome_iff_exists.mp (List.find?_isSome.mpr ⟨x, hx, hfits⟩)
  have hyields : Yields g₃.Consulted (firstThat (MemberDef.fits name.lossy sig) xs) (some y) := by
    rw [← hfirst]
    exact .firstThat fun z hz => z.yields_fits hintact (hpresent z hz) hrefs₃
  obtain ⟨hvalue, hconsulted⟩ := hyields g₃ (.refl g₃)
  have hown : (t.ownMember name.lossy sig).run g₂ =
      (some y, ((firstThat (MemberDef.fits name.lossy sig) xs).run g₃).2) := by
    rw [TypeDefId.ownMember_eq, run_bind, hlist]
    exact Prod.ext hvalue rfl
  refine ⟨y, List.mem_of_find?_eq_some hfirst, _, findMember_own hown _, ?_⟩
  rw [hconsulted.sameColumns.name]
  have hy := List.find?_some hfirst
  rw [MemberDef.fitsIn, Bool.and_eq_true, Name.isText_iff, htext] at hy
  exact hy.1

end Resolving

end CliMetadata
