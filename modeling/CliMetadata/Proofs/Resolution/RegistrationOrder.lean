import CliMetadata.Proofs.Resolution.Registration

/-!
# Assemblies registered in different orders

A name's assemblies are filed in the order of registration, so a request is a scan through
everything registered, in that order (`AssemblyCache.resolve_registering`).  Of the assemblies that
answer and than which none is closer, **each is found in some order, and nothing else is in any**
(`AssemblyCache.found_iff_closest`).

So it is for the ties to say whether the order matters.  A version that is asked for is answered
within its major number, where all four numbers count.  A request for the unknown version is
answered by every version, and a major number other than zero counts alone.  So **the version that
is found depends on the order exactly if the request is for the unknown version, no assembly that
answers has the major number zero, and two that have the lowest differ in the other numbers**
(`AssemblyCache.versionFound_iff`).
-/

namespace CliMetadata

/-! ## Ties between versions -/

namespace AssemblyVersion

variable {a b target : AssemblyVersion}

theorem number_injective : Function.Injective number := by
  rintro ⟨major, minor, build, revision⟩ ⟨major', minor', build', revision'⟩ h
  have h1 := minor.toNat_lt
  have h2 := minor'.toNat_lt
  have h3 := build.toNat_lt
  have h4 := build'.toNat_lt
  have h5 := revision.toNat_lt
  have h6 := revision'.toNat_lt
  simp only [number] at h
  simp only [mk.injEq, ← UInt16.toNat_inj]
  omega

/-- Two versions have one rank if they are the same, or if neither has the major number of the
request and these are equally far away. -/
theorem rank_eq_iff : rank target a = rank target b ↔
    a = b ∨ a.major ≠ target.major ∧ b.major ≠ target.major ∧
      distance a.major target.major = distance b.major target.major := by
  have hda := distance_le a.major target.major
  have hdb := distance_le b.major target.major
  by_cases ha : a.major = target.major
  · simp only [ha, ne_eq, not_true_eq_false, false_and, or_false]
    by_cases hb : b.major = target.major
    · rw [rank_same ha, rank_same hb, Nat.add_left_cancel_iff, number_injective.eq_iff]
    · have hne : a ≠ b := fun h => hb (h ▸ ha)
      rw [rank_same ha, rank_other hb, iff_false_right hne]
      omega
  · by_cases hb : b.major = target.major
    · have hne : a ≠ b := fun h => ha (h ▸ hb)
      simp only [hb, hne, ne_eq, not_true_eq_false, false_and, and_false, or_false, iff_false]
      rw [rank_other ha, rank_same hb]
      omega
    · rw [rank_other ha, rank_other hb]
      constructor
      · intro h
        exact .inr ⟨ha, hb, by omega⟩
      · rintro (rfl | ⟨-, -, h⟩)
        · rfl
        · rw [h]

theorem distance_zero (n : UInt16) : distance n 0 = n.toNat := by
  rw [distance, UInt16.toNat_zero]
  omega

/-- What answers a request for a certain version has its major number. -/
theorem major_of_compatible (h : a.compatibleWith target = true) (htarget : target ≠ unknown) :
    a.major = target.major := by
  have hknown : target.isUnknown = false := beq_eq_false_iff_ne.mpr htarget
  rw [compatibleWith, hknown, Bool.false_or, Bool.and_eq_true, beq_iff_eq] at h
  exact h.1

/-- For the unknown version the lower major number ranks higher, and those that are not zero count
alone. -/
theorem rank_unknown_le (h : b.major ≠ 0) :
    rank unknown a ≤ rank unknown b ↔ b.major ≤ a.major := by
  have ha := a.major.toNat_lt
  have hb := b.major.toNat_lt
  have hpos : b.major.toNat ≠ 0 := fun hzero => h (UInt16.toNat_inj.mp hzero)
  have hrank : rank unknown b = 65535 - b.major.toNat := by
    rw [← distance_zero]
    exact rank_other h
  rw [UInt16.le_iff_toNat_le, hrank]
  by_cases hzero : a.major = 0
  · have hrank' : rank unknown a = 65536 + a.number := rank_same hzero
    rw [hrank', hzero, UInt16.toNat_zero]
    omega
  · have hrank' : rank unknown a = 65535 - a.major.toNat := by
      rw [← distance_zero]
      exact rank_other hzero
    rw [hrank']
    omega

end AssemblyVersion

namespace AssemblyCache

/-! ## Registering in an order -/

/-- The cache after assemblies have been registered one after another. -/
def registering (g : Graph) (order : List AssemblyId) : AssemblyCache :=
  order.foldl (fun c a => c.register g a) empty

/-- The version that a request finds after assemblies have been registered in an order. -/
def versionFound (g : Graph) (required : AssemblyIdentity) (order : List AssemblyId) :
    Option AssemblyVersion :=
  ((registering g order).resolve g required).map fun a => (identityOf g a).version

section Scans

variable {g : Graph} {required : AssemblyIdentity} {order rest : List AssemblyId}
  {a : AssemblyId}

theorem registering_concat :
    registering g (order ++ [a]) = (registering g order).register g a := by
  rw [registering, List.foldl_append]
  rfl

/-- **A name's assemblies are filed in the order of registration.** -/
theorem bucket_registering (h : order.Nodup) (key : String) :
    (registering g order).bucket key = order.filter fun a => keyOf g a = key := by
  -- on the end of the list, which is what has been registered last
  induction order using List.reverseRecOn with
  | nil => rfl
  | append_singleton order a ih =>
    obtain ⟨horder, -, hnew⟩ := List.nodup_append.mp h
    have hfiled : a ∉ order.filter fun a => keyOf g a = key := fun ha =>
      hnew a (List.mem_of_mem_filter ha) a List.mem_cons_self rfl
    rw [registering_concat, bucket_register, ih horder, List.filter_append]
    by_cases hkey : keyOf g a = key
    · simp [hkey, hfiled]
    · simp [hkey]

theorem better_of_not_satisfies {best : Option AssemblyId}
    (h : (identityOf g a).satisfies required ≠ true) : better g required best a = best := by
  unfold better
  rw [if_neg h]

/-- **A request is a scan through everything registered, in the order of registration.** -/
theorem resolve_registering (h : order.Nodup) (required : AssemblyIdentity) :
    (registering g order).resolve g required = order.foldl (better g required) none := by
  rw [resolve, bucket_registering h, List.foldl_filter]
  congr 1
  funext best a
  split
  · rfl
  · next hkey =>
    -- what is filed under another name does not answer
    refine (better_of_not_satisfies fun hanswers => hkey ?_).symm
    exact decide_eq_true (keyOf_of_satisfies hanswers)

/-- The best so far stays while nothing closer comes. -/
theorem foldl_better_some (h : ∀ b ∈ rest, (identityOf g b).satisfies required = true →
      (identityOf g b).version.closerTo (identityOf g a).version required.version = false) :
    rest.foldl (better g required) (some a) = some a := by
  induction rest with
  | nil => rfl
  | cons b rest ih =>
    obtain ⟨hb, hrest⟩ := List.forall_mem_cons.mp h
    have hstays : better g required (some a) b = some a := by
      by_cases hanswers : (identityOf g b).satisfies required = true
      · simp [better, hb hanswers]
      · exact better_of_not_satisfies hanswers
    rw [List.foldl_cons, hstays, ih hrest]

end Scans

/-! ## What some order finds -/

/-- **An assembly of a set that answers a request, such that no other of them is closer.** -/
structure Closest (g : Graph) (required : AssemblyIdentity) (known : Finset AssemblyId)
    (a : AssemblyId) : Prop where
  mem : a ∈ known
  answers : (identityOf g a).satisfies required = true
  closest : ∀ b ∈ known, (identityOf g b).satisfies required = true →
    (identityOf g b).version.closerTo (identityOf g a).version required.version = false

section Orders

variable {g : Graph} {required : AssemblyIdentity} {known : Finset AssemblyId}
  {order order' : List AssemblyId} {a b : AssemblyId}

theorem best_registering (g : Graph) (required : AssemblyIdentity)
    (h : order.Perm known.toList) :
    Best g required order ((registering g order).resolve g required) := by
  have hnothing : Best g required [] none := by constructor <;> simp
  rw [resolve_registering (h.nodup_iff.mpr known.nodup_toList)]
  exact hnothing.foldl order

theorem Closest.of_found (h : order.Perm known.toList)
    (ha : (registering g order).resolve g required = some a) : Closest g required known a := by
  have hmem : ∀ b, b ∈ order ↔ b ∈ known := fun b => h.mem_iff.trans Finset.mem_toList
  have hbest := best_registering g required h
  exact ⟨(hmem a).mp (hbest.mem a ha), hbest.answers a ha,
    fun b hb => hbest.closest a ha b ((hmem b).mpr hb)⟩

/-- What is registered first is found if none is closer. -/
theorem Closest.found (h : Closest g required known a) :
    (registering g (a :: (known.erase a).toList)).resolve g required = some a := by
  have hnodup : (a :: (known.erase a).toList).Nodup :=
    List.nodup_cons.mpr ⟨by simp, Finset.nodup_toList _⟩
  rw [resolve_registering hnodup, List.foldl_cons]
  have hfirst : better g required none a = some a := by rw [better, if_pos h.answers]
  rw [hfirst]
  exact foldl_better_some fun b hb =>
    h.closest b (Finset.mem_of_mem_erase (Finset.mem_toList.mp hb))

theorem perm_first (h : a ∈ known) : (a :: (known.erase a).toList).Perm known.toList := by
  have hinsert := Finset.toList_insert (Finset.notMem_erase a known)
  rw [Finset.insert_erase h] at hinsert
  exact hinsert.symm

/-- **Each of the closest assemblies is found in some order of registration, and nothing else is.** -/
theorem found_iff_closest :
    (∃ order : List AssemblyId, order.Perm known.toList ∧
      (registering g order).resolve g required = some a) ↔ Closest g required known a := by
  constructor
  · rintro ⟨order, horder, ha⟩
    exact .of_found horder ha
  · intro h
    exact ⟨_, perm_first h.mem, h.found⟩

/-- Whether anything is found does not depend on the order. -/
theorem found_none (h : order.Perm known.toList) (h' : order'.Perm known.toList)
    (hnone : (registering g order).resolve g required = none) :
    (registering g order').resolve g required = none := by
  rw [Option.eq_none_iff_forall_not_mem]
  intro a ha
  have hbest := best_registering g required h'
  have hanswers := (best_registering g required h).nothing hnone a
    ((h.trans h'.symm).mem_iff.mpr (hbest.mem a ha))
  rw [hbest.answers a ha] at hanswers
  cases hanswers

/-! ## When the order matters -/

/-- **Two assemblies between which nothing but the order decides**: they answer a request for the
unknown version, both with the lowest major number of those that do, and it is not zero; and they
are of different versions. -/
structure Undecided (g : Graph) (required : AssemblyIdentity) (known : Finset AssemblyId)
    (a b : AssemblyId) : Prop where
  unknown : required.version = .unknown
  mem : a ∈ known
  mem' : b ∈ known
  answers : (identityOf g a).satisfies required = true
  answers' : (identityOf g b).satisfies required = true
  lowest : ∀ c ∈ known, (identityOf g c).satisfies required = true →
    (identityOf g a).version.major ≤ (identityOf g c).version.major
  major_eq : (identityOf g b).version.major = (identityOf g a).version.major
  major_ne : (identityOf g a).version.major ≠ 0
  version_ne : (identityOf g a).version ≠ (identityOf g b).version

theorem Closest.rank_le (h : Closest g required known a) (hb : b ∈ known)
    (hanswers : (identityOf g b).satisfies required = true) :
    AssemblyVersion.rank required.version (identityOf g b).version ≤
      AssemblyVersion.rank required.version (identityOf g a).version := by
  have hfarther := h.closest b hb hanswers
  rwa [← Bool.not_eq_true, AssemblyVersion.closerTo_iff, not_lt] at hfarther

theorem Undecided.closest (h : Undecided g required known a b) : Closest g required known a where
  mem := h.mem
  answers := h.answers
  closest c hc hanswers := by
    rw [← Bool.not_eq_true, AssemblyVersion.closerTo_iff, not_lt, h.unknown,
      AssemblyVersion.rank_unknown_le h.major_ne]
    exact h.lowest c hc hanswers

theorem Undecided.symm (h : Undecided g required known a b) : Undecided g required known b a where
  unknown := h.unknown
  mem := h.mem'
  mem' := h.mem
  answers := h.answers'
  answers' := h.answers
  lowest c hc hanswers := h.major_eq ▸ h.lowest c hc hanswers
  major_eq := h.major_eq.symm
  major_ne := h.major_eq ▸ h.major_ne
  version_ne := h.version_ne.symm

/-- **The closest assemblies are of one version, or nothing but the order decides.** -/
theorem Closest.undecided (ha : Closest g required known a) (hb : Closest g required known b)
    (hne : (identityOf g a).version ≠ (identityOf g b).version) :
    Undecided g required known a b := by
  have hrank := (hb.rank_le ha.mem ha.answers).antisymm (ha.rank_le hb.mem hb.answers)
  obtain ⟨hmajor, hmajor', hdistance⟩ := (AssemblyVersion.rank_eq_iff.mp hrank).resolve_left hne
  -- a certain version is answered within its major number, where a rank is one version's
  have hunknown : required.version = .unknown := by
    by_contra hcertain
    have hanswers := ha.answers
    simp only [AssemblyIdentity.satisfies, Bool.and_eq_true] at hanswers
    exact hmajor (AssemblyVersion.major_of_compatible hanswers.2 hcertain)
  rw [hunknown] at hmajor hmajor' hdistance
  have hmajors : (identityOf g a).version.major = (identityOf g b).version.major := by
    rw [AssemblyVersion.unknown, AssemblyVersion.distance_zero, AssemblyVersion.distance_zero]
      at hdistance
    exact UInt16.toNat_inj.mp hdistance
  refine ⟨hunknown, ha.mem, hb.mem, ha.answers, hb.answers, fun c hc hanswers => ?_, hmajors.symm,
    hmajor, hne⟩
  have hrank := ha.rank_le hc hanswers
  rwa [hunknown, AssemblyVersion.rank_unknown_le hmajor] at hrank

end Orders

/-- **The version that is found is the same in every order exactly if nothing is undecided.** -/
theorem versionFound_iff (g : Graph) (required : AssemblyIdentity) (known : Finset AssemblyId) :
    (∀ order order' : List AssemblyId, order.Perm known.toList → order'.Perm known.toList →
      versionFound g required order = versionFound g required order') ↔
      ¬ ∃ a b, Undecided g required known a b := by
  constructor
  · rintro hsame ⟨a, b, h⟩
    -- each of the two is found when it is registered first
    have hversions := hsame _ _ (perm_first h.mem) (perm_first h.mem')
    rw [versionFound, versionFound, h.closest.found, h.symm.closest.found] at hversions
    exact h.version_ne (Option.some.inj hversions)
  · intro hdecided order order' horder horder'
    rw [versionFound, versionFound]
    cases hfound : (registering g order).resolve g required with
    | none => rw [found_none horder horder' hfound]
    | some a =>
      cases hfound' : (registering g order').resolve g required with
      | none =>
        rw [found_none horder' horder hfound'] at hfound
        cases hfound
      | some b =>
        by_contra hne
        refine hdecided ⟨a, b, Closest.undecided (.of_found horder hfound)
          (.of_found horder' hfound') fun heq => hne ?_⟩
        rw [Option.map_some, Option.map_some, heq]

/-- **A request for the unknown version finds what was registered first** of two versions with one
major number. -/
theorem versionFound_swapped :
    let first := (makeAssembly ⟨"Lib", ⟨1, 0, 0, 0⟩, none, none⟩).run .empty
    let second := (makeAssembly ⟨"Lib", ⟨1, 5, 0, 0⟩, none, none⟩).run first.2
    let required : AssemblyIdentity := ⟨"Lib", .unknown, none, none⟩
    versionFound second.2 required [first.1, second.1] = some ⟨1, 0, 0, 0⟩ ∧
      versionFound second.2 required [second.1, first.1] = some ⟨1, 5, 0, 0⟩ := by
  decide +kernel

end AssemblyCache
end CliMetadata
