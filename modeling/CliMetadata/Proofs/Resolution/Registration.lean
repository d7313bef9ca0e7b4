import CliMetadata.AssemblyCache
import CliMetadata.Graph.InMemory
import CliMetadata.Proofs.Identity.Requests
import Mathlib.Data.Finset.Card

/-!
# What a cache of assemblies finds

A cache files assemblies under their names in lower case.  After any sequence of calls **the
assemblies filed under a name are the registered ones of that name, each once**
(`AssemblyCache.holds_after`), as long as no assembly has another name at a later call than
at an earlier one.  Two names are filed together exactly if they are equal up to case, so
the list that a request goes through has every registered assembly that answers it.

Going through that list, the best answer so far is kept.  What is dropped on the way ranks no
higher than what is kept, so none of the assemblies that answer the request is closer to it
than the one that is found (`AssemblyCache.resolve_registered`).
-/

namespace CliMetadata.AssemblyCache

/-! ## The lists of a cache -/

section Buckets

variable {c : AssemblyCache} {g : Graph} {a : AssemblyId} {key : String}

theorem bucket_register : (c.register g a).bucket key =
    if keyOf g a = key ∧ a ∉ c.bucket key then c.bucket key ++ [a] else c.bucket key := by
  by_cases hkey : keyOf g a = key
  · subst hkey
    by_cases hknown : a ∈ c.bucket (keyOf g a)
    · simp [register, hknown]
    · rw [if_pos ⟨rfl, hknown⟩, register, if_neg hknown, bucket, Assoc.get?_set_same]
      rfl
  · rw [if_neg fun h => hkey h.1, register]
    split
    · rfl
    · rw [bucket, Assoc.get?_set_other _ _ hkey, bucket]

theorem bucket_unregister : (c.unregister g a).2.bucket key =
    if keyOf g a = key then (c.bucket key).filter (· != a) else c.bucket key := by
  by_cases hkey : keyOf g a = key
  · subst hkey
    rw [if_pos rfl]
    by_cases hknown : a ∈ c.bucket (keyOf g a)
    · rw [unregister, if_pos hknown]
      split
      · next hrest =>
        rw [bucket, Assoc.get?_erase, if_pos rfl, hrest]
        rfl
      · rw [bucket, Assoc.get?_set_same]
        rfl
    · rw [unregister, if_neg hknown, List.filter_eq_self.mpr]
      intro b hb
      exact bne_iff_ne.mpr fun hba => hknown (hba ▸ hb)
  · rw [if_neg hkey, unregister]
    split
    · split
      · rw [bucket, Assoc.get?_erase, if_neg hkey, bucket]
      · rw [bucket, Assoc.get?_set_other _ _ hkey, bucket]
    · rfl

theorem unregister_eq_true_iff : (c.unregister g a).1 = true ↔ a ∈ c.bucket (keyOf g a) := by
  rw [unregister]
  split
  · next hknown =>
    simp only [hknown, iff_true]
    split <;> rfl
  · next hknown => simp [hknown]

theorem nodup_keys_register (h : c.buckets.keys.Nodup) :
    (c.register g a).buckets.keys.Nodup := by
  rw [register]
  split
  · exact h
  · exact Assoc.nodup_keys_set h _ _

theorem nodup_keys_unregister (h : c.buckets.keys.Nodup) :
    (c.unregister g a).2.buckets.keys.Nodup := by
  rw [unregister]
  split
  · split
    · exact Assoc.nodup_keys_erase h _
    · exact Assoc.nodup_keys_set h _ _
  · exact h

end Buckets

/-! ## Calls -/

/-- A call that changes what is registered. -/
inductive Call where
  | register (a : AssemblyId)
  | unregister (a : AssemblyId)

namespace Call

/-- The assembly that a call is about. -/
def assembly : Call → AssemblyId
  | register a => a
  | unregister a => a

/-- The cache after a call. -/
def apply (c : AssemblyCache) (g : Graph) : Call → AssemblyCache
  | register a => c.register g a
  | unregister a => (c.unregister g a).2

/-- What is registered after a call. -/
def track (known : Finset AssemblyId) : Call → Finset AssemblyId
  | register a => insert a known
  | unregister a => known.erase a

end Call

/-- The cache after calls in order, each made in a graph of its own time. -/
def after (calls : List (Graph × Call)) : AssemblyCache :=
  calls.foldl (fun c call => call.2.apply c call.1) empty

/-- What is registered after calls in order. -/
def registered (calls : List (Graph × Call)) : Finset AssemblyId :=
  calls.foldl (fun known call => call.2.track known) ∅

/-- No assembly of a call has had another name then. -/
def Unrenamed (g : Graph) (calls : List (Graph × Call)) : Prop :=
  ∀ call ∈ calls,
    (identityOf call.1 call.2.assembly).name = (identityOf g call.2.assembly).name

instance (g : Graph) (calls : List (Graph × Call)) : Decidable (Unrenamed g calls) :=
  List.decidableBAll _ calls

/-- A cache holds assemblies: each is filed under its name, once, and nothing else is. -/
structure Holds (g : Graph) (c : AssemblyCache) (known : Finset AssemblyId) : Prop where
  keys : c.buckets.keys.Nodup
  nodup : ∀ key, (c.bucket key).Nodup
  mem : ∀ key a, a ∈ c.bucket key ↔ a ∈ known ∧ keyOf g a = key

section Holding

variable {g g₀ : Graph} {c : AssemblyCache} {known : Finset AssemblyId} {a : AssemblyId}

theorem Holds.register (h : Holds g c known) (hname : keyOf g₀ a = keyOf g a) :
    Holds g (c.register g₀ a) (insert a known) where
  keys := nodup_keys_register h.keys
  nodup key := by
    rw [bucket_register]
    split
    · next hnew => exact List.nodup_append_comm.mp (List.nodup_cons.mpr ⟨hnew.2, h.nodup key⟩)
    · exact h.nodup key
  mem key b := by
    rw [bucket_register, hname, Finset.mem_insert]
    by_cases hb : b = a
    · subst hb
      have hbucket := h.mem key b
      split <;> simp_all
    · split <;> simp [h.mem key b, hb]

theorem Holds.unregister (h : Holds g c known) (hname : keyOf g₀ a = keyOf g a) :
    Holds g (c.unregister g₀ a).2 (known.erase a) where
  keys := nodup_keys_unregister h.keys
  nodup key := by
    rw [bucket_unregister]
    split
    · exact (h.nodup key).filter _
    · exact h.nodup key
  mem key b := by
    rw [bucket_unregister, hname, Finset.mem_erase]
    by_cases hb : b = a
    · subst hb
      have hbucket := h.mem key b
      split <;> simp_all
    · split <;> simp [h.mem key b, hb]

theorem Holds.apply {call : Call} (h : Holds g c known)
    (hname : keyOf g₀ call.assembly = keyOf g call.assembly) :
    Holds g (call.apply c g₀) (call.track known) := by
  cases call with
  | register a => exact h.register hname
  | unregister a => exact h.unregister hname

theorem Holds.foldl {calls : List (Graph × Call)} (h : Holds g c known)
    (hcalls : Unrenamed g calls) :
    Holds g (calls.foldl (fun c call => call.2.apply c call.1) c)
      (calls.foldl (fun known call => call.2.track known) known) := by
  induction calls generalizing c known with
  | nil => exact h
  | cons call calls ih =>
    obtain ⟨hcall, hcalls⟩ := List.forall_mem_cons.mp hcalls
    exact ih (h.apply (congrArg Text.Ascii.lower hcall)) hcalls

/-- **After any calls the cache holds what has been registered.** -/
theorem holds_after {calls : List (Graph × Call)} (h : Unrenamed g calls) :
    Holds g (after calls) (registered calls) :=
  Holds.foldl ⟨List.nodup_nil, fun _ => List.nodup_nil, fun _ _ => by simp [bucket, empty]⟩ h

/-! ## What is held -/

theorem Holds.mem_assemblies (h : Holds g c known) : a ∈ c.assemblies ↔ a ∈ known := by
  rw [assemblies, List.mem_flatMap]
  constructor
  · rintro ⟨⟨key, filed⟩, hentry, ha⟩
    have hfiled : c.bucket key = filed := by
      rw [bucket, (Assoc.mem_entries_iff h.keys _ _).mp hentry, Option.getD_some]
    rw [← hfiled] at ha
    exact ((h.mem key a).mp ha).1
  · intro ha
    have hfiled : a ∈ c.bucket (keyOf g a) := (h.mem _ a).mpr ⟨ha, rfl⟩
    rw [bucket] at hfiled
    cases hentry : c.buckets.get? (keyOf g a) with
    | none => simp [hentry] at hfiled
    | some filed =>
      rw [hentry] at hfiled
      exact ⟨⟨keyOf g a, filed⟩, (Assoc.mem_entries_iff h.keys _ _).mpr hentry, hfiled⟩

theorem Holds.nodup_assemblies (h : Holds g c known) : c.assemblies.Nodup := by
  have hfiled : ∀ entry ∈ c.buckets.entries, c.bucket entry.1 = entry.2 := fun entry hentry => by
    rw [bucket, (Assoc.mem_entries_iff h.keys _ _).mp hentry, Option.getD_some]
  rw [assemblies, List.nodup_flatMap]
  refine ⟨fun entry hentry => hfiled entry hentry ▸ h.nodup entry.1, ?_⟩
  refine (List.pairwise_map.mp h.keys).imp_of_mem fun {entry entry'} hentry hentry' hne => ?_
  intro a (ha : a ∈ entry.2) (ha' : a ∈ entry'.2)
  rw [← hfiled entry hentry] at ha
  rw [← hfiled entry' hentry'] at ha'
  exact hne (((h.mem _ a).mp ha).2.symm.trans ((h.mem _ a).mp ha').2)

theorem Holds.size_eq (h : Holds g c known) : c.size = known.card := by
  have hknown : c.assemblies.toFinset = known := by
    ext a
    rw [List.mem_toFinset, h.mem_assemblies]
  rw [size, ← hknown, List.toFinset_card_of_nodup h.nodup_assemblies]

/-- What answers a request is filed under the name that is asked for. -/
theorem keyOf_of_satisfies {required : AssemblyIdentity}
    (ha : (identityOf g a).satisfies required = true) :
    keyOf g a = Text.Ascii.lower required.name := by
  simp only [AssemblyIdentity.satisfies, Bool.and_eq_true] at ha
  exact Text.Ascii.lower_eq_iff.mpr ha.1.1.1

/-- A request goes through every held assembly that answers it. -/
theorem Holds.mem_bucket_iff (h : Holds g c known) {required : AssemblyIdentity}
    (ha : (identityOf g a).satisfies required = true) :
    a ∈ c.bucket (Text.Ascii.lower required.name) ↔ a ∈ known := by
  rw [h.mem, and_iff_left (keyOf_of_satisfies ha)]

end Holding

/-! ## Scanning -/

/-- What a scan has found among the assemblies it has seen. -/
structure Best (g : Graph) (required : AssemblyIdentity) (seen : List AssemblyId)
    (best : Option AssemblyId) : Prop where
  nothing : best = none → ∀ b ∈ seen, (identityOf g b).satisfies required = false
  mem : ∀ a ∈ best, a ∈ seen
  answers : ∀ a ∈ best, (identityOf g a).satisfies required = true
  closest : ∀ a ∈ best, ∀ b ∈ seen, (identityOf g b).satisfies required = true →
    (identityOf g b).version.closerTo (identityOf g a).version required.version = false

section Scanning

variable {g : Graph} {required : AssemblyIdentity} {seen : List AssemblyId}
  {best : Option AssemblyId}

/-- A candidate that answers and is closer than the best so far takes its place. -/
theorem Best.take {a : AssemblyId} (h : Best g required seen best)
    (ha : (identityOf g a).satisfies required = true)
    (hcloser : ∀ b ∈ best, (identityOf g a).version.closerTo (identityOf g b).version
      required.version = true) : Best g required (seen ++ [a]) (some a) where
  nothing hnone := by cases hnone
  mem := by
    rintro _ ⟨⟩
    exact List.mem_append_right _ List.mem_cons_self
  answers := by
    rintro _ ⟨⟩
    exact ha
  closest := by
    rintro _ ⟨⟩ b hb hanswers
    rw [← Bool.not_eq_true, AssemblyVersion.closerTo_iff, not_lt]
    rcases List.mem_append.mp hb with hb | hb
    · cases best with
      | none =>
        rw [h.nothing rfl b hb] at hanswers
        cases hanswers
      | some a₀ =>
        -- the rank of the one before lies between
        have hbefore := h.closest a₀ rfl b hb hanswers
        have hnow := AssemblyVersion.closerTo_iff.mp (hcloser a₀ rfl)
        rw [← Bool.not_eq_true, AssemblyVersion.closerTo_iff, not_lt] at hbefore
        exact hbefore.trans hnow.le
    · rw [List.mem_singleton.mp hb]

/-- A candidate that does not answer, or is not closer, is passed over. -/
theorem Best.pass {a : AssemblyId} (h : Best g required seen best)
    (ha : (identityOf g a).satisfies required = true → ∃ b ∈ best,
      (identityOf g a).version.closerTo (identityOf g b).version required.version = false) :
    Best g required (seen ++ [a]) best where
  nothing hnone b hb := by
    rcases List.mem_append.mp hb with hb | hb
    · exact h.nothing hnone b hb
    · rw [List.mem_singleton.mp hb, ← Bool.not_eq_true]
      intro hanswers
      obtain ⟨a₀, hbest, -⟩ := ha hanswers
      rw [hnone] at hbest
      cases hbest
  mem b hb := List.mem_append_left _ (h.mem b hb)
  answers := h.answers
  closest a₀ hbest b hb hanswers := by
    rcases List.mem_append.mp hb with hb | hb
    · exact h.closest a₀ hbest b hb hanswers
    · obtain rfl := List.mem_singleton.mp hb
      obtain ⟨a₁, hbest₁, hfarther⟩ := ha hanswers
      rwa [Option.mem_unique hbest hbest₁]

theorem Best.better (h : Best g required seen best) (a : AssemblyId) :
    Best g required (seen ++ [a]) (AssemblyCache.better g required best a) := by
  unfold AssemblyCache.better
  by_cases ha : (identityOf g a).satisfies required = true
  · rw [if_pos ha]
    cases best with
    | none => exact h.take ha nofun
    | some b =>
      dsimp only
      split
      · next hcloser =>
        refine h.take ha ?_
        rintro _ ⟨⟩
        exact hcloser
      · next hfarther => exact h.pass fun _ => ⟨b, rfl, Bool.eq_false_iff.mpr hfarther⟩
  · rw [if_neg ha]
    exact h.pass fun hanswers => absurd hanswers ha

theorem Best.foldl (h : Best g required seen best) (rest : List AssemblyId) :
    Best g required (seen ++ rest) (rest.foldl (AssemblyCache.better g required) best) := by
  induction rest generalizing seen best with
  | nil => simpa using h
  | cons a rest ih =>
    rw [List.append_cons, List.foldl_cons]
    exact ih (h.better a)

/-- **What is found is the best of the list that is gone through.** -/
theorem resolve_best (c : AssemblyCache) (g : Graph) (required : AssemblyIdentity) :
    Best g required (c.bucket (Text.Ascii.lower required.name)) (c.resolve g required) := by
  have hnothing : Best g required [] none := by constructor <;> simp
  exact hnothing.foldl _

end Scanning

/-! ## What is found -/

/-- **A cache finds what is registered.**  After any calls, as long as no assembly has been
renamed between them: a request finds nothing exactly if no registered assembly answers it,
and otherwise one that does, such that no other is closer; removing says whether the assembly
was registered; the size counts the registered assemblies; and each of them has something to
be found under its own identity. -/
theorem resolve_registered {g : Graph} {calls : List (Graph × Call)} (h : Unrenamed g calls) :
    (∀ required : AssemblyIdentity,
      ((after calls).resolve g required = none ↔
        ∀ b ∈ registered calls, (identityOf g b).satisfies required = false) ∧
      ∀ a, (after calls).resolve g required = some a →
        a ∈ registered calls ∧ (identityOf g a).satisfies required = true ∧
        ∀ b ∈ registered calls, (identityOf g b).satisfies required = true →
          (identityOf g b).version.closerTo (identityOf g a).version required.version = false) ∧
    (∀ a, ((after calls).unregister g a).1 = true ↔ a ∈ registered calls) ∧
    (after calls).size = (registered calls).card ∧
    ∀ a ∈ registered calls, (after calls).resolve g (identityOf g a) ≠ none := by
  have hheld := holds_after h
  have hnone : ∀ required, (after calls).resolve g required = none ↔
      ∀ b ∈ registered calls, (identityOf g b).satisfies required = false := by
    intro required
    have hbest := resolve_best (after calls) g required
    constructor
    · intro hnone b hb
      by_contra hanswers
      rw [Bool.not_eq_false] at hanswers
      rw [hbest.nothing hnone b ((hheld.mem_bucket_iff hanswers).mpr hb)] at hanswers
      cases hanswers
    · intro hall
      rw [Option.eq_none_iff_forall_not_mem]
      intro a ha
      have hanswers := hbest.answers a ha
      rw [hall a ((hheld.mem_bucket_iff hanswers).mp (hbest.mem a ha))] at hanswers
      cases hanswers
  refine ⟨fun required => ⟨hnone required, fun a ha => ?_⟩, fun a => ?_, hheld.size_eq,
    fun a ha hfound => ?_⟩
  · have hbest := resolve_best (after calls) g required
    have hanswers := hbest.answers a ha
    refine ⟨(hheld.mem_bucket_iff hanswers).mp (hbest.mem a ha), hanswers, fun b hb hb' => ?_⟩
    exact hbest.closest a ha b ((hheld.mem_bucket_iff hb').mpr hb) hb'
  · rw [unregister_eq_true_iff, hheld.mem, and_iff_left rfl]
  · have hself := (hnone _).mp hfound a ha
    rw [AssemblyIdentity.satisfies_self] at hself
    cases hself

/-- Two versions under names that differ in case, one of them removed and registered anew. -/
theorem resolve_twoVersions :
    let first := (makeAssembly ⟨"Lib", ⟨2, 0, 0, 0⟩, none, none⟩).run .empty
    let second := (makeAssembly ⟨"LIB", ⟨2, 5, 0, 0⟩, none, none⟩).run first.2
    let calls : List (Graph × Call) :=
      [(first.2, .register first.1), (second.2, .register second.1),
        (second.2, .register second.1), (second.2, .unregister first.1),
        (second.2, .register first.1)]
    Unrenamed second.2 calls ∧ (after calls).size = 2 ∧
      (after calls).resolve second.2 ⟨"lib", ⟨2, 1, 0, 0⟩, none, none⟩ = some second.1 ∧
      (after calls).resolve second.2 ⟨"lib", ⟨2, 9, 0, 0⟩, none, none⟩ = none := by
  intro first second calls
  have hcalls : Unrenamed second.2 calls := by decide +kernel
  obtain ⟨hresolve, -, hsize, -⟩ := resolve_registered hcalls
  have hregistered : registered calls = {first.1, second.1} := by decide +kernel
  refine ⟨hcalls, hsize.trans (by decide +kernel), by decide +kernel, ?_⟩
  rw [(hresolve _).1, hregistered]
  decide +kernel

end CliMetadata.AssemblyCache
