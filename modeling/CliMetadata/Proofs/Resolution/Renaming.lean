import CliMetadata.Proofs.Graph.Later
import CliMetadata.Proofs.Resolution.Registration

/-!
# Assemblies that are renamed while they are registered

A cache reads the name of an assembly anew at each call about it, and the name may have
changed since the assembly was registered.  Then the call goes to another list than the one
that the assembly is in: removing it finds nothing, and registering it files it a second time.

What a cache holds after any calls and renamings is therefore a set of **filings**, each an
assembly with the name of the time when it was registered (`AssemblyCache.files_run`).
Removing takes away the filing under the present name and no other, and so **an assembly that
is removed is forgotten exactly if it was filed under no name but its present one**
(`AssemblyCache.forgotten_iff_filed`); otherwise it is still counted, and renamings are enough
for a request to find it again.  An assembly that is renamed only while it is not filed is
always filed under its present name alone (`AssemblyCache.filed_now`).
-/

namespace CliMetadata.AssemblyCache

/-! ## Calls and renamings -/

/-- A graph with a cache of its assemblies. -/
structure Session where
  graph : Graph
  cache : AssemblyCache

/-- What happens in a session: a call of the cache, or an assembly gets another identity. -/
inductive Event where
  | call (call : Call)
  | identify (a : AssemblyId) (identity : AssemblyIdentity)

namespace Session

/-- The session with an empty cache. -/
def start (g : Graph) : Session := ⟨g, empty⟩

/-- The session after an event. -/
def next (s : Session) : Event → Session
  | .call c => { s with cache := c.apply s.cache s.graph }
  | .identify a identity =>
    { s with graph := s.graph.update a fun e => { e with identity := identity } }

/-- The session after events in order. -/
def run (s : Session) (events : List Event) : Session := events.foldl next s

theorem run_append (s : Session) (events later : List Event) :
    s.run (events ++ later) = (s.run events).run later := List.foldl_append

/-- Nothing of an assembly is left, nor comes back by any events other than registering it:
it is not among the assemblies that are counted, and no request finds it. -/
def Forgets (s : Session) (a : AssemblyId) : Prop :=
  ∀ events, Event.call (.register a) ∉ events →
    a ∉ (s.run events).cache.assemblies ∧
    ∀ required, (s.run events).cache.resolve (s.run events).graph required ≠ some a

end Session

/-- What is filed after an event, each assembly under the name of its time. -/
def Event.file (g : Graph) (filed : Finset (String × AssemblyId)) :
    Event → Finset (String × AssemblyId)
  | call (.register a) => insert (keyOf g a, a) filed
  | call (.unregister a) => filed.erase (keyOf g a, a)
  | identify _ _ => filed

/-- What is filed after events in order. -/
def filings (s : Session) (filed : Finset (String × AssemblyId)) :
    List Event → Finset (String × AssemblyId)
  | [] => filed
  | event :: events => filings (s.next event) (event.file s.graph filed) events

/-! ## What is filed is what the cache lists -/

/-- A cache lists what is filed, each filing once. -/
structure Files (c : AssemblyCache) (filed : Finset (String × AssemblyId)) : Prop where
  keys : c.buckets.keys.Nodup
  nodup : ∀ key, (c.bucket key).Nodup
  mem : ∀ key a, a ∈ c.bucket key ↔ (key, a) ∈ filed
  /-- What something is filed under is the lower case of a name. -/
  named : ∀ key a, (key, a) ∈ filed → ∃ name, Text.Ascii.lower name = key

section Filing

variable {c : AssemblyCache} {g : Graph} {s : Session} {a : AssemblyId}
  {filed : Finset (String × AssemblyId)}

theorem Files.register (h : Files c filed) :
    Files (c.register g a) (insert (keyOf g a, a) filed) where
  keys := nodup_keys_register h.keys
  nodup key := by
    rw [bucket_register]
    split
    · next hnew => exact List.nodup_append_comm.mp (List.nodup_cons.mpr ⟨hnew.2, h.nodup key⟩)
    · exact h.nodup key
  mem key b := by
    rw [bucket_register, Finset.mem_insert, Prod.mk.injEq, ← h.mem]
    by_cases hkey : keyOf g a = key
    · by_cases hknown : a ∈ c.bucket key
      · simp only [hkey, hknown, not_true_eq_false, and_false, if_false, true_and]
        exact ⟨Or.inr, fun hb => hb.elim (fun hba => hba ▸ hknown) id⟩
      · simp [hkey, hknown, or_comm]
    · simp [hkey, Ne.symm hkey]
  named key b hb := by
    rcases Finset.mem_insert.mp hb with hb | hb
    · exact ⟨(identityOf g a).name, (congrArg Prod.fst hb).symm⟩
    · exact h.named key b hb

theorem Files.unregister (h : Files c filed) :
    Files (c.unregister g a).2 (filed.erase (keyOf g a, a)) where
  keys := nodup_keys_unregister h.keys
  nodup key := by
    rw [bucket_unregister]
    split
    · exact (h.nodup key).filter _
    · exact h.nodup key
  mem key b := by
    rw [bucket_unregister, Finset.mem_erase, ← h.mem]
    by_cases hkey : keyOf g a = key
    · simp [hkey, and_comm]
    · simp [hkey, Ne.symm hkey]
  named key b hb := h.named key b (Finset.mem_of_mem_erase hb)

theorem Files.next (h : Files s.cache filed) (event : Event) :
    Files (s.next event).cache (event.file s.graph filed) := by
  cases event with
  | call call =>
    cases call with
    | register a => exact h.register
    | unregister a => exact h.unregister
  | identify a identity => exact h

/-- **After any events the cache lists what they have filed.** -/
theorem files_run (h : Files s.cache filed) (events : List Event) :
    Files (s.run events).cache (filings s filed events) := by
  induction events generalizing s filed with
  | nil => exact h
  | cons event events ih => exact ih (h.next event)

theorem files_start (g : Graph) : Files (Session.start g).cache ∅ :=
  ⟨List.nodup_nil, fun _ => List.nodup_nil, by simp [bucket, Session.start, empty], by simp⟩

/-! ## Counting -/

/-- Every name with each assembly that is listed under it. -/
def listed (c : AssemblyCache) : List (String × AssemblyId) :=
  c.buckets.entries.flatMap fun entry => entry.2.map (entry.1, ·)

theorem listed_assemblies (c : AssemblyCache) : c.listed.map (·.2) = c.assemblies := by
  simp [listed, assemblies, List.map_flatMap, Function.comp_def]

theorem Files.bucket_entry (h : Files c filed) {entry : String × List AssemblyId}
    (hentry : entry ∈ c.buckets.entries) : c.bucket entry.1 = entry.2 := by
  rw [bucket, (Assoc.mem_entries_iff h.keys _ _).mp hentry, Option.getD_some]

theorem Files.mem_listed (h : Files c filed) {filing : String × AssemblyId} :
    filing ∈ c.listed ↔ filing ∈ filed := by
  obtain ⟨key, a⟩ := filing
  rw [← h.mem, listed, List.mem_flatMap]
  constructor
  · rintro ⟨entry, hentry, ha⟩
    obtain ⟨b, hb, ⟨⟩⟩ := List.mem_map.mp ha
    rwa [h.bucket_entry hentry]
  · intro ha
    rw [bucket] at ha
    cases hentry : c.buckets.get? key with
    | none => simp [hentry] at ha
    | some known =>
      rw [hentry] at ha
      exact ⟨(key, known), (Assoc.mem_entries_iff h.keys _ _).mpr hentry,
        List.mem_map.mpr ⟨a, ha, rfl⟩⟩

theorem Files.nodup_listed (h : Files c filed) : c.listed.Nodup := by
  rw [listed, List.nodup_flatMap]
  refine ⟨fun entry hentry => ?_, (List.pairwise_map.mp h.keys).imp fun hne => ?_⟩
  · exact (h.bucket_entry hentry ▸ h.nodup entry.1).map fun _ _ heq => congrArg Prod.snd heq
  · refine List.disjoint_left.mpr fun filing hfiling hfiling' => ?_
    obtain ⟨_, _, rfl⟩ := List.mem_map.mp hfiling
    obtain ⟨_, _, heq⟩ := List.mem_map.mp hfiling'
    exact hne (congrArg Prod.fst heq).symm

/-- **The size counts the filings.** -/
theorem Files.size_eq (h : Files c filed) : c.size = filed.card := by
  have hlisted : c.listed.toFinset = filed := by
    ext filing
    rw [List.mem_toFinset, h.mem_listed]
  rw [size, ← listed_assemblies, List.length_map, ← hlisted,
    List.toFinset_card_of_nodup h.nodup_listed]

theorem Files.mem_assemblies (h : Files c filed) : a ∈ c.assemblies ↔ ∃ key, (key, a) ∈ filed := by
  simp [← listed_assemblies, h.mem_listed]

/-! ## Forgetting -/

/-- What is not filed stays so until it is registered. -/
theorem unfiled_run {events : List Event} (h : ∀ key, (key, a) ∉ filed)
    (hevents : Event.call (.register a) ∉ events) (key : String) :
    (key, a) ∉ filings s filed events := by
  induction events generalizing s filed with
  | nil => exact h key
  | cons event events ih =>
    rw [List.mem_cons, not_or] at hevents
    obtain ⟨hevent, hevents⟩ := hevents
    refine ih (fun key => ?_) hevents
    cases event with
    | call call =>
      cases call with
      | register b =>
        rw [Event.file, Finset.mem_insert, not_or, Prod.mk.injEq]
        refine ⟨fun hb => hevent ?_, h key⟩
        rw [hb.2]
      | unregister b => exact fun hmem => h key (Finset.mem_of_mem_erase hmem)
    | identify b identity => exact h key

theorem Files.forgets (h : Files s.cache filed) (ha : ∀ key, (key, a) ∉ filed) : s.Forgets a := by
  intro events hevents
  have hfiled := files_run h events
  have hnone := unfiled_run (s := s) ha hevents
  refine ⟨fun hmem => ?_, fun required hfound => ?_⟩
  · obtain ⟨key, hkey⟩ := hfiled.mem_assemblies.mp hmem
    exact hnone key hkey
  · have hlisted := (resolve_best (s.run events).cache (s.run events).graph required).mem a hfound
    exact hnone _ ((hfiled.mem _ _).mp hlisted)

/-! ## Finding again -/

theorem identityOf_identify (identity : AssemblyIdentity) (b : AssemblyId) :
    identityOf (s.next (.identify a identity)).graph b =
      if b = a then identity else identityOf s.graph b := by
  split
  · next hb =>
    subst hb
    rw [identityOf, Session.next, Graph.update, Graph.get_put]
  · next hb =>
    have hnode : a.node ≠ b.node := fun h => hb (congrArg (fun n => (⟨n.key⟩ : AssemblyId)) h.symm)
    rw [identityOf, identityOf, Session.next, Graph.update, Graph.get_congr b
      (Index.get?_set_other _ _ hnode) (Graph.loader?_put (by decide) _ _)]

/-- Assemblies that all get one identity. -/
theorem run_identify (bs : List AssemblyId) (identity : AssemblyIdentity) :
    (s.run (bs.map (.identify · identity))).cache = s.cache ∧
    ∀ b, identityOf (s.run (bs.map (.identify · identity))).graph b =
      if b ∈ bs then identity else identityOf s.graph b := by
  induction bs generalizing s with
  | nil => exact ⟨rfl, fun b => by simp [Session.run]⟩
  | cons a bs ih =>
    obtain ⟨hcache, hidentity⟩ := ih (s := s.next (.identify a identity))
    refine ⟨hcache, fun b => ?_⟩
    refine (hidentity b).trans ?_
    rw [identityOf_identify]
    by_cases hb : b = a <;> by_cases hbs : b ∈ bs <;> simp [hb, hbs]

/-- **Renamings are enough for a request to find what is filed**: everything listed beside it
gets an identity that does not answer. -/
theorem Files.found_again (h : Files s.cache filed) {key : String} (ha : (key, a) ∈ filed) :
    ∃ renamings required, (∀ event ∈ renamings, ∃ b identity, event = .identify b identity) ∧
      (s.run renamings).cache = s.cache ∧
      (s.run renamings).cache.resolve (s.run renamings).graph required = some a := by
  obtain ⟨name, rfl⟩ := h.named key a ha
  have hlisted : a ∈ s.cache.bucket (Text.Ascii.lower name) := (h.mem _ _).mpr ha
  let required : AssemblyIdentity := ⟨name, .unknown, none, none⟩
  let elsewhere : AssemblyIdentity := ⟨name, .unknown, some "", none⟩
  have helsewhere : elsewhere.satisfies required = false := by
    simp [elsewhere, required, AssemblyIdentity.satisfies, AssemblyIdentity.sameCulture]
  let others : List Event := (s.cache.bucket (Text.Ascii.lower name)).map (.identify · elsewhere)
  obtain ⟨hcache, hidentity⟩ :=
    run_identify (s := s) (s.cache.bucket (Text.Ascii.lower name)) elsewhere
  have hrun : s.run (others ++ [.identify a required]) =
      (s.run others).next (.identify a required) := s.run_append _ _
  have hcache' : (s.run (others ++ [.identify a required])).cache = s.cache := by
    rw [hrun]
    exact hcache
  refine ⟨others ++ [.identify a required], required, fun event hevent => ?_, hcache', ?_⟩
  · rcases List.mem_append.mp hevent with hevent | hevent
    · obtain ⟨b, -, rfl⟩ := List.mem_map.mp hevent
      exact ⟨b, elsewhere, rfl⟩
    · exact ⟨a, required, List.mem_singleton.mp hevent⟩
  · have hnow : ∀ b ∈ s.cache.bucket (Text.Ascii.lower name),
        identityOf (s.run (others ++ [.identify a required])).graph b =
          if b = a then required else elsewhere := by
      intro b hb
      rw [hrun, identityOf_identify, hidentity b, if_pos hb]
    have hbest := resolve_best (s.run (others ++ [.identify a required])).cache
      (s.run (others ++ [.identify a required])).graph required
    rw [hcache'] at hbest
    rw [hcache']
    cases hfound : s.cache.resolve (s.run (others ++ [.identify a required])).graph required with
    | none =>
      have hanswers := hbest.nothing hfound a hlisted
      rw [hnow a hlisted, if_pos rfl, AssemblyIdentity.satisfies_self] at hanswers
      cases hanswers
    | some b =>
      have hb := hbest.mem b hfound
      by_contra hne
      have hanswers := hbest.answers b hfound
      rw [hnow b hb, if_neg fun hba => hne (congrArg some hba), helsewhere] at hanswers
      cases hanswers

end Filing

/-! ## What a removal leaves -/

/-- **An assembly that is removed is forgotten exactly if it was filed under no name but its
present one.**  After any events: the size counts the filings; removing says whether there was
a filing under the present name; where there was one under another name, the assembly is still
counted and renamings are enough for a request to find it; and registering it files it anew
unless it is filed under its present name. -/
theorem forgotten_iff_filed (g : Graph) (events : List Event) (a : AssemblyId) :
    let s := (Session.start g).run events
    let filed := filings (Session.start g) ∅ events
    let removed := s.next (.call (.unregister a))
    s.cache.size = filed.card ∧
    ((s.cache.unregister s.graph a).1 = true ↔ (keyOf s.graph a, a) ∈ filed) ∧
    (removed.Forgets a ↔ ∀ key, (key, a) ∈ filed → key = keyOf s.graph a) ∧
    (∀ key, (key, a) ∈ filed → key ≠ keyOf s.graph a →
      a ∈ removed.cache.assemblies ∧ ∃ renamings required,
        (∀ event ∈ renamings, ∃ b identity, event = .identify b identity) ∧
        (removed.run renamings).cache.resolve (removed.run renamings).graph required = some a) ∧
    (s.cache.register s.graph a).size =
      s.cache.size + if (keyOf s.graph a, a) ∈ filed then 0 else 1 := by
  intro s filed removed
  have hfiled : Files s.cache filed := files_run (files_start g) events
  have hremoved : Files removed.cache (filed.erase (keyOf s.graph a, a)) := hfiled.unregister
  have hstays : ∀ key, (key, a) ∈ filed → key ≠ keyOf s.graph a →
      (key, a) ∈ filed.erase (keyOf s.graph a, a) := fun key hkey hne =>
    Finset.mem_erase.mpr ⟨fun heq => hne (congrArg Prod.fst heq), hkey⟩
  refine ⟨hfiled.size_eq, ?_, ⟨fun hforgets key hkey => ?_, fun hnow => ?_⟩,
    fun key hkey hne => ⟨?_, ?_⟩, ?_⟩
  · rw [unregister_eq_true_iff, hfiled.mem]
  · by_contra hne
    exact (hforgets [] List.not_mem_nil).1 (hremoved.mem_assemblies.mpr ⟨key, hstays key hkey hne⟩)
  · refine hremoved.forgets fun key hmem => ?_
    obtain ⟨hne, hkey⟩ := Finset.mem_erase.mp hmem
    exact hne (congrArg (·, a) (hnow key hkey))
  · exact hremoved.mem_assemblies.mpr ⟨key, hstays key hkey hne⟩
  · obtain ⟨renamings, required, honly, -, hfound⟩ := hremoved.found_again (hstays key hkey hne)
    exact ⟨renamings, required, honly, hfound⟩
  · rw [hfiled.register.size_eq, hfiled.size_eq]
    split
    · next hknown => rw [Finset.insert_eq_of_mem hknown, Nat.add_zero]
    · next hnew => rw [Finset.card_insert_of_notMem hnew]

/-- An assembly that is renamed after it was registered: removing it finds nothing and leaves
it counted, a request finds it once it has its first name again, and registering it instead
files it a second time. -/
theorem remembered_renamed :
    let lib := (makeAssembly ⟨"Lib", ⟨1, 0, 0, 0⟩, none, none⟩).run .empty
    let renamed := (Session.start lib.2).run
      [.call (.register lib.1), .identify lib.1 ⟨"Other", ⟨1, 0, 0, 0⟩, none, none⟩]
    let removed := renamed.next (.call (.unregister lib.1))
    let back := removed.next (.identify lib.1 ⟨"Lib", ⟨1, 0, 0, 0⟩, none, none⟩)
    (renamed.cache.unregister renamed.graph lib.1).1 = false ∧ removed.cache.size = 1 ∧
      back.cache.resolve back.graph ⟨"lib", ⟨1, 0, 0, 0⟩, none, none⟩ = some lib.1 ∧
      ¬ removed.Forgets lib.1 ∧
      renamed.cache.size = 1 ∧ (renamed.cache.register renamed.graph lib.1).size = 2 := by
  intro lib renamed removed back
  refine ⟨by decide +kernel, by decide +kernel, by decide +kernel, fun hforgets => ?_,
    by decide +kernel, by decide +kernel⟩
  exact (hforgets [] List.not_mem_nil).1 (by decide +kernel)

/-! ## Renaming what is not filed -/

/-- Filing event by event. -/
theorem filings_append (s : Session) (filed : Finset (String × AssemblyId))
    (events later : List Event) :
    filings s filed (events ++ later) = filings (s.run events) (filings s filed events) later := by
  induction events generalizing s filed with
  | nil => rfl
  | cons event events ih => exact ih _ _

/-- **What is renamed only while it is not filed is filed under its present name alone.** -/
theorem filed_now {g : Graph} {events : List Event}
    (h : ∀ before a identity, before ++ [.identify a identity] <+: events →
      Text.Ascii.lower identity.name = keyOf ((Session.start g).run before).graph a ∨
        ∀ key, (key, a) ∉ filings (Session.start g) ∅ before) :
    ∀ key a, (key, a) ∈ filings (Session.start g) ∅ events →
      key = keyOf ((Session.start g).run events).graph a := by
  induction events using List.reverseRecOn with
  | nil => exact fun _ _ hmem => absurd hmem (Finset.notMem_empty _)
  | append_singleton before event ih =>
    have hbefore := ih fun before' a identity hbegins =>
      h before' a identity (hbegins.trans (List.prefix_append _ _))
    intro key a hmem
    rw [filings_append] at hmem
    rw [Session.run_append]
    cases event with
    | call call =>
      cases call with
      | register b =>
        rcases Finset.mem_insert.mp hmem with hmem | hmem
        · obtain ⟨rfl, rfl⟩ := Prod.mk.inj hmem
          rfl
        · exact hbefore key a hmem
      | unregister b => exact hbefore key a (Finset.mem_of_mem_erase hmem)
    | identify b identity =>
      have hfiled : (key, a) ∈ filings (Session.start g) ∅ before := hmem
      change key = keyOf (((Session.start g).run before).next (.identify b identity)).graph a
      rw [keyOf, identityOf_identify]
      split
      · next hba =>
        subst hba
        rcases h before a identity List.prefix_rfl with hname | hunfiled
        · rw [hname]
          exact hbefore key a hfiled
        · exact absurd hfiled (hunfiled key)
      · exact hbefore key a hfiled

end CliMetadata.AssemblyCache
