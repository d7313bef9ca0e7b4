import CliMetadata.Proofs.Store.Calls
import Mathlib.Algebra.GroupWithZero.Nat
import Mathlib.Data.List.Nodup

/-!
# Bodies and bytes by address

The bodies of methods and the bytes of embedded resources are not stored with their rows.  They are
put at addresses, and a row has the address of what is its own.  **Addresses are handed out in
increasing order** as long as they stay below the limit (`Stacked`, `Store.Addressed`), so what is
put at one is never covered by anything put later, whatever the calls are in between: bodies given
again, bodies for methods that do not exist, and resources without bytes or kept elsewhere.

So a method has **the body that was last given to it after it was added**, and an embedded resource
has **the bytes that it was added with**, at an offset of its own (`Store.Addressed.calls`).
-/

namespace CliMetadata

/-! ## What calls put at addresses -/

namespace BuildCall

/-- A call that adds a row as it is. -/
def IsPush : BuildCall → Prop
  | push _ => True
  | _ => False

/-- Whether a call adds a method. -/
def addsMethod : BuildCall → Bool
  | method _ _ _ _ => true
  | _ => false

/-- Whether a call adds a resource. -/
def addsResource : BuildCall → Bool
  | embeddedResource _ _ _ | linkedResource _ _ _ => true
  | _ => false

/-- The addresses that a call takes up for a body: sixteen for its header. -/
def bodySpace : BuildCall → Nat
  | body _ b => 0x10 + b.code.length
  | _ => 0

/-- The offsets that a call takes up for a resource: four for its length, and a multiple of eight
in all. -/
def dataSpace : BuildCall → Nat
  | embeddedResource _ _ data => (4 + data.length + 7) / 8 * 8
  | _ => 0

/-- The body that a call gives to the method at a place. -/
def bodyFor (place : Nat) : BuildCall → Option MethodBody
  | body token b => if token.row.val = place then some b else none
  | _ => none

/-- The bytes that a call embeds. -/
def embedded? : BuildCall → Option (List UInt8)
  | embeddedResource _ _ data => some data
  | _ => none

end BuildCall

/-- The places of the methods that calls add behind `n` others, each with the body that it is last
given after it has been added. -/
def addedMethods : (n : Nat) → List BuildCall → List (Nat × Option MethodBody)
  | _, [] => []
  | n, c :: rest =>
    (if c.addsMethod then [(n + 1, (rest.filterMap (BuildCall.bodyFor (n + 1))).getLast?)]
      else []) ++ addedMethods (n + c.addsMethod.toNat) rest

/-- The places of the resources that calls embed behind `n` others, each with its bytes. -/
def addedResources : (n : Nat) → List BuildCall → List (Nat × List UInt8)
  | _, [] => []
  | n, c :: rest =>
    c.embedded?.toList.map (n + 1, ·) ++ addedResources (n + c.addsResource.toNat) rest

/-- They are all the places behind the others. -/
theorem addedMethods_places (n : Nat) (cs : List BuildCall) :
    (addedMethods n cs).map Prod.fst = List.range' (n + 1) (addedMethods n cs).length := by
  induction cs generalizing n with
  | nil => rfl
  | cons c rest ih =>
    rw [addedMethods]
    cases c.addsMethod with
    | false => exact ih n
    | true =>
      rw [if_pos rfl, List.singleton_append, List.map_cons, List.length_cons, List.range'_succ]
      exact congrArg _ (ih (n + 1))

/-! ## Entries at increasing addresses -/

/-- **Entries at increasing addresses below the next one**, the newest first. -/
structure Stacked {α : Type} (entries : List (Nat × α)) (next : Nat) : Prop where
  sorted : entries.Pairwise fun a b => b.1 < a.1
  below : ∀ e ∈ entries, e.1 < next

namespace Stacked

variable {α : Type} {entries : List (Nat × α)} {next next' address : Nat} {a : α}

theorem mono (h : Stacked entries next) (hle : next ≤ next') : Stacked entries next' where
  sorted := h.sorted
  below e he := Nat.lt_of_lt_of_le (h.below e he) hle

theorem push (h : Stacked entries next) (hlt : next < next') (a : α) :
    Stacked ((next, a) :: entries) next' where
  sorted := List.pairwise_cons.mpr ⟨h.below, h.sorted⟩
  below e he := by
    rcases List.mem_cons.mp he with rfl | he
    · exact hlt
    · exact Nat.lt_trans (h.below e he) hlt

theorem nodup (h : Stacked entries next) : (entries.map Prod.fst).Nodup :=
  List.pairwise_map.mpr (h.sorted.imp fun hlt => Nat.ne_of_gt hlt)

theorem lt_of_lookup (h : Stacked entries next) (hfound : entries.lookup address = some a) :
    address < next := by
  obtain ⟨before, after, rfl, -⟩ := List.lookup_eq_some_iff.mp hfound
  exact h.below (address, a) (List.mem_append_right _ List.mem_cons_self)

theorem lookup_push (hlt : address < next) (a : α) :
    List.lookup address ((next, a) :: entries) = entries.lookup address := by
  rw [List.lookup_cons, beq_eq_false_iff_ne.mpr (Nat.ne_of_lt hlt)]

end Stacked

namespace Store

variable {s : Store} {c : BuildCall} {cs : List BuildCall} {place offset : Nat}

/-! ## Rows at addresses -/

/-- A row that is changed at a place. -/
theorem nth_modify {α : Type} (rows : List α) (f : α → α) {other : Nat} (hother : other ≠ 0) :
    nth (rows.modify (other - 1) f) place =
      if place = other then (nth rows place).map f else nth rows place := by
  unfold nth
  by_cases hplace : place = 0
  · rw [if_pos hplace, if_pos hplace, if_neg (hplace ▸ Ne.symm hother)]
  · rw [if_neg hplace, if_neg hplace, List.getElem?_modify]
    by_cases heq : place = other
    · subst heq
      simp
    · have hne : other - 1 ≠ place - 1 := by omega
      simp [heq, hne]

/-- What a table holds behind one more row is what it held, or the row. -/
theorem nth_of_concat {α : Type} {rows : List α} {row r : α}
    (h : nth (rows ++ [row]) place = some r) :
    nth rows place = some r ∨ place = rows.length + 1 ∧ r = row := by
  unfold nth at h ⊢
  split at h
  · cases h
  · next hplace =>
    rw [if_neg hplace]
    rcases Nat.lt_or_ge (place - 1) rows.length with hlt | hge
    · rw [List.getElem?_append_left hlt] at h
      exact .inl h
    · rw [List.getElem?_append_right hge, List.getElem?_singleton] at h
      split at h
      · exact .inr ⟨by omega, (Option.some.inj h).symm⟩
      · cases h

/-- The body that a row of the table of methods has. -/
def bodyOf (s : Store) (r : MethodDefRow) : Option MethodBody :=
  if r.rva = 0 then none else s.body? r.rva

/-- A method at a place, with a body or without. -/
def HasBody (s : Store) (place : Nat) (body? : Option MethodBody) : Prop :=
  ∃ r, nth s.methodDefs place = some r ∧ s.bodyOf r = body?

/-- A resource at a place and at an offset of its own, with its bytes. -/
structure Embeds (s : Store) (place offset : Nat) (data : List UInt8) : Prop where
  row : ∃ r, nth s.resources place = some r ∧ r.rid = place ∧ r.implementation = .null ∧
    r.offset = offset
  bytes : s.resource? offset = some data

/-- **A store in which addresses have been handed out in increasing order.** -/
structure Addressed (s : Store) : Prop where
  bodies : Stacked s.bodies s.nextRva
  data : Stacked s.resourceData s.nextOffset
  nextRva_pos : 0 < s.nextRva
  rvas : ∀ {place r}, nth s.methodDefs place = some r → r.rva < s.nextRva
  aligned : 8 ∣ s.nextOffset

theorem addressed_empty : empty.Addressed where
  bodies := ⟨.nil, fun _ he => absurd he List.not_mem_nil⟩
  data := ⟨.nil, fun _ he => absurd he List.not_mem_nil⟩
  nextRva_pos := by decide
  rvas {place r} h := by
    unfold nth at h
    split at h <;> cases h
  aligned := Nat.dvd_zero 8

theorem rvaAfter_eq {rva size : Nat} (h : rva + (0x10 + size) < UInt32.size) :
    rvaAfter rva size = rva + (0x10 + size) :=
  Nat.min_eq_left (Nat.le_of_lt_succ h)

theorem offsetAfter_eq {size : Nat} (haligned : 8 ∣ offset)
    (h : offset + (4 + size + 7) / 8 * 8 < UInt32.size) :
    offsetAfter offset size = offset + (4 + size + 7) / 8 * 8 := by
  obtain ⟨n, rfl⟩ := haligned
  unfold UInt32.size at h
  unfold offsetAfter addressLimit
  omega

/-! ## One call -/

/-- Two stores with the same methods and resources, and the same stored by address. -/
structure SameContents (s s' : Store) : Prop where
  methodDefs : s'.methodDefs = s.methodDefs
  resources : s'.resources = s.resources
  bodies : s'.bodies = s.bodies
  nextRva : s'.nextRva = s.nextRva
  resourceData : s'.resourceData = s.resourceData
  nextOffset : s'.nextOffset = s.nextOffset

/-- **What a call puts at addresses**, and what it leaves as it is. -/
structure Advances (s : Store) (c : BuildCall) (s' : Store) : Prop where
  addressed : s'.Addressed
  nextRva : s'.nextRva = s.nextRva + c.bodySpace
  nextOffset : s'.nextOffset = s.nextOffset + c.dataSpace
  methodCount : s'.methodDefs.length = s.methodDefs.length + c.addsMethod.toNat
  resourceCount : s'.resources.length = s.resources.length + c.addsResource.toNat
  given : ∀ {place b?}, s.HasBody place b? → s'.HasBody place ((c.bodyFor place).or b?)
  kept : ∀ {place offset data}, s.Embeds place offset data → s'.Embeds place offset data
  added : c.addsMethod → s'.HasBody (s.methodDefs.length + 1) none
  embedded : ∀ data ∈ c.embedded?, s'.Embeds (s.resources.length + 1) s.nextOffset data

section Calls

variable {s' : Store}

theorem SameContents.hasBody (h : s.SameContents s') {b? : Option MethodBody}
    (hb : s.HasBody place b?) : s'.HasBody place b? := by
  simpa only [HasBody, bodyOf, body?, h.methodDefs, h.bodies] using hb

/-- A resource stays where it is when more are added behind it. -/
theorem Embeds.grown {data : List UInt8} (h : s.Embeds place offset data)
    (hgrown : s.resources <+: s'.resources) (hbytes : s'.resource? offset = some data) :
    s'.Embeds place offset data where
  row := by
    obtain ⟨r, hr, hown⟩ := h.row
    exact ⟨r, nth_grown hgrown hr, hown⟩
  bytes := hbytes

theorem SameContents.embeds (h : s.SameContents s') {data : List UInt8}
    (he : s.Embeds place offset data) : s'.Embeds place offset data :=
  he.grown (h.resources ▸ List.prefix_refl _)
    (by rw [resource?, h.resourceData, ← resource?, he.bytes])

/-- A call that has nothing to do with methods and resources. -/
theorem SameContents.advances (h : s.SameContents s') (hs : s.Addressed) (hbody : c.bodySpace = 0)
    (hdata : c.dataSpace = 0) (hmethod : c.addsMethod = false) (hresource : c.addsResource = false)
    (hgiven : ∀ place, c.bodyFor place = none) (hembedded : c.embedded? = none) :
    s.Advances c s' where
  addressed := ⟨h.bodies ▸ h.nextRva ▸ hs.bodies, h.resourceData ▸ h.nextOffset ▸ hs.data,
    h.nextRva ▸ hs.nextRva_pos, by rw [h.methodDefs, h.nextRva]; exact hs.rvas,
    h.nextOffset ▸ hs.aligned⟩
  nextRva := by rw [h.nextRva, hbody]; rfl
  nextOffset := by rw [h.nextOffset, hdata]; rfl
  methodCount := by rw [h.methodDefs, hmethod]; rfl
  resourceCount := by rw [h.resources, hresource]; rfl
  given hb := by
    rw [hgiven]
    exact h.hasBody hb
  kept := h.embeds
  added hadds := absurd (hmethod.symm.trans hadds) (by decide)
  embedded _ hd := nomatch hembedded ▸ hd

/-- A method is added, without a body. -/
theorem method_advances (hs : s.Addressed) (owner : Token) (name : String) (flags : Flags)
    (signature : Nat) : s.Advances (.method owner name flags signature)
      ((call (.method owner name flags signature)).run s).2 := by
  let s' := ((call (.method owner name flags signature)).run s).2
  obtain ⟨r, hrva, hrows⟩ : ∃ r : MethodDefRow, r.rva = 0 ∧ s'.methodDefs = s.methodDefs ++ [r] :=
    ⟨_, rfl, rfl⟩
  have hgrown : s.methodDefs <+: s'.methodDefs := hrows ▸ List.prefix_append _ _
  have hold : ∀ {place b?}, s.HasBody place b? → s'.HasBody place b? :=
    fun ⟨r, hr, hb⟩ => ⟨r, nth_grown hgrown hr, hb⟩
  exact {
    addressed := ⟨hs.bodies, hs.data, hs.nextRva_pos, fun {place r'} hr' => by
      rcases nth_of_concat (hrows ▸ hr') with hr' | ⟨-, rfl⟩
      · exact hs.rvas hr'
      · rw [hrva]
        exact hs.nextRva_pos, hs.aligned⟩
    nextRva := rfl
    nextOffset := rfl
    methodCount := by
      show s'.methodDefs.length = _
      rw [hrows, List.length_append]
      rfl
    resourceCount := rfl
    given := hold
    kept := fun he => ⟨he.row, he.bytes⟩
    added := fun _ => ⟨r, by rw [hrows, nth_concat], if_pos hrva⟩
    embedded := fun _ hd => nomatch hd }

/-- What giving a body does: the address is used up, and the method gets it if there is one. -/
theorem setMethodBody_run (s : Store) (token : Token) (b : MethodBody) :
    ((setMethodBody token b).run s).2 =
      match nth s.methodDefs token.row.val with
      | some _ =>
        { s with
          nextRva := rvaAfter s.nextRva b.code.length
          methodDefs := s.methodDefs.modify (token.row.val - 1) fun r => { r with rva := s.nextRva }
          bodies := (s.nextRva, b) :: s.bodies }
      | none => { s with nextRva := rvaAfter s.nextRva b.code.length } := rfl

/-- A body is given to a method that does not exist. -/
theorem missing_advances (hs : s.Addressed) (token : Token) (b : MethodBody)
    (hrow : nth s.methodDefs token.row.val = none) :
    s.Advances (.body token b) { s with nextRva := s.nextRva + (0x10 + b.code.length) } where
  addressed := ⟨hs.bodies.mono (Nat.le_add_right _ _), hs.data,
    Nat.lt_of_lt_of_le hs.nextRva_pos (Nat.le_add_right _ _),
    fun hr => Nat.lt_of_lt_of_le (hs.rvas hr) (Nat.le_add_right _ _), hs.aligned⟩
  nextRva := rfl
  nextOffset := rfl
  methodCount := rfl
  resourceCount := rfl
  given := by
    rintro place b? ⟨r, hr, hb⟩
    have hne : token.row.val ≠ place := by
      rintro rfl
      exact nomatch hrow.symm.trans hr
    rw [BuildCall.bodyFor, if_neg hne]
    exact ⟨r, hr, hb⟩
  kept he := ⟨he.row, he.bytes⟩
  added h := nomatch h
  embedded _ hd := nomatch hd

/-- A body is given to a method. -/
theorem found_advances (hs : s.Addressed) (token : Token) (b : MethodBody)
    (hplace : token.row.val ≠ 0) :
    s.Advances (.body token b) { s with
      nextRva := s.nextRva + (0x10 + b.code.length)
      methodDefs := s.methodDefs.modify (token.row.val - 1) fun r => { r with rva := s.nextRva }
      bodies := (s.nextRva, b) :: s.bodies } where
  addressed := by
    have hlt : s.nextRva < s.nextRva + (0x10 + b.code.length) := by omega
    refine ⟨hs.bodies.push hlt b, hs.data, Nat.zero_lt_of_lt hlt, fun {place r} hr => ?_,
      hs.aligned⟩
    rw [nth_modify _ _ hplace] at hr
    split at hr
    · obtain ⟨r', -, rfl⟩ := Option.map_eq_some_iff.mp hr
      exact hlt
    · exact Nat.lt_trans (hs.rvas hr) hlt
  nextRva := rfl
  nextOffset := rfl
  methodCount := List.length_modify _ _ _
  resourceCount := rfl
  given := by
    rintro place b? ⟨r, hr, hb⟩
    by_cases heq : place = token.row.val
    · -- the row has the new address, and the body is the newest there
      rw [BuildCall.bodyFor, if_pos heq.symm]
      refine ⟨{ r with rva := s.nextRva }, ?_, ?_⟩
      · rw [nth_modify _ _ hplace, if_pos heq, hr, Option.map_some]
      · rw [bodyOf, if_neg (Nat.ne_of_gt hs.nextRva_pos), body?, List.lookup_cons_self,
          Option.some_or]
    · -- any other row has an older address
      rw [BuildCall.bodyFor, if_neg (Ne.symm heq), Option.none_or]
      refine ⟨r, ?_, ?_⟩
      · rw [nth_modify _ _ hplace, if_neg heq, hr]
      · rw [← hb, bodyOf, bodyOf, body?, Stacked.lookup_push (hs.rvas hr), body?]
  kept he := ⟨he.row, he.bytes⟩
  added h := nomatch h
  embedded _ hd := nomatch hd

theorem body_advances (hs : s.Addressed) (token : Token) (b : MethodBody)
    (hspace : s.nextRva + (0x10 + b.code.length) < UInt32.size) :
    s.Advances (.body token b) ((call (.body token b)).run s).2 := by
  show s.Advances (.body token b) ((setMethodBody token b).run s).2
  rw [setMethodBody_run, rvaAfter_eq hspace]
  cases hrow : nth s.methodDefs token.row.val with
  | none => exact missing_advances hs token b hrow
  | some row =>
    refine found_advances hs token b fun hzero => ?_
    rw [hzero] at hrow
    cases hrow

/-- A resource is added whose bytes are elsewhere. -/
theorem linkedResource_advances (hs : s.Addressed) (name : String) (flags : Flags)
    (implementation : Token) : s.Advances (.linkedResource name flags implementation)
      ((call (.linkedResource name flags implementation)).run s).2 := by
  let s' := ((call (.linkedResource name flags implementation)).run s).2
  have hgrown : s.resources <+: s'.resources := List.prefix_append _ _
  exact {
    addressed := ⟨hs.bodies, hs.data, hs.nextRva_pos, hs.rvas, hs.aligned⟩
    nextRva := rfl
    nextOffset := rfl
    methodCount := rfl
    resourceCount := List.length_append
    given := fun hb => hb
    kept := fun he => he.grown hgrown he.bytes
    added := fun h => nomatch h
    embedded := fun _ hd => nomatch hd }

/-- A resource is added with its bytes. -/
theorem embeddedResource_advances (hs : s.Addressed) (name : String) (flags : Flags)
    (data : List UInt8) (hspace : s.nextOffset + (4 + data.length + 7) / 8 * 8 < UInt32.size) :
    s.Advances (.embeddedResource name flags data)
      ((call (.embeddedResource name flags data)).run s).2 := by
  let s' := ((call (.embeddedResource name flags data)).run s).2
  have hnext : s'.nextOffset = s.nextOffset + (4 + data.length + 7) / 8 * 8 :=
    offsetAfter_eq hs.aligned hspace
  have hlt : s.nextOffset < s'.nextOffset := by omega
  have hdata : s'.resourceData = (s.nextOffset, data) :: s.resourceData := rfl
  obtain ⟨r, hrid, himplementation, hoffset, hrows⟩ : ∃ r : ResourceRow,
      r.rid = s.resources.length + 1 ∧ r.implementation = .null ∧ r.offset = s.nextOffset ∧
        s'.resources = s.resources ++ [r] :=
    ⟨_, congrArg (· + 1) (List.length_map _), rfl, rfl, rfl⟩
  have hgrown : s.resources <+: s'.resources := hrows ▸ List.prefix_append _ _
  exact {
    addressed := ⟨hs.bodies, hnext ▸ hdata ▸ hs.data.push (hnext ▸ hlt) data, hs.nextRva_pos,
      hs.rvas, by
        show 8 ∣ s'.nextOffset
        rw [hnext]
        exact Nat.dvd_add hs.aligned (Nat.dvd_mul_left 8 _)⟩
    nextRva := rfl
    nextOffset := hnext
    methodCount := rfl
    resourceCount := by
      show s'.resources.length = _
      rw [hrows, List.length_append]
      rfl
    given := fun hb => hb
    kept := fun {place offset data'} he => he.grown hgrown <| by
      show s'.resource? offset = some data'
      rw [resource?, hdata, Stacked.lookup_push (hs.data.lt_of_lookup he.bytes)]
      exact he.bytes
    added := fun h => nomatch h
    embedded := by
      rintro _ ⟨⟩
      refine ⟨⟨r, by rw [hrows, nth_concat], hrid, himplementation, hoffset⟩, ?_⟩
      show s'.resource? s.nextOffset = some data
      rw [resource?, hdata, List.lookup_cons_self] }

/-- **Every call puts what it does at new addresses**, as long as they last. -/
theorem Addressed.call (hs : s.Addressed) (hpush : ¬ c.IsPush)
    (hbody : s.nextRva + c.bodySpace < UInt32.size)
    (hdata : s.nextOffset + c.dataSpace < UInt32.size) :
    s.Advances c ((Store.call c).run s).2 := by
  have same : ∀ {s' : Store}, s.SameContents s' → c.bodySpace = 0 → c.dataSpace = 0 →
      c.addsMethod = false → c.addsResource = false → (∀ place, c.bodyFor place = none) →
      c.embedded? = none → s.Advances c s' := fun h => h.advances hs
  cases c with
  | push row => exact absurd trivial hpush
  | method owner name flags signature => exact method_advances hs owner name flags signature
  | body token b => exact body_advances hs token b hbody
  | embeddedResource name flags data => exact embeddedResource_advances hs name flags data hdata
  | linkedResource name flags implementation =>
    exact linkedResource_advances hs name flags implementation
  | assembly identity =>
    obtain ⟨name, version, culture, strongName⟩ := identity
    rcases strongName with _ | _ | _ <;>
      exact same ⟨rfl, rfl, rfl, rfl, rfl, rfl⟩ rfl rfl rfl rfl (fun _ => rfl) rfl
  | assemblyRef identity flags =>
    obtain ⟨name, version, culture, strongName⟩ := identity
    rcases strongName with _ | _ | _ <;>
      exact same ⟨rfl, rfl, rfl, rfl, rfl, rfl⟩ rfl rfl rfl rfl (fun _ => rfl) rfl
  | _ => exact same ⟨rfl, rfl, rfl, rfl, rfl, rfl⟩ rfl rfl rfl rfl (fun _ => rfl) rfl

/-! ## Sequences of calls -/

/-- **What calls leave at addresses**: each method has the body that it was last given, and each
embedded resource its bytes, behind those that were embedded before. -/
structure Settles (s : Store) (cs : List BuildCall) (s' : Store) : Prop where
  addressed : s'.Addressed
  given : ∀ {place b?}, s.HasBody place b? →
    s'.HasBody place ((cs.filterMap (BuildCall.bodyFor place)).getLast?.or b?)
  kept : ∀ {place offset data}, s.Embeds place offset data → s'.Embeds place offset data
  methodCount : s'.methodDefs.length =
    s.methodDefs.length + (addedMethods s.methodDefs.length cs).length
  methods : ∀ e ∈ addedMethods s.methodDefs.length cs, s'.HasBody e.1 e.2
  resources : ∀ e ∈ addedResources s.resources.length cs,
    ∃ offset, s.nextOffset ≤ offset ∧ s'.Embeds e.1 offset e.2
  apart : (addedResources s.resources.length cs).Pairwise fun a b =>
    ∀ offset offset', s'.Embeds a.1 offset a.2 → s'.Embeds b.1 offset' b.2 → offset < offset'

theorem Embeds.offset_unique {data data' : List UInt8} {offset' : Nat}
    (h : s.Embeds place offset data) (h' : s.Embeds place offset' data') : offset = offset' := by
  obtain ⟨r, hr, -, -, rfl⟩ := h.row
  obtain ⟨r', hr', -, -, rfl⟩ := h'.row
  rw [Option.some.inj (hr.symm.trans hr')]

theorem Embeds.lt_next {data : List UInt8} (h : s.Embeds place offset data) (hs : s.Addressed) :
    offset < s.nextOffset := hs.data.lt_of_lookup h.bytes

/-- The last entry that a list gives rise to is one of its rest, or its first. -/
theorem getLast?_filterMap_cons {α β : Type} (f : α → Option β) (a : α) (as : List α) :
    ((a :: as).filterMap f).getLast? = (as.filterMap f).getLast?.or (f a) := by
  cases hf : f a with
  | none => rw [List.filterMap_cons_none hf, Option.or_none]
  | some b =>
    rw [List.filterMap_cons_some hf, List.getLast?_cons]
    cases (as.filterMap f).getLast? <;> rfl

theorem Settles.nil (hs : s.Addressed) : s.Settles [] s where
  addressed := hs
  given h := h
  kept h := h
  methodCount := rfl
  methods _ h := absurd h List.not_mem_nil
  resources _ h := absurd h List.not_mem_nil
  apart := .nil

theorem Advances.settles {s'' : Store} (h : s.Advances c s') (k : s'.Settles cs s'') :
    s.Settles (c :: cs) s'' where
  addressed := k.addressed
  given hb := by
    -- a body of a later call goes before the one of this call, and that before what was there
    rw [getLast?_filterMap_cons, Option.or_assoc]
    exact k.given (h.given hb)
  kept he := k.kept (h.kept he)
  methodCount := by
    rw [addedMethods, List.length_append, k.methodCount, h.methodCount]
    cases c.addsMethod <;> simp [Nat.add_assoc]
  methods e he := by
    rw [addedMethods, ← h.methodCount] at he
    rcases List.mem_append.mp he with he | he
    · split at he
      · next hadds =>
        obtain rfl := List.mem_singleton.mp he
        rw [← Option.or_none (o := (cs.filterMap _).getLast?)]
        exact k.given (h.added hadds)
      · cases he
    · exact k.methods e he
  resources e he := by
    rw [addedResources, ← h.resourceCount] at he
    rcases List.mem_append.mp he with he | he
    · obtain ⟨data, hdata, rfl⟩ := List.mem_map.mp he
      exact ⟨s.nextOffset, Nat.le_refl _, k.kept (h.embedded data (Option.mem_toList.mp hdata))⟩
    · obtain ⟨offset, hle, hembeds⟩ := k.resources e he
      exact ⟨offset, Nat.le_trans (h.nextOffset ▸ Nat.le_add_right _ _) hle, hembeds⟩
  apart := by
    rw [addedResources, ← h.resourceCount, List.pairwise_append]
    refine ⟨?_, k.apart, ?_⟩
    · cases c.embedded? with
      | none => exact .nil
      | some data => exact List.pairwise_singleton _ _
    · intro a ha b hb offset offset' hoffset hoffset'
      obtain ⟨data, hdata, rfl⟩ := List.mem_map.mp ha
      have hnew := h.embedded data (Option.mem_toList.mp hdata)
      obtain ⟨later, hle, hlater⟩ := k.resources b hb
      rw [hoffset.offset_unique (k.kept hnew), hoffset'.offset_unique hlater]
      exact Nat.lt_of_lt_of_le (hnew.lt_next h.addressed) hle

/-- **So does every sequence of calls.** -/
theorem Addressed.calls (hs : s.Addressed) (hpush : ∀ c ∈ cs, ¬ c.IsPush)
    (hbody : s.nextRva + (cs.map BuildCall.bodySpace).sum < UInt32.size)
    (hdata : s.nextOffset + (cs.map BuildCall.dataSpace).sum < UInt32.size) :
    s.Settles cs ((calls cs).run s).2 := by
  induction cs generalizing s with
  | nil => exact .nil hs
  | cons c cs ih =>
    rw [List.map_cons, List.sum_cons] at hbody hdata
    have hc : s.Advances c ((Store.call c).run s).2 :=
      hs.call (hpush c List.mem_cons_self) (by omega) (by omega)
    have hbody' :
        ((Store.call c).run s).2.nextRva + (cs.map BuildCall.bodySpace).sum < UInt32.size := by
      rw [hc.nextRva]
      omega
    have hdata' :
        ((Store.call c).run s).2.nextOffset + (cs.map BuildCall.dataSpace).sum < UInt32.size := by
      rw [hc.nextOffset]
      omega
    have hpush' : ∀ c ∈ cs, ¬ c.IsPush := fun c hc => hpush c (List.mem_cons_of_mem _ hc)
    exact hc.settles (ih hc.addressed hpush' hbody' hdata')

end Calls
end Store
end CliMetadata
