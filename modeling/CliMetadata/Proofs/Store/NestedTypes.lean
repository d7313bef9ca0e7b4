import CliMetadata.Proofs.Store.Calls
import Mathlib.Data.List.Nodup

/-!
# Calls that add types

A sequence of calls adds types, each nested in none or in a type that an earlier call has added.
`Store.Forest s ups` says what the store holds then: `ups` has, for each type in order, the row that
it is nested in, and the store has one row for each entry and one link for each that is nested.

What a store answers about nesting is read off `ups`: the container of a row
(`Forest.linkedOwner?_eq`), the rows nested in a row (`Forest.mem_linkedChildren`) and the rows that
are nested in none (`Forest.mem_topLevel`).
-/

namespace CliMetadata.Store

/-! ## Calls -/

/-- A call that adds a type. -/
inductive TypeCall where
  | top (space name : String) (flags : Flags) (base : Option Token)
  | nested (enclosing : Token) (name : String) (flags : Flags)

namespace TypeCall

/-- The token of the type that the new one is to be nested in. -/
def enclosing? : TypeCall → Option Token
  | top _ _ _ _ => none
  | nested enclosing _ _ => some enclosing

/-- Adds the type; its token. -/
def run : TypeCall → Build Token
  | top space name flags base => addTypeDef space name flags base
  | nested enclosing name flags => addNestedType enclosing name flags

end TypeCall

/-- Makes some calls in order; the tokens that they return. -/
def addTypes : List TypeCall → Build (List Token)
  | [] => return []
  | c :: cs => do
    let token ← c.run
    let tokens ← addTypes cs
    return token :: tokens

/-- Adds a module, and types to it; the tokens of the types. -/
def addModuleTypes (name : String) (calls : List TypeCall) : Build (List Token) := do
  let _ ← addModule name
  addTypes calls

/-- **Every enclosing token has been returned by an earlier call.** -/
def Enclosed (calls : List TypeCall) (tokens : List Token) : Prop :=
  ∀ (i : Nat) (c : TypeCall) (t : Token), calls[i]? = some c → c.enclosing? = some t →
    ∃ j < i, tokens[j]? = some t

/-- How deep the type of a call is nested. -/
inductive Depth (calls : List TypeCall) (tokens : List Token) : (i depth : Nat) → Prop where
  | top {i : Nat} {c : TypeCall} : calls[i]? = some c → c.enclosing? = none →
      Depth calls tokens i 0
  | nested {i j depth : Nat} {c : TypeCall} {t : Token} : calls[i]? = some c →
      c.enclosing? = some t → tokens[j]? = some t → Depth calls tokens j depth →
      Depth calls tokens i (depth + 1)

/-! ## Rows and links -/

/-- The link of a row that is nested in another. -/
def nesting (q p : Nat) : Link := ⟨.nestedTypes, Token.ofParts .typeDef q, Token.ofParts .typeDef p⟩

/-- The links of types that are nested as a list says. -/
def nestings (ups : List (Option Nat)) : List Link :=
  ups.zipIdx.filterMap fun entry => entry.1.map fun q => nesting q (entry.2 + 1)

/-- The row that a row is nested in, among rows that are nested as a list says. -/
def up (ups : List (Option Nat)) (p : Nat) : Option Nat := (nth ups p).join

/-- **A store of types, each nested in none or in one before it.** -/
structure Forest (s : Store) (ups : List (Option Nat)) : Prop where
  module : (nth s.modules 1).isSome
  heads : s.typeDefs.map (·.toRowHead) =
    (List.range ups.length).map fun i => ⟨i + 1, Token.ofParts .typeDef (i + 1)⟩
  links : s.links = nestings ups
  earlier : ∀ {i q : Nat}, ups[i]? = some (some q) → 0 < q ∧ q ≤ i

variable {s : Store} {ups : List (Option Nat)}

theorem addTypeDef_run (space name : String) (flags : Flags) (base : Option Token) (s : Store) :
    ∃ (heap : StringHeap) (row : TypeDefRow),
      row.toRowHead = ⟨s.typeDefs.length + 1, Token.ofParts .typeDef (s.typeDefs.length + 1)⟩ ∧
      (addTypeDef space name flags base).run s = (Token.ofParts .typeDef (s.typeDefs.length + 1),
        { s with strings := heap, typeDefs := s.typeDefs ++ [row] }) := by
  let named := s.strings.add (Name.ofString name).bytes
  let spaced := named.2.add (Name.ofString space).bytes
  have hcount : ({ s with strings := spaced.2 } : Store).rowCount .typeDef = s.typeDefs.length :=
    List.length_map _
  refine ⟨spaced.2, ⟨⟨s.typeDefs.length + 1, Token.ofParts .typeDef (s.typeDefs.length + 1)⟩,
    flags, named.1, spaced.1, base.elim .null .ofToken⟩, rfl, ?_⟩
  rw [← hcount]
  rfl

/-- A call adds one row, and a link where the type is to be nested. -/
theorem TypeCall.run_run (c : TypeCall) (s : Store) :
    ∃ (heap : StringHeap) (row : TypeDefRow),
      row.toRowHead = ⟨s.typeDefs.length + 1, Token.ofParts .typeDef (s.typeDefs.length + 1)⟩ ∧
      c.run.run s = (Token.ofParts .typeDef (s.typeDefs.length + 1),
        { s with strings := heap, typeDefs := s.typeDefs ++ [row], links := s.links ++
          (c.enclosing?.map fun t =>
            ⟨.nestedTypes, t, Token.ofParts .typeDef (s.typeDefs.length + 1)⟩).toList }) := by
  cases c with
  | top space name flags base =>
    obtain ⟨heap, row, hrow, hrun⟩ := addTypeDef_run space name flags base s
    refine ⟨heap, row, hrow, ?_⟩
    show StateT.run (addTypeDef space name flags base) s = _
    rw [hrun]
    simp [enclosing?]
  | nested enclosing name flags =>
    obtain ⟨heap, row, hrow, hrun⟩ := addTypeDef_run "" name flags none s
    refine ⟨heap, row, hrow, ?_⟩
    show StateT.run (addNestedType enclosing name flags) s = _
    unfold addNestedType
    rw [Stateful.run_bind, hrun]
    rfl

/-- The tokens that calls return number the new rows. -/
theorem addTypes_tokens : ∀ (calls : List TypeCall) (s : Store),
    ((addTypes calls).run s).1 =
      (List.range' (s.typeDefs.length + 1) calls.length).map (Token.ofParts .typeDef)
  | [], _ => rfl
  | c :: cs, s => by
    obtain ⟨heap, row, -, hrun⟩ := c.run_run s
    show (c.run.run s).1 :: ((addTypes cs).run (c.run.run s).2).1 = _
    rw [hrun, addTypes_tokens cs, List.length_append]
    rfl

theorem nestings_concat (ups : List (Option Nat)) (up : Option Nat) :
    nestings (ups ++ [up]) =
      nestings ups ++ (up.map fun q => nesting q (ups.length + 1)).toList := by
  unfold nestings
  rw [List.zipIdx_append, List.filterMap_append]
  cases up <;> simp

namespace Forest

theorem length (h : s.Forest ups) : s.typeDefs.length = ups.length := by
  have hlength := congrArg List.length h.heads
  simpa using hlength

/-- A row is added for a type that is nested as is said. -/
theorem concat (h : s.Forest ups) {s' : Store} {row : TypeDefRow} {up : Option Nat}
    (hrow : row.toRowHead = ⟨s.typeDefs.length + 1, Token.ofParts .typeDef (s.typeDefs.length + 1)⟩)
    (hrows : s'.typeDefs = s.typeDefs ++ [row]) (hmodules : s'.modules = s.modules)
    (hlinks : s'.links = s.links ++ (up.map fun q => nesting q (ups.length + 1)).toList)
    (hup : ∀ q, up = some q → 0 < q ∧ q ≤ ups.length) : s'.Forest (ups ++ [up]) where
  module := by
    rw [hmodules]
    exact h.module
  heads := by
    rw [hrows, List.map_append, h.heads, List.length_append, List.length_singleton,
      List.range_succ, List.map_append, List.map_singleton, List.map_singleton, hrow, h.length]
  links := by rw [hlinks, nestings_concat, h.links]
  earlier {i q} hi := by
    rcases Nat.lt_or_ge i ups.length with hlt | hge
    · rw [List.getElem?_append_left hlt] at hi
      exact h.earlier hi
    · rw [List.getElem?_append_right hge] at hi
      obtain ⟨hlt, hget⟩ := List.getElem?_eq_some_iff.mp hi
      have hzero : i - ups.length = 0 := by simpa using hlt
      have hq : up = some q := by simpa [hzero] using hget
      exact (hup q hq).imp_right fun hle => Nat.le_trans hle hge

/-- **A call adds one type**, nested in the row that its token names. -/
theorem call (h : s.Forest ups) (c : TypeCall) (hn : ups.length < rowLimit)
    (hc : ∀ t, c.enclosing? = some t →
      ∃ q, 0 < q ∧ q ≤ ups.length ∧ t = Token.ofParts .typeDef q) :
    (c.run.run s).2.Forest (ups ++ [c.enclosing?.map (·.row.val)]) := by
  obtain ⟨heap, row, hrow, hrun⟩ := c.run_run s
  rw [hrun]
  refine h.concat hrow rfl rfl ?_ ?_
  · dsimp only
    rw [h.length]
    cases henclosing : c.enclosing? with
    | none => rfl
    | some t =>
      obtain ⟨q, -, hle, rfl⟩ := hc t henclosing
      have hvalue : (Token.ofParts .typeDef q).row.val = q :=
        Nat.mod_eq_of_lt (Nat.lt_of_le_of_lt hle hn)
      show s.links ++ [_] = s.links ++ [nesting (Token.ofParts .typeDef q).row.val _]
      rw [hvalue]
      rfl
  · intro p hp
    obtain ⟨t, ht, rfl⟩ := Option.map_eq_some_iff.mp hp
    obtain ⟨q, hpos, hle, rfl⟩ := hc t ht
    have hvalue : (Token.ofParts .typeDef q).row.val = q :=
      Nat.mod_eq_of_lt (Nat.lt_of_le_of_lt hle hn)
    exact hvalue.symm ▸ ⟨hpos, hle⟩

/-- **So does each of several calls.** -/
theorem addTypes : ∀ (calls : List TypeCall) {s : Store} {ups : List (Option Nat)},
    s.Forest ups → ups.length + calls.length < rowLimit →
    (∀ (i : Nat) (c : TypeCall) (t : Token), calls[i]? = some c → c.enclosing? = some t →
      ∃ q, 0 < q ∧ q ≤ ups.length + i ∧ t = Token.ofParts .typeDef q) →
    ((Store.addTypes calls).run s).2.Forest (ups ++ calls.map fun c => c.enclosing?.map (·.row.val))
  | [], s, ups, h, _, _ => by
    rw [List.map_nil, List.append_nil]
    exact h
  | c :: cs, s, ups, h, hn, hearlier => by
    rw [List.length_cons] at hn
    have hforest := h.call c (by omega) fun t ht => hearlier 0 c t rfl ht
    have hlength : (ups ++ [c.enclosing?.map (·.row.val)]).length = ups.length + 1 := by simp
    have hforests := addTypes cs hforest (by omega) fun i c' t hc' ht => by
      obtain ⟨q, hpos, hle, rfl⟩ := hearlier (i + 1) c' t hc' ht
      exact ⟨q, hpos, by omega, rfl⟩
    rw [List.append_assoc] at hforests
    exact hforests

end Forest

/-! ## What the store answers -/

theorem topLevel_eq (s : Store) : s.children .typeDefs moduleToken =
    (s.typeDefs.filter fun r => s.isTopLevel r.token).map (·.rid) := by
  rw [children, if_pos rfl]

/-- A token below the limit names its row. -/
theorem ofParts_inj {p q : Nat} (hp : p < rowLimit) (hq : q < rowLimit)
    (h : Token.ofParts .typeDef p = Token.ofParts .typeDef q) : p = q := by
  have hrow := congrArg (·.row.val) h
  simp only [Token.ofParts_row, Nat.mod_eq_of_lt hp, Nat.mod_eq_of_lt hq] at hrow
  exact hrow

/-- A row that is nested in another is one of the rows. -/
theorem up_le {p q : Nat} (h : up ups p = some q) : 0 < p ∧ p ≤ ups.length := by
  unfold up nth at h
  split at h
  · cases h
  · next hp =>
    cases hup : ups[p - 1]? with
    | none =>
      rw [hup] at h
      cases h
    | some _ =>
      have hlt := (List.getElem?_eq_some_iff.mp hup).1
      omega

theorem mem_nestings {l : Link} :
    l ∈ nestings ups ↔ ∃ p q, up ups p = some q ∧ l = nesting q p := by
  unfold nestings
  rw [List.mem_filterMap]
  constructor
  · rintro ⟨⟨o, i⟩, hmem, hl⟩
    obtain ⟨q, rfl, rfl⟩ := Option.map_eq_some_iff.mp hl
    refine ⟨i + 1, q, ?_, rfl⟩
    have hget := List.mem_zipIdx_iff_getElem?.mp hmem
    rw [up, nth, if_neg (Nat.succ_ne_zero i), Nat.add_sub_cancel, hget]
    rfl
  · rintro ⟨p, q, hup, rfl⟩
    obtain ⟨hpos, hle⟩ := up_le hup
    refine ⟨(some q, p - 1), ?_, ?_⟩
    · rw [up, nth, if_neg (Nat.ne_of_gt hpos)] at hup
      exact List.mem_zipIdx_iff_getElem?.mpr (Option.join_eq_some_iff.mp hup)
    · rw [Option.map_some, Nat.sub_add_cancel hpos]

namespace Forest

variable (h : s.Forest ups) (hn : ups.length < rowLimit) {p q : Nat}
include h

theorem up_lt (hup : up ups p = some q) : 0 < q ∧ q < p := by
  have hpos := (up_le hup).1
  rw [up, nth, if_neg (Nat.ne_of_gt hpos)] at hup
  obtain ⟨hq, hle⟩ := h.earlier (Option.join_eq_some_iff.mp hup)
  exact ⟨hq, by omega⟩

/-- A row that is there carries its number. -/
theorem row {r : TypeDefRow} (hr : nth s.typeDefs p = some r) :
    0 < p ∧ p ≤ ups.length ∧ r.toRowHead = ⟨p, Token.ofParts .typeDef p⟩ := by
  unfold nth at hr
  split at hr
  · cases hr
  · next hp =>
    have hlt := (List.getElem?_eq_some_iff.mp hr).1
    rw [h.length] at hlt
    have hhead := congrArg (fun l : List RowHead => l[p - 1]?) h.heads
    simp only [List.getElem?_map, hr, Option.map_some, List.getElem?_range hlt] at hhead
    have hp' : p - 1 + 1 = p := by omega
    rw [hp'] at hhead
    exact ⟨by omega, by omega, Option.some.inj hhead⟩

theorem exists_row (hpos : 0 < p) (hle : p ≤ ups.length) : ∃ r, nth s.typeDefs p = some r := by
  have hlt : p - 1 < s.typeDefs.length := by
    rw [h.length]
    omega
  exact ⟨s.typeDefs[p - 1], by rw [nth, if_neg (Nat.ne_of_gt hpos), List.getElem?_eq_getElem hlt]⟩

include hn

/-- **The first owner of a row is what it is nested in.** -/
theorem linkedOwner?_eq (hp : p ≤ ups.length) :
    s.linkedOwner? .nestedTypes (Token.ofParts .typeDef p) =
      (up ups p).map (Token.ofParts .typeDef) := by
  have hmatch : ∀ l ∈ s.links, (l.relation == .nestedTypes && l.child == Token.ofParts .typeDef p) →
      ∃ q, up ups p = some q ∧ l = nesting q p := by
    intro l hl hmatches
    rw [h.links, mem_nestings] at hl
    obtain ⟨p', q, hup, rfl⟩ := hl
    have hchild : Token.ofParts .typeDef p' = Token.ofParts .typeDef p := by
      simpa [nesting] using hmatches
    have hp' := (up_le hup).2
    obtain rfl := ofParts_inj (by omega) (by omega) hchild
    exact ⟨q, hup, rfl⟩
  unfold linkedOwner?
  cases hfind : s.links.find? fun l => l.relation == .nestedTypes &&
      l.child == Token.ofParts .typeDef p with
  | some l =>
    have hmatches := List.find?_some hfind
    obtain ⟨q, hup, rfl⟩ := hmatch l (List.mem_of_find?_eq_some hfind) hmatches
    rw [hup]
    rfl
  | none =>
    cases hup : up ups p with
    | none => rfl
    | some q =>
      have hmem : nesting q p ∈ s.links := h.links ▸ mem_nestings.mpr ⟨p, q, hup, rfl⟩
      have hnone := List.find?_eq_none.mp hfind _ hmem
      simp [nesting] at hnone

/-- What is linked is a row that is nested in one. -/
theorem linked {owner : Token} (hp : p ∈ s.linkedChildren .nestedTypes owner) :
    ∃ q, up ups p = some q ∧ owner = Token.ofParts .typeDef q := by
  unfold linkedChildren at hp
  obtain ⟨l, hl, rfl⟩ := List.mem_map.mp hp
  obtain ⟨hmem, howner⟩ := List.mem_filter.mp hl
  rw [h.links, mem_nestings] at hmem
  obtain ⟨p', q, hup, rfl⟩ := hmem
  have hle := (up_le hup).2
  have hrow : (nesting q p').child.row.val = p' := Nat.mod_eq_of_lt (by omega)
  rw [hrow]
  refine ⟨q, hup, ?_⟩
  have hsame : Token.ofParts .typeDef q = owner := by simpa [nesting] using howner
  exact hsame.symm

/-- **The rows linked to a row are those that are nested in it.** -/
theorem mem_linkedChildren (hq : q ≤ ups.length) :
    p ∈ s.linkedChildren .nestedTypes (Token.ofParts .typeDef q) ↔ up ups p = some q := by
  constructor
  · intro hp
    obtain ⟨q', hup, howner⟩ := h.linked hn hp
    have hlt := (h.up_lt hup).2
    have hle := (up_le hup).2
    rw [ofParts_inj (by omega) (by omega) howner]
    exact hup
  · intro hup
    have hle := (up_le hup).2
    refine List.mem_map.mpr ⟨nesting q p, List.mem_filter.mpr
      ⟨h.links ▸ mem_nestings.mpr ⟨p, q, hup, rfl⟩, ?_⟩, Nat.mod_eq_of_lt (by omega)⟩
    simp [nesting]

/-- No row is linked twice. -/
theorem linkedChildren_nodup (owner : Token) : (s.linkedChildren .nestedTypes owner).Nodup := by
  have hplaces : ups.zipIdx.Pairwise fun a b => a.2 < b.2 := by
    rw [← List.pairwise_map (f := Prod.snd), List.zipIdx_map_snd]
    exact List.pairwise_lt_range'
  have hlinks : (nestings ups).Pairwise fun l l' => l.child.row.val ≠ l'.child.row.val := by
    unfold nestings
    rw [List.pairwise_filterMap]
    refine hplaces.imp_of_mem fun {a b} ha hb hlt l hl l' hl' => ?_
    obtain ⟨q, -, rfl⟩ := Option.map_eq_some_iff.mp hl
    obtain ⟨q', -, rfl⟩ := Option.map_eq_some_iff.mp hl'
    have hb' := List.snd_lt_of_mem_zipIdx hb
    have hvalue : ∀ q' i, i < ups.length → (nesting q' (i + 1)).child.row.val = i + 1 :=
      fun q' i hi => Nat.mod_eq_of_lt (by omega)
    rw [hvalue q a.2 (by omega), hvalue q' b.2 (by omega)]
    omega
  have hnodup : (s.links.map (·.child.row.val)).Nodup := by
    rw [h.links]
    exact List.pairwise_map.mpr hlinks
  exact (List.filter_sublist.map _).nodup hnodup

omit hn in
theorem rids : s.typeDefs.map (·.rid) = (List.range ups.length).map (· + 1) := by
  have hheads := congrArg (List.map RowHead.rid) h.heads
  rwa [List.map_map, List.map_map] at hheads

/-- A row is listed for the module where it is nested in no other. -/
theorem mem_topLevel :
    p ∈ s.children .typeDefs moduleToken ↔ 0 < p ∧ p ≤ ups.length ∧ up ups p = none := by
  have htop : ∀ {p}, p ≤ ups.length →
      (s.isTopLevel (Token.ofParts .typeDef p) = true ↔ up ups p = none) := by
    intro p hle
    rw [isTopLevel, h.linkedOwner?_eq hn hle]
    cases up ups p <;> simp
  rw [topLevel_eq, List.mem_map]
  constructor
  · rintro ⟨r, hr, rfl⟩
    obtain ⟨hmem, hfree⟩ := List.mem_filter.mp hr
    obtain ⟨i, hi, hget⟩ := List.getElem_of_mem hmem
    have hrow : nth s.typeDefs (i + 1) = some r := by
      rw [nth, if_neg (Nat.succ_ne_zero i), Nat.add_sub_cancel, List.getElem?_eq_getElem hi, hget]
    obtain ⟨hpos, hle, hhead⟩ := h.row hrow
    have hrid : r.rid = i + 1 := congrArg RowHead.rid hhead
    have htoken : r.token = Token.ofParts .typeDef (i + 1) := congrArg RowHead.token hhead
    rw [htoken] at hfree
    rw [hrid]
    exact ⟨hpos, hle, (htop hle).mp hfree⟩
  · rintro ⟨hpos, hle, hup⟩
    obtain ⟨r, hr⟩ := h.exists_row hpos hle
    obtain ⟨-, -, hhead⟩ := h.row hr
    have hmem : r ∈ s.typeDefs := by
      rw [nth, if_neg (Nat.ne_of_gt hpos)] at hr
      exact List.mem_of_getElem? hr
    have htoken : r.token = Token.ofParts .typeDef p := congrArg RowHead.token hhead
    refine ⟨r, List.mem_filter.mpr ⟨hmem, ?_⟩, congrArg RowHead.rid hhead⟩
    rw [htoken]
    exact (htop hle).mpr hup

omit hn in
theorem topLevel_nodup : (s.children .typeDefs moduleToken).Nodup := by
  have hrids : (s.typeDefs.map (·.rid)).Nodup := by
    rw [h.rids]
    exact (List.nodup_map_iff fun _ _ heq => Nat.succ.inj heq).mpr List.nodup_range
  rw [topLevel_eq]
  exact (List.filter_sublist.map _).nodup hrids

/-- What the store names as the container of a row. -/
theorem parent?_typeDefs (hpos : 0 < p) (hle : p ≤ ups.length) :
    s.parent? .typeDefs (Token.ofParts .typeDef p) =
      if up ups p = none then some moduleToken else none := by
  obtain ⟨r, hr⟩ := h.exists_row hpos hle
  have hrow : (nth s.typeDefs (Token.ofParts .typeDef p).row.val).isSome := by
    have hvalue : (Token.ofParts .typeDef p).row.val = p := Nat.mod_eq_of_lt (by omega)
    rw [hvalue, hr]
    rfl
  have htop : s.isTopLevel (Token.ofParts .typeDef p) = true ↔ up ups p = none := by
    rw [isTopLevel, h.linkedOwner?_eq hn hle]
    cases up ups p <;> simp
  have htable : (Token.ofParts .typeDef p).tableId? = some .typeDef := rfl
  unfold parent?
  refine if_congr ?_ rfl rfl
  exact ⟨fun hall => htop.mp hall.2.2.1, fun hup => ⟨htable, hrow, htop.mpr hup, h.module⟩⟩

end Forest

/-! ## Whole sequences of calls -/

section Calls

variable (name : String) (calls : List TypeCall)

/-- The tokens of the types that calls add to a module. -/
theorem addModuleTypes_tokens :
    ((addModuleTypes name calls).run empty).1 =
      (List.range' 1 calls.length).map (Token.ofParts .typeDef) :=
  addTypes_tokens calls ((addModule name).run empty).2

theorem tokens_getElem? {j : Nat} {t : Token}
    (h : ((addModuleTypes name calls).run empty).1[j]? = some t) :
    j < calls.length ∧ t = Token.ofParts .typeDef (j + 1) := by
  rw [addModuleTypes_tokens, List.getElem?_map] at h
  obtain ⟨p, hp, rfl⟩ := Option.map_eq_some_iff.mp h
  obtain ⟨hlt, hget⟩ := List.getElem?_eq_some_iff.mp hp
  rw [List.getElem_range'] at hget
  exact ⟨by simpa using hlt, by rw [← hget, Nat.one_mul, Nat.add_comm]⟩

/-- The row that the type of each call is nested in. -/
def enclosingRows : List (Option Nat) := calls.map fun c => c.enclosing?.map (·.row.val)

/-- **Calls build a forest**, where each token of a container has been returned before. -/
theorem addModuleTypes_forest (hn : calls.length < rowLimit)
    (h : Enclosed calls ((addModuleTypes name calls).run empty).1) :
    ((addModuleTypes name calls).run empty).2.Forest (enclosingRows calls) := by
  have hempty : ((addModule name).run empty).2.Forest [] := ⟨rfl, rfl, rfl, fun hi => by cases hi⟩
  refine hempty.addTypes calls (by simpa using hn) fun i c t hc ht => ?_
  obtain ⟨j, hj, htoken⟩ := h i c t hc ht
  obtain ⟨-, rfl⟩ := tokens_getElem? name calls htoken
  refine ⟨j + 1, Nat.succ_pos j, ?_, rfl⟩
  rw [List.length_nil, Nat.zero_add]
  exact hj

/-- How deep a row is nested, among rows that are nested as a list says. -/
inductive Nested (ups : List (Option Nat)) : (p depth : Nat) → Prop where
  | top {p : Nat} : 0 < p → p ≤ ups.length → up ups p = none → Nested ups p 0
  | inside {p q depth : Nat} : up ups p = some q → Nested ups q depth → Nested ups p (depth + 1)

namespace Nested

variable {p depth : Nat}

theorem row (h : Nested ups p depth) : 0 < p ∧ p ≤ ups.length := by
  cases h with
  | top hpos hle _ => exact ⟨hpos, hle⟩
  | inside hup _ => exact up_le hup

/-- A row is nested to one depth. -/
theorem unique (h : Nested ups p depth) : ∀ {k : Nat}, Nested ups p k → k = depth := by
  induction h with
  | top _ _ hup =>
    intro k h'
    cases h' with
    | top _ _ _ => rfl
    | inside hup' _ =>
      rw [hup] at hup'
      cases hup'
  | inside hup _ ih =>
    intro k h'
    cases h' with
    | top _ _ hup' =>
      rw [hup] at hup'
      cases hup'
    | inside hup' h' =>
      rw [hup] at hup'
      obtain rfl := Option.some.inj hup'
      exact congrArg Nat.succ (ih h')

end Nested

theorem up_enclosingRows {p : Nat} :
    up (enclosingRows calls) p = (nth calls p).bind fun c => c.enclosing?.map (·.row.val) := by
  unfold up enclosingRows nth
  split
  · rfl
  · rw [List.getElem?_map]
    cases calls[p - 1]? <;> rfl

/-- A row is nested as deep as the type of its call. -/
theorem Nested.depth (hn : calls.length < rowLimit)
    (h : Enclosed calls ((addModuleTypes name calls).run empty).1) {p depth : Nat}
    (hp : Nested (enclosingRows calls) p depth) :
    Depth calls ((addModuleTypes name calls).run empty).1 (p - 1) depth := by
  induction hp with
  | @top p hpos hle hup =>
    have hlt : p - 1 < calls.length := by
      rw [enclosingRows, List.length_map] at hle
      omega
    have hc : calls[p - 1]? = some calls[p - 1] := List.getElem?_eq_getElem hlt
    rw [up_enclosingRows, nth, if_neg (Nat.ne_of_gt hpos), hc] at hup
    exact .top hc (Option.map_eq_none_iff.mp hup)
  | @inside p q depth hup _ ih =>
    have hpos := (up_le hup).1
    rw [up_enclosingRows, nth, if_neg (Nat.ne_of_gt hpos)] at hup
    obtain ⟨c, hc, henclosing⟩ := Option.bind_eq_some_iff.mp hup
    obtain ⟨t, ht, rfl⟩ := Option.map_eq_some_iff.mp henclosing
    obtain ⟨j, hj, htoken⟩ := h (p - 1) c t hc ht
    obtain ⟨hlt, rfl⟩ := tokens_getElem? name calls htoken
    have hvalue : (Token.ofParts .typeDef (j + 1)).row.val = j + 1 :=
      Nat.mod_eq_of_lt (by omega)
    have hdepth : Depth calls ((addModuleTypes name calls).run empty).1 j depth := by
      rw [hvalue, Nat.add_sub_cancel] at ih
      exact ih
    exact .nested hc ht htoken hdepth

/-- A type is nested no deeper than there are calls before its own. -/
theorem Depth.le (hn : calls.length < rowLimit)
    (h : Enclosed calls ((addModuleTypes name calls).run empty).1) {i depth : Nat}
    (hi : Depth calls ((addModuleTypes name calls).run empty).1 i depth) : depth ≤ i := by
  induction hi with
  | top _ _ => exact Nat.zero_le _
  | @nested i j depth c t hc ht htoken _ ih =>
    obtain ⟨j', hj', htoken'⟩ := h i c t hc ht
    obtain ⟨hlt, rfl⟩ := tokens_getElem? name calls htoken
    obtain ⟨hlt', hsame⟩ := tokens_getElem? name calls htoken'
    have hrow := ofParts_inj (by omega) (by omega) hsame
    omega

end Calls

/-- Every row of a forest is nested to some depth. -/
theorem Forest.nested {s : Store} {ups : List (Option Nat)} (h : s.Forest ups) :
    ∀ (p : Nat), 0 < p → p ≤ ups.length → ∃ depth, Nested ups p depth := by
  intro p
  induction p using Nat.strongRecOn with
  | ind p ih =>
    intro hpos hle
    cases hup : up ups p with
    | none => exact ⟨0, .top hpos hle hup⟩
    | some q =>
      obtain ⟨hq, hlt⟩ := h.up_lt hup
      obtain ⟨depth, hdepth⟩ := ih q hlt hq (by omega)
      exact ⟨depth + 1, .inside hup hdepth⟩

end CliMetadata.Store
