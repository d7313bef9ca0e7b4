import CliMetadata.Proofs.Graph.OnDemand

/-!
# Rows by number

An accessor of a module gives the entity of a row by the number of the row.  Entities of rows come into
the graph in many ways, by accessors, coded indices, signatures and lists, and private copies come with
them; but **reading leaves the rows as they are** (`Graph.SameRows`): which of them there are, and by
what number and token their entities go.  So an accessor finds a row exactly if the store has it, and
finds the same entity whatever has been read before (`RowAccessor.read_labelled`).

What is not found is reported by the token of the number asked for.  A token has room for three bytes
of it, so from `rowLimit` on **the token that is reported is another row's**, which may well be there.
-/

namespace CliMetadata

open CliMetadata.Graph Loading Stateful

/-- **A store whose rows carry their own place and token.** -/
def Store.Labelled (s : Store) : Prop :=
  ∀ table place row, s.row? table place = some row → row.head = ⟨place, Token.ofParts table place⟩

instance (s : Store) : Decidable s.Labelled := decidable_of_iff _ s.forall_row_iff.symm

namespace Graph

variable {g g' : Graph}

theorem token_eq (g : Graph) (n : Node) : g.token n =
    (g.entity n).fixedToken?.getD (Token.ofParts n.kind.table (g.entity n).rid) := rfl

/-- **Two graphs in which the rows are the same.** -/
structure SameRows (g g' : Graph) : Prop extends Alike g g' where
  rid : ∀ k l p, (g'.entity ⟨k, .row l p⟩).rid = (g.entity ⟨k, .row l p⟩).rid
  fixedToken? : ∀ k l p,
    (g'.entity ⟨k, .row l p⟩).fixedToken? = (g.entity ⟨k, .row l p⟩).fixedToken?

namespace SameRows

instance : IsPreorder Graph SameRows where
  refl g := ⟨.refl g, fun _ _ _ => rfl, fun _ _ _ => rfl⟩
  trans _ _ _ h k := ⟨h.toAlike.trans k.toAlike,
    fun i l p => (k.rid i l p).trans (h.rid i l p),
    fun i l p => (k.fixedToken? i l p).trans (h.fixedToken? i l p)⟩

/-- Entities of rows read the same. -/
theorem of_entity (h : g.Alike g') (he : ∀ k l p, g'.entity ⟨k, .row l p⟩ = g.entity ⟨k, .row l p⟩) :
    g.SameRows g' :=
  ⟨h, fun k l p => congrArg Entity.rid (he k l p), fun k l p => congrArg Entity.fixedToken? (he k l p)⟩

theorem token (h : g.SameRows g') (k : Kind) (l p : Nat) :
    g'.token ⟨k, .row l p⟩ = g.token ⟨k, .row l p⟩ := by
  rw [token_eq, token_eq, h.rid, h.fixedToken?]

end SameRows

/-- **Reading leaves the rows as they are**, where slots are filled of rows that there are. -/
theorem sameRows_steps : Steps (fun g n => n.key.IsRow → g.present n) SameRows where
  lasting {g g' n} h hn hrow := by
    obtain ⟨kind, key⟩ := n
    cases key with
    | built _ => exact hrow.elim
    | row l p => exact (h.rows kind l p).trans (hn hrow)
  alongside {g g'} h := by
    have hl := loader?_congr h.entities
    refine .of_entity ⟨hl, fun k l p => ?_⟩ fun k l p => ?_
    · rw [present, present, h.entities, hasRow_congr hl]
    · exact entity_congr (by rw [h.entities]) hl
  made {g k ρ _ _ id r} hk hp he := by
    have hl := loader?_put (g := g) hk id r
    refine .of_entity ⟨hl, fun _ _ _ => present_put hl hp _⟩ fun k' l p => ?_
    by_cases hid : id.node = ⟨k', .row l p⟩
    · rw [← hid, entity_put, he]
    · exact entity_put_of_ne hl hid
  grown {g k ρ _ r} hk := by
    have hl := loader?_put (g := g) hk ⟨.built g.built⟩ r
    have hne : ∀ k' l p, (⟨.built g.built⟩ : Id k).node ≠ ⟨k', .row l p⟩ := by
      intro k' l p h
      cases congrArg Node.key h
    exact .of_entity ⟨hl, fun _ _ _ => present_put_of_ne hl (hne _ _ _)⟩ fun _ _ _ =>
      entity_congr (Index.get?_set_other _ _ (hne _ _ _)) hl
  filled {g p k ρ α _ _ get set id v} hp hS _ := by
    have hl := hp.loader? id v g
    refine ⟨⟨hl, fun k' l q => ?_⟩, fun _ _ _ => hp.publish_congr hp.rid id v g _,
      fun _ _ _ => hp.publish_congr hp.fixedToken? id v g _⟩
    by_cases hid : id.node = ⟨k', .row l q⟩
    · exact present_put hl (hS (hid ▸ trivial)) _
    · exact present_put_of_ne hl hid
  listed _ _ := .of_entity ⟨fun _ => rfl, fun _ _ _ => rfl⟩ fun _ _ _ => rfl

end Graph

/-! ## Tokens -/

theorem TableId.byte_inj {t t' : TableId} (h : t.byte = t'.byte) : t = t' := by
  have hfound := congrArg TableId.ofByte? h
  rw [ofByte?_byte, ofByte?_byte] at hfound
  exact Option.some.inj hfound

/-- The tokens of two rows are the same where the tables are and the numbers have the same low three
bytes. -/
theorem Token.ofParts_eq_iff {t t' : TableId} {p q : Nat} :
    Token.ofParts t p = Token.ofParts t' q ↔ t = t' ∧ p % rowLimit = q % rowLimit := by
  constructor
  · intro h
    exact ⟨TableId.byte_inj (congrArg Token.table h), congrArg (fun token => token.row.val) h⟩
  · rintro ⟨rfl, h⟩
    exact congrArg (Token.mk t.byte) (Fin.ext h)

/-- A token tells the number of a row where it has room for it. -/
theorem Token.ofParts_row_eq_iff {t : TableId} {p : Nat} :
    (Token.ofParts t p).row.val = p ↔ p < rowLimit := by
  rw [Token.ofParts_row]
  exact Nat.mod_eq_iff_lt (by decide)

/-! ## Accessors -/

theorem ModuleId.row_run {k : Kind} {find : (loader rid : Nat) → GraphM (Option (Id k))} {g : Graph}
    {l : Nat} (h : (g.loader? l).isSome) (rid : Nat) :
    (ModuleId.row find ⟨.built l⟩ rid).run g =
      (match ((find l rid).run g).1 with
        | some id => .ok id
        | none => .error (.rowNotFound (Token.ofParts k.table rid)), ((find l rid).run g).2) := by
  have hfound : (ModuleId.row find ⟨.built l⟩ rid).run g =
      ((if (g.loader? l).isSome then find l rid else pure none) >>= fun found => pure (match found with
        | some id => Except.ok id
        | none => .error (.rowNotFound (Token.ofParts k.table rid)))).run g := by
    unfold ModuleId.row
    dsimp only
    rw [run_get_bind]
    split <;> rfl
  rw [hfound, if_pos h]
  rfl

namespace RowAccessor

variable {s : Store} {policy : InitPolicy} {g : Graph} {k : Kind}

/-- The entity of a row that has not been read goes by the number and the token of the row. -/
theorem Finds.unmade {ρ : Type} [Recorded k ρ] [Recorded.Rowed k] {a : RowAccessor k}
    {find : (loader rid : Nat) → GraphM (Option (Id k))} (h : a.Finds find)
    (hg : g.Unmade s policy) (hl : s.Labelled) {p : Nat} {row : Row}
    (hrow : s.row? k.table p = some row) :
    g.rid ⟨k, .row 0 p⟩ = row.head.rid ∧ g.token ⟨k, .row 0 p⟩ = row.head.token := by
  have hrid := h.rid s 0 p
  rw [hrow] at hrid
  obtain ⟨r, hr, hrid⟩ := Option.map_eq_some_iff.mp hrid
  -- the entity reads as its row has it
  have hentity : g.entity ⟨k, .row 0 p⟩ = Recorded.pack k r :=
    (Recorded.Lawful.entity_node (ρ := ρ) g ⟨.row 0 p⟩).trans (congrArg _ (hg.get hr))
  have htoken : (Recorded.pack k r).fixedToken? = none ∨
      (Recorded.pack k r).fixedToken? = some row.head.token := by
    refine h.token.imp (fun ht => ?_) fun ht => ?_
    all_goals
      have htold := ht s 0 p
      rw [hrow, hr] at htold
      exact Option.some.inj htold
  refine ⟨(congrArg Entity.rid hentity).trans hrid, ?_⟩
  rw [token_eq, hentity, hrid]
  rcases htoken with ht | ht
  · -- the token follows the number
    rw [ht]
    dsimp only [Option.getD_none]
    rw [hl _ _ _ hrow]
  · rw [ht]
    rfl

/-- **An accessor finds a row exactly if the store has it**, by whatever number it is asked for one and
whatever has been read before: always the same entity, which goes by the number and the token of the
row.  What is not found is reported by a token, which tells the number that was asked for exactly if it
has room for it, and which is the token of a row exactly if there is one whose number has the same low
three bytes. -/
theorem read_labelled (hl : s.Labelled) (hg : s.Visited policy g)
    (a : RowAccessor k) (rid : Nat) :
    let found := (a.read ⟨.built 0⟩ rid).run g
    let t := Token.ofParts k.table rid
    (∀ row, s.row? k.table rid = some row →
      found.1 = .ok ⟨.row 0 rid⟩ ∧ found.2.rid ⟨k, .row 0 rid⟩ = row.head.rid ∧
        found.2.token ⟨k, .row 0 rid⟩ = row.head.token) ∧
      (s.row? k.table rid = none →
        found.1 = .error (.rowNotFound t) ∧ (t.row.val = rid ↔ rid < rowLimit) ∧
          ((∃ table place row, s.row? table place = some row ∧ row.head.token = t) ↔
            ∃ place, place % rowLimit = rid % rowLimit ∧ (s.row? k.table place).isSome)) := by
  obtain ⟨ρ, _, _, find, hfind⟩ := a.found
  obtain ⟨g₀, hopened, hrows⟩ := hg.keeps sameRows_steps id
  have hunmade := hopened.unmade
  have hopen : (g.loader? 0).isSome := by
    rw [hrows.loader, hunmade.loader]
    rfl
  have hpresent : g.present ⟨k, .row 0 rid⟩ = (s.row? k.table rid).isSome :=
    (hrows.rows k 0 rid).trans (hunmade.present k rid)
  have hvalue := (hfind.value g 0 rid).value
  have hafter : g₀.SameRows ((find 0 rid).run g).2 :=
    trans_of SameRows hrows (hfind.keeps sameRows_steps 0 rid g)
  rw [hpresent] at hvalue
  dsimp only
  rw [hfind.read, ModuleId.row_run hopen, hvalue]
  refine ⟨fun row hrow => ?_, fun hnone => ?_⟩
  · obtain ⟨hrid, htoken⟩ := hfind.unmade hunmade hl hrow
    rw [hrow]
    exact ⟨rfl, (hafter.rid k 0 rid).trans hrid, (hafter.token k 0 rid).trans htoken⟩
  · rw [hnone]
    refine ⟨rfl, Token.ofParts_row_eq_iff, ?_, ?_⟩
    · rintro ⟨table, place, row, hrow, htoken⟩
      rw [hl _ _ _ hrow] at htoken
      obtain ⟨rfl, hplace⟩ := Token.ofParts_eq_iff.mp htoken
      exact ⟨place, hplace, Option.isSome_of_eq_some hrow⟩
    · rintro ⟨place, hplace, hsome⟩
      obtain ⟨row, hrow⟩ := Option.isSome_iff_exists.mp hsome
      refine ⟨_, place, row, hrow, ?_⟩
      rw [hl _ _ _ hrow]
      exact Token.ofParts_eq_iff.mpr ⟨rfl, hplace⟩

end RowAccessor

/-! ## A number that a token has no room for -/

namespace Store

/-- A store of a type. -/
def oneType : Store :=
  { Store.empty with
    modules := [⟨⟨1, Token.ofParts .module 1⟩, 0, 0, 0⟩]
    typeDefs := [⟨⟨1, Token.ofParts .typeDef 1⟩, 0, 0, 0, .null⟩] }

/-- The type is found, after its fields have been read, and the row with the next number is not. -/
theorem oneType_read :
    let g := ((Demand.items .fields ⟨.typeDef, .row 0 1⟩).read.run (oneType.loaded .noLocking)).2
    oneType.Labelled ∧ oneType.Visited .noLocking g ∧
      ((RowAccessor.typeDef.read ⟨.built 0⟩ 1).run g).1 = .ok ⟨.row 0 1⟩ ∧
      ((RowAccessor.typeDef.read ⟨.built 0⟩ 2).run g).1 =
        .error (.rowNotFound (Token.ofParts .typeDef 2)) := by
  intro g
  have hlabelled : oneType.Labelled := by decide +kernel
  have hvisited : oneType.Visited .noLocking g :=
    .demand (.opened (.module rfl)) _ fun _ => by decide +kernel
  refine ⟨hlabelled, hvisited, ?_, ?_⟩
  · exact ((RowAccessor.read_labelled hlabelled hvisited .typeDef 1).1 _ rfl).1
  · exact ((RowAccessor.read_labelled hlabelled hvisited .typeDef 2).2 rfl).1

/-- A row with a number that a token has no room for is reported by the token of the type that there
is. -/
theorem oneType_misreported :
    let found := ((RowAccessor.typeDef.read ⟨.built 0⟩ (rowLimit + 1)).run
      (oneType.loaded .noLocking)).1
    let t := Token.ofParts .typeDef 1
    oneType.Labelled ∧ rowLimit + 1 < 2 ^ 32 ∧ oneType.row? .typeDef (rowLimit + 1) = none ∧
      found = .error (.rowNotFound t) ∧ t.row.val ≠ rowLimit + 1 ∧
      ∃ row, oneType.row? .typeDef 1 = some row ∧ row.head.token = t :=
  ⟨by decide +kernel, by decide, rfl, rfl, by decide, _, rfl, rfl⟩

end Store
end CliMetadata
