import CliMetadata.Graph.Opening
import CliMetadata.Proofs.Identity.DisplayNames
import CliMetadata.Proofs.Identity.Requests
import CliMetadata.Proofs.Store.Calls

/-!
# The token that an assembly goes by

An assembly reports a token of its strong name, its display name ends with one, and requests are
answered by comparing tokens.  The display name and requests take the SHA-1 digest of a public key,
while **the assembly reports a token under its own hash algorithm**.  So the token that it reports is
the one that it goes by exactly if both digests give the key the same token
(`Assembly.GoesByItsToken`, `AssemblyId.publicKeyToken_iff`): the algorithm is not MD5, or there is
no public key in full, or the MD5 digest of the key happens to end like its SHA-1 digest.
-/

namespace CliMetadata

open Text

/-! ## The token at the end of a display name -/

namespace AssemblyIdentity

/-- The token of the strong name. -/
def token? (i : AssemblyIdentity) : Option KeyToken :=
  i.strongName.map fun s => s.toToken HashAlgorithm.sha1

/-- How a token is written, or that there is none. -/
def writtenToken (t? : Option KeyToken) : List Char := tokenText (t?.map StrongName.token)

/-- The display name ends with a token, or with the word that there is none. -/
def PrintsToken (i : AssemblyIdentity) (t? : Option KeyToken) : Prop :=
  ", PublicKeyToken=".toList ++ writtenToken t? <:+ i.display.toList

instance (i : AssemblyIdentity) (t? : Option KeyToken) : Decidable (i.PrintsToken t?) :=
  inferInstanceAs (Decidable (_ <:+ _))

section Printing

variable {i : AssemblyIdentity} {t t' : KeyToken} {t? t'? : Option KeyToken}

theorem printsToken (i : AssemblyIdentity) : i.PrintsToken i.token? := by
  obtain ⟨name, version, culture, strongName⟩ := i
  refine ⟨(name ++ ", Version=" ++ version.display ++ ", Culture="
    ++ culture.getD "neutral").toList, ?_⟩
  cases strongName <;>
    simp [display, token?, writtenToken, tokenText, StrongName.toToken, Hex.ofBytes,
      String.toList_append]

theorem writtenToken_some (t : KeyToken) : writtenToken (some t) = t.val.flatMap Hex.pair := rfl

/-- No token has the word for none in it. -/
theorem not_null_suffix (t : KeyToken) : ¬ writtenToken none <:+ writtenToken (some t) := by
  intro h
  have hn : 'n' ∈ t.val.flatMap Hex.pair := h.subset (by decide)
  have hrange := Hex.mem_ofBytes hn
  revert hrange
  decide

theorem length_writtenToken (t : KeyToken) : (writtenToken (some t)).length = 16 := by
  rw [writtenToken_some, Hex.length_ofBytes, t.property]

/-- The word for none is shorter than a token. -/
theorem not_token_suffix (t : KeyToken) : ¬ writtenToken (some t) <:+ writtenToken none := by
  intro h
  have hlength := h.length_le
  rw [length_writtenToken] at hlength
  exact absurd hlength (by decide)

/-- **What a text ends with is one token at most.** -/
theorem writtenToken_inj {text : List Char} (h : writtenToken t? <:+ text)
    (h' : writtenToken t'? <:+ text) : t? = t'? := by
  have hnested := List.suffix_or_suffix_of_suffix h h'
  cases t? with
  | none =>
    cases t'? with
    | none => rfl
    | some t' => exact (hnested.elim (not_null_suffix t') (not_token_suffix t')).elim
  | some t =>
    cases t'? with
    | none => exact (hnested.elim (not_token_suffix t) (not_null_suffix t)).elim
    | some t' =>
      have hlength : (writtenToken (some t)).length = (writtenToken (some t')).length := by
        rw [length_writtenToken, length_writtenToken]
      have hsame : writtenToken (some t) = writtenToken (some t') :=
        hnested.elim (·.eq_of_length hlength) fun hs => (hs.eq_of_length hlength.symm).symm
      -- the bytes are read back from the digits
      have hbytes := congrArg tokenBytes? hsame
      rw [writtenToken_some, writtenToken_some, tokenBytes?_pairs, tokenBytes?_pairs] at hbytes
      exact congrArg some (Subtype.ext (Option.some.inj hbytes))

theorem printsToken_iff : i.PrintsToken t? ↔ i.token? = t? := by
  refine ⟨fun h => ?_, fun h => h ▸ printsToken i⟩
  have own := (List.suffix_append _ _).trans (printsToken i)
  exact writtenToken_inj own ((List.suffix_append _ _).trans h)

/-- A request for a token is answered by what has that token, and by what has no strong name. -/
theorem satisfies_token_iff :
    i.satisfies { i with strongName := some (.token t) } = true ↔ ∀ own ∈ i.token?, own = t := by
  rw [satisfies_strongName, token?]
  cases i.strongName with
  | none => simp [strongNamesAgree]
  | some s =>
    show (s.toToken HashAlgorithm.sha1 == t) = true ↔ _
    simp only [beq_iff_eq, Option.map_some, Option.mem_some_iff, forall_eq']

end Printing
end AssemblyIdentity

/-! ## The token that an assembly reports -/

/-- **Both digests give the public key of an assembly the same token**, if the assembly has one in
full and names MD5. -/
def Assembly.GoesByItsToken (r : Assembly) : Prop :=
  ∀ key, r.identity.strongName = some (.publicKey key) → r.hashAlgorithm = HashAlgorithm.md5 →
    KeyToken.lastOf (Hash.Md5.digest key) = KeyToken.lastOf (Hash.Sha1.digest key)

theorem StrongName.toToken_of_ne (s : StrongName) {algorithm : HashAlgorithm}
    (h : algorithm ≠ HashAlgorithm.md5) :
    s.toToken algorithm = s.toToken HashAlgorithm.sha1 := by
  have hsha1 : HashAlgorithm.sha1 ≠ HashAlgorithm.md5 := by decide
  cases s with
  | token t => rfl
  | publicKey key => simp [toToken, h, hsha1]

namespace AssemblyId

variable {g : Graph} {a : AssemblyId}

theorem publicKeyToken_eq_iff :
    a.publicKeyToken g = (g.get a).identity.token? ↔ (g.get a).GoesByItsToken := by
  have hsha1 : HashAlgorithm.sha1 ≠ HashAlgorithm.md5 := by decide
  simp only [publicKeyToken, AssemblyIdentity.token?, Assembly.GoesByItsToken]
  generalize (g.get a).identity.strongName = strongName
  generalize (g.get a).hashAlgorithm = algorithm
  cases strongName with
  | none => simp
  | some s =>
    cases s with
    | token t => simp [StrongName.toToken]
    | publicKey key =>
      by_cases hmd5 : algorithm = HashAlgorithm.md5
      · simp [StrongName.toToken, hmd5, hsha1]
      · simp [StrongName.toToken_of_ne _ hmd5, hmd5]

/-- **An assembly reports the token that it goes by exactly if both digests give its key the same
token.**  It reports one exactly if it has a strong name.  That token is then the one at the end of
the display name, and the one that a request has to carry to be answered, exactly if the hash
algorithm is not MD5, or the strong name is a token itself, or the digests of the key end alike. -/
theorem publicKeyToken_iff (g : Graph) (a : AssemblyId) :
    let assembly := g.get a
    let i := assembly.identity
    let reported := a.publicKeyToken g
    (reported.isSome ↔ i.strongName.isSome) ∧
      (i.PrintsToken reported ↔ assembly.GoesByItsToken) ∧
        ((∀ t ∈ reported, i.satisfies { i with strongName := some (.token t) } = true) ↔
          assembly.GoesByItsToken) := by
  intro assembly i reported
  have hsome : reported.isSome ↔ i.strongName.isSome := by
    simp only [reported, i, assembly, publicKeyToken, Option.isSome_map]
  refine ⟨hsome, ?_, ?_⟩
  · rw [AssemblyIdentity.printsToken_iff, eq_comm]
    exact publicKeyToken_eq_iff
  · rw [← publicKeyToken_eq_iff]
    simp only [AssemblyIdentity.satisfies_token_iff]
    -- both tokens are there, or neither is
    have htoken : i.token?.isSome ↔ reported.isSome := by
      rw [hsome, AssemblyIdentity.token?, Option.isSome_map]
    show (∀ t ∈ reported, ∀ own ∈ i.token?, own = t) ↔ reported = i.token?
    generalize i.token? = own at htoken
    generalize reported = t at htoken
    cases t with
    | none =>
      cases own with
      | none => simp
      | some own => simp at htoken
    | some t =>
      cases own with
      | none => simp at htoken
      | some own => simp [eq_comm]

/-- An assembly with a public key that names MD5. -/
def keyedByMd5 : Store := ((Store.calls [.module "Lib.dll", .name "Lib", .blob (.data [7]),
  .push (.assembly ⟨⟨1, Token.ofParts .assembly 1⟩, HashAlgorithm.md5, ⟨1, 0, 0, 0⟩,
    AssemblyFlags.publicKey, 1, 9, 0⟩)]).run Store.empty).2

/-- **Under MD5 the token that is reported is another one**: the display name does not end with it,
and a request that carries it is not answered. -/
theorem publicKeyToken_md5 :
    let g := ((openAssembly keyedByMd5 .perEntityLock).run .empty).2
    let i := (g.get (⟨.built 1⟩ : AssemblyId)).identity
    let t : KeyToken := ⟨[122, 41, 222, 6, 22, 121, 77, 93], rfl⟩
    i = ⟨"Lib", ⟨1, 0, 0, 0⟩, none, some (.publicKey [7])⟩ ∧
      publicKeyToken g ⟨.built 1⟩ = some t ∧ ¬ i.PrintsToken (some t) ∧
        i.satisfies { i with strongName := some (.token t) } = false := by
  decide +kernel

end AssemblyId
end CliMetadata
