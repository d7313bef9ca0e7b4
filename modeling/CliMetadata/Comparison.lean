import CliMetadata.Graph.Modules

/-!
# Comparing types and signatures

Two types are equal when their paths are, two specifications when their
signatures are, and two signatures when they are built alike from equal parts.
`CompareOptions` says what else counts: the scope that a type is looked for in,
and the arguments after the sentinel of a method signature; or what does not,
the custom modifiers.

Every comparison has a depth budget, which each signature and each reference
spends one of; a comparison that runs out of it fails.  So it ends on
specifications that refer back to themselves, too.
-/

namespace CliMetadata

/-- What a comparison counts. -/
structure CompareOptions where
  /-- The assembly or module that a type is looked for in counts. -/
  scope : Bool := false
  /-- Custom modifiers do not count. -/
  ignoreModifiers : Bool := false
  /-- The arguments after the sentinel count. -/
  varargs : Bool := false
deriving Repr, DecidableEq

/-- Whether the entries of two lists are equal, pair by pair up to the end of the shorter list.
Nothing after the first pair that differs is compared. -/
def pairsEqual {α : Type} (equal : α → α → GraphM Bool) : List α → List α → GraphM Bool
  | a :: as, b :: bs => do if ← equal a b then pairsEqual equal as bs else return false
  | _, _ => return true

/-- Whether two lists are equally long and equal entry by entry.  The lengths come first: as
comparing entries may load what they refer to, lists of different lengths load nothing. -/
def allEqual {α : Type} (equal : α → α → GraphM Bool) (as bs : List α) : GraphM Bool :=
  if as.length == bs.length then pairsEqual equal as bs else return false

/-- A signature without the custom modifiers around it, at most `bound` of them. -/
def TypeSig.stripModifiers {ρ : Type} : (bound : Nat) → TypeSig ρ → TypeSig ρ
  | n + 1, .modified _ _ base => stripModifiers n base
  | _, t => t

namespace CompareOptions

/-- The path that a type is compared by; a specification has none. -/
def path? : TypeDefOrRef → GraphM (Option TypePath)
  | .typeDef t => t.path?
  | .typeRef r => r.path?
  | .typeSpec _ => return none

/-- The name that a module gives to what it contains: that of its assembly, where
it has one. -/
def moduleScope (m : ModuleId) : GraphM String := do
  match ← m.assembly with
  | some a => return ((← get).get a).identity.name
  | none => return ((← get).get m).name.lossy

/-- The name of the assembly or module that a type is looked for in. -/
def scopeName? : TypeDefOrRef → GraphM (Option String)
  | .typeDef t => do
    match ← t.module with
    | some m => some <$> moduleScope m
    | none => return none
  | .typeRef r => do
    match ← r.nonNested with
    | none => return none
    | some outermost =>
      match ← outermost.scope with
      | some (.assemblyRef a) => return some ((← get).get a).name.lossy
      | some (.module m) =>
        match (← get).upgrade m with
        | some m => some <$> moduleScope m
        | none => return none
      | some (.moduleRef _) =>
        match ← r.module with
        | some m => some <$> moduleScope m
        | none => return none
      | _ => return none
  | .typeSpec _ => return none

/-- Whether two types that are no specifications are equal. -/
def pathsEqual (o : CompareOptions) (a b : TypeDefOrRef) : GraphM Bool := do
  let pathA ← path? a
  let pathB ← path? b
  match pathA, pathB with
  | some p, some q =>
    if p != q then return false
    else if o.scope then
      let scopeA ← scopeName? a
      let scopeB ← scopeName? b
      match scopeA, scopeB with
      | some s, some t => return Text.Ascii.sameText s t
      | _, _ => return false
    else return true
  | _, _ => return false

/-- Whether the heads of two method signatures agree in what counts: everything
but the native calling convention. -/
def headsEqual (a b : MethodHead) : Bool :=
  a.hasThis == b.hasThis && a.explicitThis == b.explicitThis && a.vararg == b.vararg
    && a.genericCount == b.genericCount

mutual

/-- Whether two types are equal, within a depth budget. -/
def typesEqual (o : CompareOptions) : (depth : Nat) → TypeDefOrRef → TypeDefOrRef → GraphM Bool
  | 0, _, _ => return false
  | d + 1, .typeSpec a, .typeSpec b => do
    if a = b then return true
    let sigA ← a.sig
    let sigB ← b.sig
    match sigA, sigB with
    | some s, some t => sigsEqual o d s t
    | _, _ => return false
  | _ + 1, .typeSpec _, _ => return false
  | _ + 1, _, .typeSpec _ => return false
  | _ + 1, a, b => pathsEqual o a b

/-- Whether two signatures are equal, within a depth budget. -/
def sigsEqual (o : CompareOptions) : (depth : Nat) → Sig → Sig → GraphM Bool
  | 0, _, _ => return false
  | d + 1, a, b => do
    let strip := fun t => if o.ignoreModifiers then TypeSig.stripModifiers recursionBound t else t
    match strip a, strip b with
    | .leaf l, .leaf m => return l == m
    | .named k s, .named l t => if k == l then typesEqual o d s t else return false
    | .param s i, .param t j => return s == t && i == j
    | .wrap v s, .wrap w t => if v == w then sigsEqual o d s t else return false
    | .modified k m s, .modified l n t =>
      if k == l then
        if ← typesEqual o d m n then sigsEqual o d s t else return false
      else return false
    | .inst s ss, .inst t ts =>
      if ← sigsEqual o d s t then allEqual (sigsEqual o d) ss ts else return false
    | .fnPtr h s ps vs, .fnPtr i t qs ws =>
      if headsEqual h i then
        if ← sigsEqual o d s t then
          if ← allEqual (sigsEqual o d) ps qs then
            if o.varargs then allEqual (sigsEqual o d) vs ws else return true
          else return false
        else return false
      else return false
    | _, _ => return false

end

/-- Whether two types are equal. -/
def equalTypes (o : CompareOptions) (a b : TypeDefOrRef) : GraphM Bool :=
  o.typesEqual recursionBound a b

/-- Whether two signatures of types are equal. -/
def equalSigs (o : CompareOptions) (a b : Sig) : GraphM Bool :=
  o.sigsEqual recursionBound a b

/-- Whether two method signatures are equal. -/
def equalMethodSigs (o : CompareOptions) (a b : MethodSig TypeDefOrRef) : GraphM Bool := do
  if !headsEqual a.head b.head then return false
  if !(← o.equalSigs a.returnType b.returnType) then return false
  if !(← allEqual o.equalSigs a.params b.params) then return false
  if o.varargs then allEqual o.equalSigs a.varargs b.varargs else return true

/-- Whether two property signatures are equal. -/
def equalPropertySigs (o : CompareOptions) (a b : PropertySig TypeDefOrRef) : GraphM Bool := do
  if a.hasThis != b.hasThis then return false
  if !(← o.equalSigs a.base b.base) then return false
  allEqual o.equalSigs a.params b.params

end CompareOptions
end CliMetadata
