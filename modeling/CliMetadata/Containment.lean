import CliMetadata.Graph.Modules

/-!
# Generic parameters in signatures

Whether a signature mentions a generic parameter anywhere, also behind type
specifications.  Each signature and each specification on the way spends one of
a depth budget, and what lies deeper counts as free of parameters, so the search
ends on specifications that refer back to themselves.
-/

namespace CliMetadata.Containment

/-- Whether a test holds of any entry; the rest is not tested. -/
def any {α : Type} (test : α → GraphM Bool) : List α → GraphM Bool
  | [] => return false
  | x :: xs => do if ← test x then return true else any test xs

/-- The specification that a reference is to. -/
def specOf? : TypeDefOrRef → Option TypeSpecId
  | .typeSpec s => some s
  | _ => none

mutual

/-- Whether a type specification mentions a generic parameter. -/
def spec : (depth : Nat) → TypeSpecId → GraphM Bool
  | 0, _ => return false
  | d + 1, s => do
    match ← s.sig with
    | some t => type d t
    | none => return false

/-- Whether a method signature mentions a generic parameter. -/
def method : (depth : Nat) → MethodSig TypeDefOrRef → GraphM Bool
  | 0, _ => return false
  | d + 1, m => do
    if ← type d m.returnType then return true
    if ← any (type d) m.params then return true
    any (type d) m.varargs

/-- Whether a type signature mentions a generic parameter. -/
def type : (depth : Nat) → Sig → GraphM Bool
  | 0, _ => return false
  | d + 1, t =>
    match t with
    | .leaf _ => return false
    | .param _ _ => return true
    | .named _ r =>
      match specOf? r with
      | some s => spec d s
      | none => return false
    | .wrap _ next => type d next
    | .modified _ m base => do
      let byModifier ← match specOf? m with
        | some s => spec d s
        | none => pure false
      if byModifier then return true
      type d base
    | .inst generic args => do
      if ← type d generic then return true
      any (type d) args
    | .fnPtr head returnType params varargs => method d ⟨head, returnType, params, varargs⟩

end

/-- Whether a reference is to a specification that mentions a generic parameter. -/
def reference (depth : Nat) (r : TypeDefOrRef) : GraphM Bool :=
  match specOf? r with
  | some s => spec depth s
  | none => return false

/-- Whether any signature mentions a generic parameter. -/
def signature : (depth : Nat) → Signature TypeDefOrRef → GraphM Bool
  | depth, .method m => method depth m
  | 0, _ => return false
  | d + 1, .field t => type d t
  | d + 1, .property p => do
    if ← type d p.base then return true else any (type d) p.params
  | d + 1, .locals ts => any (type d) ts
  | d + 1, .instantiation ts => any (type d) ts

/-- Whether a definition mentions a generic parameter: definitions are named, not
spelled out. -/
def typeDef (_ : TypeDefId) : Bool := false

/-- Whether a type reference mentions a generic parameter. -/
def typeRef (_ : TypeRefId) : Bool := false

/-- Whether an exported type mentions a generic parameter. -/
def exportedType (_ : ExportedTypeId) : Bool := false

/-- Whether an instantiated method counts as mentioning a generic parameter: it
does whatever its arguments are. -/
def methodSpec (_ : MethodSpecId) : Bool := true

/-- Whether a member reference mentions a generic parameter: in its signature, or
in the specification or method that it belongs to. -/
def memberRef (depth : Nat) (m : MemberRefId) : GraphM Bool := do
  let bySig ← match ← m.sig with
    | some s => signature depth s
    | none => pure false
  if bySig then return true
  match ← m.parent with
  | some (.typeSpec s) => spec depth s
  | some (.methodDef d) =>
    match ← d.sig with
    | some s => method depth s
    | none => return false
  | _ => return false

/-- Whether a constraint mentions a generic parameter. -/
def constraint (depth : Nat) (c : ConstraintId) : GraphM Bool := do
  match ((← get).get c).constraint with
  | some r => reference depth r
  | none => return false

end CliMetadata.Containment
