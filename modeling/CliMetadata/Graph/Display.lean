import CliMetadata.Graph.Types

/-!
# Signatures as text

A signature is written as the types it is made of.  A modifier is written by its
full name, and the full name of a type specification is the text of its
signature, so specifications can refer back to themselves through modifiers.
`TypeSpecId.nameWithin n` follows at most `n` specifications; `fullName` follows
as many as there can be, and a specification without a name after that has no
finite one.
-/

namespace CliMetadata

namespace Leaf

/-- The text of a type without parts. -/
def display : Leaf → String
  | unknown => "<unknown>"
  | void => "System.Void"
  | boolean => "System.Boolean"
  | char => "System.Char"
  | i1 => "System.SByte"
  | u1 => "System.Byte"
  | i2 => "System.Int16"
  | u2 => "System.UInt16"
  | i4 => "System.Int32"
  | u4 => "System.UInt32"
  | i8 => "System.Int64"
  | u8 => "System.UInt64"
  | r4 => "System.Single"
  | r8 => "System.Double"
  | string => "System.String"
  | typedByRef => "System.TypedReference"
  | i => "System.IntPtr"
  | u => "System.UIntPtr"
  | object => "System.Object"
  | internal => "<internal>"
  | sentinel => "..."

end Leaf

/-- What a wrapper writes after the type inside it. -/
def Wrapper.display : Wrapper → String
  | ptr => "*"
  | byRef => "&"
  | szArray => "[]"
  | pinned => " pinned"
  | array rank _ => "[" ++ String.ofList (List.replicate (rank - 1) ',') ++ "]"
  | valueArray size => "[" ++ toString size ++ "]"
  | module _ => ""

/-- The number of a generic parameter behind its mark. -/
def ParamScope.display (scope : ParamScope) (index : Nat) : String :=
  match scope with
  | type => "!" ++ toString index
  | method => "!!" ++ toString index

/-- The word for a modifier. -/
def ModifierKind.word : ModifierKind → String
  | required => "modreq"
  | optional => "modopt"

namespace TypeSig

/-- The full name of a reference, given those of specifications. -/
def refName (specName : TypeSpecId → GraphM (Option String)) :
    TypeDefOrRef → GraphM (Option String)
  | .typeDef t => some <$> t.fullName
  | .typeRef r => some <$> r.fullName
  | .typeSpec s => specName s

mutual

/-- The text of a signature, given the names of specifications. -/
def displayWith (specName : TypeSpecId → GraphM (Option String)) : Sig → GraphM (Option String)
  | leaf l => return some l.display
  | named _ (.typeSpec s) => do return some ((← get).token s.node).display
  | named _ type => refName specName type
  | param scope index => return some (scope.display index)
  | wrap w next => do return (← displayWith specName next).map (· ++ w.display)
  | modified kind modifier base => do
    let name? ← refName specName modifier
    let text? ← displayWith specName base
    return do return (← text?) ++ " " ++ kind.word ++ "(" ++ (← name?) ++ ")"
  | inst generic args => do
    let text? ← displayWith specName generic
    let args? ← displayAllWith specName args
    return do return (← text?) ++ "<" ++ ",".intercalate (← args?) ++ ">"
  | fnPtr _ _ _ _ => return some "method*"

/-- The texts of several signatures. -/
def displayAllWith (specName : TypeSpecId → GraphM (Option String)) :
    List Sig → GraphM (Option (List String))
  | [] => return some []
  | t :: ts => do
    let text? ← displayWith specName t
    let texts? ← displayAllWith specName ts
    return do return (← text?) :: (← texts?)

end

end TypeSig

namespace TypeSpecId

/-- The full name of a specification, following at most `n` of them. -/
def nameWithin : Nat → TypeSpecId → GraphM (Option String)
  | 0, _ => return none
  | n + 1, s => do
    match ← sig s with
    | none => return some ""
    | some t => TypeSig.displayWith (nameWithin n) t

/-- A bound on the specifications that exist or can still be read. -/
def countBound (g : Graph) : Nat :=
  g.entities.entries.foldl (fun n entry =>
    match entry.2 with
    | .typeSpec _ => n + 1
    | .module m => n + ((m.loader.map fun l => l.store.typeSpecs.length).getD 0)
    | _ => n) 1

/-- The full name of a specification: the text of its signature. -/
def fullName (s : TypeSpecId) : GraphM (Option String) := do
  nameWithin (countBound (← get)) s

end TypeSpecId

/-- The text of a signature; none where it has no finite one. -/
def TypeSig.display (t : Sig) : GraphM (Option String) :=
  TypeSig.displayWith TypeSpecId.fullName t

namespace TypeDefOrRef

/-- The full name of a type; none where it has no finite one. -/
def fullName (r : TypeDefOrRef) : GraphM (Option String) :=
  TypeSig.refName TypeSpecId.fullName r

/-- The name of a type; a specification has none. -/
def name (g : Graph) : TypeDefOrRef → Name
  | typeDef t => (g.get t).name
  | typeRef r => (g.get r).name
  | typeSpec _ => .empty

/-- The namespace of a type; a specification has none. -/
def space (g : Graph) : TypeDefOrRef → Name
  | typeDef t => (g.get t).space
  | typeRef r => (g.get r).space
  | typeSpec _ => .empty

end TypeDefOrRef

end CliMetadata
