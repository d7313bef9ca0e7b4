/-!
# Signatures

The signature grammar of CLI metadata, over any type `ρ` of references to types:
tokens as a signature is stored, entities once it has been read.  The forms that
put one thing around a single type are one constructor, `TypeSig.wrap`, and the
forms without parts are another, `TypeSig.leaf`.
-/

namespace CliMetadata

/-- The types without parts. -/
inductive Leaf where
  | unknown | void | boolean | char | i1 | u1 | i2 | u2 | i4 | u4 | i8 | u8 | r4 | r8 | string
  | typedByRef | i | u | object | internal | sentinel
deriving Repr, DecidableEq, Inhabited

/-- One dimension of an array. -/
structure ArrayDimension where
  size : Option Nat
  lowerBound : Option Int
deriving Repr, DecidableEq

/-- The forms that put one thing around a type. -/
inductive Wrapper where
  | ptr | byRef | szArray | pinned
  | array (rank : Nat) (dimensions : List ArrayDimension)
  | valueArray (size : Nat)
  | module (index : Nat)
deriving Repr, DecidableEq

/-- Whether a named type is a class or a value type. -/
inductive NamedKind where
  | classType | valueType
deriving Repr, DecidableEq

/-- Whose generic parameter is meant. -/
inductive ParamScope where
  | type | method
deriving Repr, DecidableEq

/-- Whether a custom modifier must be understood. -/
inductive ModifierKind where
  | required | optional
deriving Repr, DecidableEq

/-- The native calling conventions. -/
inductive CallConv where
  | managed | cdecl | stdcall | thiscall | fastcall
deriving Repr, DecidableEq, Inhabited

/-- What a method signature says besides its types. -/
structure MethodHead where
  hasThis : Bool
  explicitThis : Bool
  vararg : Bool
  convention : CallConv
  genericCount : Nat
deriving Repr, DecidableEq, Inhabited

/-- The signature of a type. -/
inductive TypeSig (ρ : Type) where
  | leaf (l : Leaf)
  | named (kind : NamedKind) (type : ρ)
  /-- A generic parameter by number. -/
  | param (scope : ParamScope) (index : Nat)
  | wrap (w : Wrapper) (next : TypeSig ρ)
  | modified (kind : ModifierKind) (modifier : ρ) (base : TypeSig ρ)
  /-- A generic type with its arguments. -/
  | inst (generic : TypeSig ρ) (args : List (TypeSig ρ))
  /-- A pointer to a function. -/
  | fnPtr (head : MethodHead) (returnType : TypeSig ρ) (params varargs : List (TypeSig ρ))
deriving Repr

/-- The signature of a method; `varargs` are the types after the sentinel. -/
structure MethodSig (ρ : Type) where
  head : MethodHead
  returnType : TypeSig ρ
  params : List (TypeSig ρ)
  varargs : List (TypeSig ρ)
deriving Repr

/-- The signature of a property. -/
structure PropertySig (ρ : Type) where
  hasThis : Bool
  base : TypeSig ρ
  params : List (TypeSig ρ)
deriving Repr

/-- The signature of a member, of local variables or of an instantiation. -/
inductive Signature (ρ : Type) where
  | field (type : TypeSig ρ)
  | method (sig : MethodSig ρ)
  | property (sig : PropertySig ρ)
  | locals (types : List (TypeSig ρ))
  | instantiation (args : List (TypeSig ρ))
deriving Repr

namespace TypeSig

variable {ρ σ : Type}

instance : Inhabited (TypeSig ρ) := ⟨leaf .unknown⟩

/-- The type that a wrapper, a modifier or an instantiation is about. -/
def next? : TypeSig ρ → Option (TypeSig ρ)
  | wrap _ next => some next
  | modified _ _ base => some base
  | inst generic _ => some generic
  | _ => none

/-- The type referred to by name. -/
def named? : TypeSig ρ → Option ρ
  | named _ type => some type
  | _ => none

/-- Whether this is a generic parameter. -/
def isGenericParam : TypeSig ρ → Bool
  | param _ _ => true
  | _ => false

/-- Whether this is one of the types built into the runtime. -/
def isPrimitive : TypeSig ρ → Bool
  | leaf .unknown | leaf .internal | leaf .sentinel => false
  | leaf _ => true
  | _ => false

mutual

/-- The same signature over other references, found one after another in the
order in which the signature lists them. -/
def traverse {m : Type → Type} [Monad m] (f : ρ → m σ) : TypeSig ρ → m (TypeSig σ)
  | leaf l => pure (leaf l)
  | named kind type => do return named kind (← f type)
  | param scope index => pure (param scope index)
  | wrap w next => do return wrap w (← traverse f next)
  | modified kind modifier base => do
    let modifier ← f modifier
    return modified kind modifier (← traverse f base)
  | inst generic args => do
    let generic ← traverse f generic
    return inst generic (← traverseAll f args)
  | fnPtr head returnType params varargs => do
    let returnType ← traverse f returnType
    let params ← traverseAll f params
    return fnPtr head returnType params (← traverseAll f varargs)

/-- The same for several signatures. -/
def traverseAll {m : Type → Type} [Monad m] (f : ρ → m σ) :
    List (TypeSig ρ) → m (List (TypeSig σ))
  | [] => pure []
  | t :: ts => do
    let t ← traverse f t
    return t :: (← traverseAll f ts)

end

mutual

/-- The references in a signature, in order. -/
def refs : TypeSig ρ → List ρ
  | leaf _ | param _ _ => []
  | named _ type => [type]
  | wrap _ next => refs next
  | modified _ modifier base => modifier :: refs base
  | inst generic args => refs generic ++ refsAll args
  | fnPtr _ returnType params varargs => refs returnType ++ (refsAll params ++ refsAll varargs)

/-- The references in several signatures. -/
def refsAll : List (TypeSig ρ) → List ρ
  | [] => []
  | t :: ts => refs t ++ refsAll ts

end

mutual

/-- Whether two signatures are the same term over the same references. -/
def same [DecidableEq ρ] : TypeSig ρ → TypeSig ρ → Bool
  | leaf a, leaf b => a == b
  | named k a, named l b => k == l && a == b
  | param s i, param t j => s == t && i == j
  | wrap v a, wrap w b => v == w && same a b
  | modified k m a, modified l n b => k == l && m == n && same a b
  | inst a as, inst b bs => same a b && sameAll as bs
  | fnPtr h a ps vs, fnPtr i b qs ws => h == i && same a b && sameAll ps qs && sameAll vs ws
  | _, _ => false

/-- The same for several signatures. -/
def sameAll [DecidableEq ρ] : List (TypeSig ρ) → List (TypeSig ρ) → Bool
  | [], [] => true
  | a :: as, b :: bs => same a b && sameAll as bs
  | _, _ => false

end

end TypeSig

namespace MethodSig

variable {ρ σ : Type}

instance : Inhabited (MethodSig ρ) := ⟨⟨default, default, [], []⟩⟩

/-- The type of pointers to methods of this signature. -/
def toPointer (m : MethodSig ρ) : TypeSig ρ := .fnPtr m.head m.returnType m.params m.varargs

/-- The same signature over other references. -/
def traverse {μ : Type → Type} [Monad μ] (f : ρ → μ σ) (m : MethodSig ρ) : μ (MethodSig σ) := do
  let returnType ← m.returnType.traverse f
  let params ← TypeSig.traverseAll f m.params
  return ⟨m.head, returnType, params, ← TypeSig.traverseAll f m.varargs⟩

/-- The references in a signature. -/
def refs (m : MethodSig ρ) : List ρ := m.toPointer.refs

/-- Whether two signatures are the same over the same references. -/
def same [DecidableEq ρ] (a b : MethodSig ρ) : Bool := a.toPointer.same b.toPointer

end MethodSig

namespace PropertySig

variable {ρ σ : Type}

/-- The same signature over other references. -/
def traverse {μ : Type → Type} [Monad μ] (f : ρ → μ σ) (p : PropertySig ρ) :
    μ (PropertySig σ) := do
  let base ← p.base.traverse f
  return ⟨p.hasThis, base, ← TypeSig.traverseAll f p.params⟩

/-- The references in a signature. -/
def refs (p : PropertySig ρ) : List ρ := p.base.refs ++ TypeSig.refsAll p.params

/-- Whether two signatures are the same over the same references. -/
def same [DecidableEq ρ] (a b : PropertySig ρ) : Bool :=
  a.hasThis == b.hasThis && a.base.same b.base && TypeSig.sameAll a.params b.params

end PropertySig

namespace Signature

variable {ρ σ : Type}

/-- The signature of a method, if this is one. -/
def method? : Signature ρ → Option (MethodSig ρ)
  | method m => some m
  | _ => none

/-- The type of a field, if this is the signature of one. -/
def field? : Signature ρ → Option (TypeSig ρ)
  | field t => some t
  | _ => none

/-- The signature of a property, if this is one. -/
def property? : Signature ρ → Option (PropertySig ρ)
  | property p => some p
  | _ => none

/-- The arguments of an instantiation, if this is one. -/
def instantiation? : Signature ρ → Option (List (TypeSig ρ))
  | instantiation args => some args
  | _ => none

/-- The same signature over other references. -/
def traverse {μ : Type → Type} [Monad μ] (f : ρ → μ σ) : Signature ρ → μ (Signature σ)
  | field t => do return field (← t.traverse f)
  | method m => do return method (← m.traverse f)
  | property p => do return property (← p.traverse f)
  | locals ts => do return locals (← TypeSig.traverseAll f ts)
  | instantiation ts => do return instantiation (← TypeSig.traverseAll f ts)

/-- The references in a signature. -/
def refs : Signature ρ → List ρ
  | field t => t.refs
  | method m => m.refs
  | property p => p.refs
  | locals ts | instantiation ts => TypeSig.refsAll ts

/-- Whether two signatures are the same over the same references. -/
def same [DecidableEq ρ] : Signature ρ → Signature ρ → Bool
  | field a, field b => a.same b
  | method a, method b => a.same b
  | property a, property b => a.same b
  | locals a, locals b => TypeSig.sameAll a b
  | instantiation a, instantiation b => TypeSig.sameAll a b
  | _, _ => false

end Signature
end CliMetadata
