import CliMetadata.Error
import CliMetadata.Text.Decimal
import CliMetadata.Text.Split

/-!
# Assembly versions

Four numbers of sixteen bits, compared from the first on.  The version 0.0.0.0
stands for an unknown one: as a request it accepts every version.  Among the
versions that answer a request, `closerTo` says which one is to be preferred.
-/

namespace CliMetadata

/-- A version. -/
structure AssemblyVersion where
  major : UInt16
  minor : UInt16
  build : UInt16
  revision : UInt16
deriving Repr, DecidableEq

namespace AssemblyVersion

/-- The version that stands for an unknown one. -/
def unknown : AssemblyVersion := ⟨0, 0, 0, 0⟩

instance : Inhabited AssemblyVersion := ⟨unknown⟩

/-- Whether all four numbers are zero. -/
def isUnknown (v : AssemblyVersion) : Bool := v == unknown

/-- Versions are compared from the first number on. -/
def compare (a b : AssemblyVersion) : Ordering :=
  (((Ord.compare a.major.toNat b.major.toNat).then
    (Ord.compare a.minor.toNat b.minor.toNat)).then
    (Ord.compare a.build.toNat b.build.toNat)).then
    (Ord.compare a.revision.toNat b.revision.toNat)

/-- Whether a version answers a request for another: the request is for an
unknown version, or for no later one with the same major number. -/
def compatibleWith (candidate required : AssemblyVersion) : Bool :=
  required.isUnknown || (candidate.major == required.major && (compare candidate required).isGE)

/-- How far two numbers lie apart. -/
def distance (a b : UInt16) : Nat := (a.toNat - b.toNat) + (b.toNat - a.toNat)

/-- Whether `a` is to be preferred over `b` for a request for `target`: the
target's major number counts first, then the later version; where neither has
that major number, the nearer major number counts alone. -/
def closerTo (a b target : AssemblyVersion) : Bool :=
  match a.major == target.major, b.major == target.major with
  | true, false => true
  | false, true => false
  | true, true => (compare a b).isGT
  | false, false => distance a.major target.major < distance b.major target.major

/-- One part of a version: digits, with a plus sign before them or not, whose
value fits in sixteen bits. -/
def component? (part : List Char) : Option UInt16 := do
  let ds := match part with
    | '+' :: rest => rest
    | _ => part
  let n ← Text.Decimal.digits? ds
  if n < 65536 then some (UInt16.ofNat n) else none

/-- The parts of a version in order, up to the first that is no number. -/
def components : List (List Char) → Except Malformed (List UInt16)
  | [] => .ok []
  | part :: rest =>
    match component? part with
    | none => .error (.versionComponent (String.ofList part))
    | some n => (components rest).map (n :: ·)

/-- Reads one to four parts between dots; a missing part is zero. -/
def parse (text : List Char) : Except Malformed AssemblyVersion :=
  let parts := Text.split '.' text
  if parts.length > 4 then .error (.versionFormat (String.ofList text))
  else (components parts).map fun ns =>
    ⟨ns.getD 0 0, ns.getD 1 0, ns.getD 2 0, ns.getD 3 0⟩

/-- The four numbers between dots. -/
def display (v : AssemblyVersion) : String :=
  toString v.major.toNat ++ "." ++ toString v.minor.toNat ++ "." ++ toString v.build.toNat
    ++ "." ++ toString v.revision.toNat

end AssemblyVersion
end CliMetadata
