import CliMetadata.Assoc
import CliMetadata.Graph.Modules

/-!
# A cache of assemblies

Assemblies are registered under their name in lower case and found again by
identity.  Among those that answer a request, the one whose version is closest
to the requested one is found, and the first registered of equally close ones.

The cache keeps the name under which an assembly was registered, while requests
compare identities as they are now.
-/

namespace CliMetadata

/-- The assemblies by name in lower case, each list in the order of registration. -/
structure AssemblyCache where
  buckets : Assoc String (List AssemblyId)
deriving Repr

namespace AssemblyCache

/-- The cache without assemblies. -/
def empty : AssemblyCache := ⟨.empty⟩

/-- The identity of an assembly. -/
def identityOf (g : Graph) (a : AssemblyId) : AssemblyIdentity := (g.get a).identity

/-- The name that an assembly is registered under. -/
def keyOf (g : Graph) (a : AssemblyId) : String := Text.Ascii.lower (identityOf g a).name

/-- The assemblies registered under a name. -/
def bucket (c : AssemblyCache) (key : String) : List AssemblyId := (c.buckets.get? key).getD []

/-- Registers an assembly under its name; one that is registered there stays where
it is. -/
def register (c : AssemblyCache) (g : Graph) (a : AssemblyId) : AssemblyCache :=
  let key := keyOf g a
  let known := c.bucket key
  if a ∈ known then c else ⟨c.buckets.set key (known ++ [a])⟩

/-- Removes an assembly from those registered under its name; whether it was among
them. -/
def unregister (c : AssemblyCache) (g : Graph) (a : AssemblyId) : Bool × AssemblyCache :=
  let key := keyOf g a
  let known := c.bucket key
  if a ∈ known then
    match known.filter (· != a) with
    | [] => (true, ⟨c.buckets.erase key⟩)
    | rest => (true, ⟨c.buckets.set key rest⟩)
  else (false, c)

/-- Every registered assembly, as often as it is registered. -/
def assemblies (c : AssemblyCache) : List AssemblyId := c.buckets.entries.flatMap (·.2)

/-- How many assemblies are registered. -/
def size (c : AssemblyCache) : Nat := c.assemblies.length

/-- The better of the best answer so far and a candidate. -/
def better (g : Graph) (required : AssemblyIdentity) (best : Option AssemblyId)
    (candidate : AssemblyId) : Option AssemblyId :=
  let identity := identityOf g candidate
  if identity.satisfies required then
    match best with
    | none => some candidate
    | some b =>
      if identity.version.closerTo (identityOf g b).version required.version then some candidate
      else best
  else best

/-- The assembly that answers a request. -/
def resolve (c : AssemblyCache) (g : Graph) (required : AssemblyIdentity) : Option AssemblyId :=
  (c.bucket (Text.Ascii.lower required.name)).foldl (better g required) none

end AssemblyCache
end CliMetadata
