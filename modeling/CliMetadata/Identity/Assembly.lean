import CliMetadata.Identity.StrongName
import CliMetadata.Identity.Version
import CliMetadata.Text.Ascii
import CliMetadata.Text.Blank
import CliMetadata.Text.Hex

/-!
# Assembly identities

An assembly is identified by name, version, culture and strong name.  The
**display name** writes all four (`display`); `parse` reads display names, in
which every part but the name may be missing.  `satisfies` says when an assembly
answers a request.
-/

namespace CliMetadata

/-- The identity of an assembly. -/
structure AssemblyIdentity where
  name : String
  version : AssemblyVersion
  /-- The culture; the neutral one is written as none. -/
  culture : Option String
  strongName : Option StrongName
deriving Repr, DecidableEq, Inhabited

namespace AssemblyIdentity

/-- Whether a text names the neutral culture. -/
def isNeutral (culture : String) : Bool :=
  culture.isEmpty || Text.Ascii.sameText culture "neutral"

/-- An identity; a culture that names the neutral one is left out. -/
def make (name : String) (version : AssemblyVersion) (culture : Option String)
    (strongName : Option StrongName) : AssemblyIdentity :=
  ⟨name, version, culture.filter fun c => !isNeutral c, strongName⟩

/-- Equal in name, version and culture, whatever the strong names are. -/
def sameAssembly (a b : AssemblyIdentity) : Bool :=
  a.name == b.name && a.version == b.version && a.culture == b.culture

/-! ## Display names -/

/-- The byte that two characters spell: two digits, or a plus sign and one. -/
def tokenByte? (high low : Char) : Option UInt8 :=
  if high = '+' then (Text.Hex.value? low).map UInt8.ofNat else Text.Hex.byte? high low

/-- The bytes that pairs of characters spell. -/
def tokenBytes? : List Char → Option (List UInt8)
  | [] => some []
  | [_] => none
  | high :: low :: rest => do
    let b ← tokenByte? high low
    let bs ← tokenBytes? rest
    return b :: bs

/-- Reads a public key token of sixteen characters. -/
def parseToken (text : List Char) : Except Malformed KeyToken :=
  if text.length = 16 ∧ text.all (fun c => c.toNat < 128) then
    match (tokenBytes? text).bind KeyToken.ofBytes? with
    | some t => .ok t
    | none => .error (.tokenDigit (String.ofList text))
  else .error (.tokenLength (String.ofList text))

/-- Reads one part of a display name after the name into an identity; a part of
no known sort is passed over. -/
def parsePart (acc : AssemblyIdentity) (part : List Char) : Except Malformed AssemblyIdentity :=
  match Text.after? "Version=".toList part with
  | some v =>
    (AssemblyVersion.parse v).map fun version =>
      ⟨acc.name, version, acc.culture, acc.strongName⟩
  | none =>
    match Text.after? "Culture=".toList part with
    | some c => .ok ⟨acc.name, acc.version, some (String.ofList c), acc.strongName⟩
    | none =>
      match Text.after? "PublicKeyToken=".toList part with
      | some t =>
        if t = "null".toList ∨ t = [] then .ok acc
        else (parseToken t).map fun token =>
          ⟨acc.name, acc.version, acc.culture, some (.token token)⟩
      | none => .ok acc

/-- Reads parts in order; a later part takes the place of an earlier one. -/
def parseParts : AssemblyIdentity → List (List Char) → Except Malformed AssemblyIdentity
  | acc, [] => .ok acc
  | acc, part :: rest =>
    match parsePart acc part with
    | .ok acc' => parseParts acc' rest
    | .error e => .error e

/-- Reads a display name: parts between commas, each less the white space around
it, the first of them the name. -/
def parse (text : String) : Except Malformed AssemblyIdentity :=
  match (Text.split ',' text.toList).map Text.Blank.trim with
  | [] => .error .emptyAssemblyName
  | name :: parts =>
    if name = [] then .error .emptyAssemblyName
    else (parseParts ⟨String.ofList name, .unknown, none, none⟩ parts).map fun acc =>
      make acc.name acc.version acc.culture acc.strongName

/-- The display name. -/
def display (i : AssemblyIdentity) : String :=
  i.name ++ ", Version=" ++ i.version.display ++ ", Culture=" ++ i.culture.getD "neutral"
    ++ ", PublicKeyToken="
    ++ match i.strongName with
      | some s => Text.Hex.ofBytes (s.toToken HashAlgorithm.sha1).val
      | none => "null"

/-! ## Requests -/

/-- Whether two cultures agree up to case. -/
def sameCulture : Option String → Option String → Bool
  | none, none => true
  | some a, some b => Text.Ascii.sameText a b
  | _, _ => false

/-- Whether two strong names do not contradict each other. -/
def strongNamesAgree : Option StrongName → Option StrongName → Bool
  | some a, some b => a.agrees b
  | _, _ => true

/-- Whether an assembly of identity `i` answers a request for `required`. -/
def satisfies (i required : AssemblyIdentity) : Bool :=
  Text.Ascii.sameText i.name required.name && sameCulture i.culture required.culture
    && strongNamesAgree i.strongName required.strongName
    && i.version.compatibleWith required.version

end AssemblyIdentity
end CliMetadata
