import CliMetadata.Token

/-!
# What can go wrong

Errors are causes; `message` gives each its wording.  `Malformed` collects what
is wrong with a text or with stored metadata, `OwnershipError` why a container
refuses a child.
-/

namespace CliMetadata

/-- What is wrong with an input. -/
inductive Malformed where
  /-- A display name whose first part is blank. -/
  | emptyAssemblyName
  /-- A version of more than four parts. -/
  | versionFormat (text : String)
  /-- A version part that is no 16-bit number. -/
  | versionComponent (part : String)
  /-- A public key token that is not sixteen characters of ASCII. -/
  | tokenLength (text : String)
  /-- A public key token with a pair of characters that spells no byte. -/
  | tokenDigit (text : String)
  /-- A store without a first row in its module table. -/
  | noModuleRow
  /-- A store without a first row in its assembly table. -/
  | noAssemblyRow (moduleName : String)
deriving Repr, DecidableEq

/-- The wording of a malformed input. -/
def Malformed.message : Malformed → String
  | emptyAssemblyName => "Assembly name cannot be empty"
  | versionFormat text => "Invalid version format: " ++ text
  | versionComponent part => "Invalid version component: " ++ part
  | tokenLength text => "PublicKeyToken must be 16 hex characters, got '" ++ text ++ "'"
  | tokenDigit text =>
    "Invalid hex in PublicKeyToken '" ++ text ++ "': invalid digit found in string"
  | noModuleRow => "the backing store has no Module row"
  | noAssemblyRow name =>
    "module " ++ name ++ " is not a manifest module, the backing store has no Assembly row"

/-- Why a container refuses a child; `kind` is the word for such a child. -/
inductive OwnershipError where
  /-- The container of the list has been destroyed. -/
  | containerGone (kind : String)
  /-- The child is in a list of another sort. -/
  | otherSort (kind : String)
  /-- The child is in another list of this sort. -/
  | otherContainer (kind : String)
deriving Repr, DecidableEq

/-- The wording of a refusal. -/
def OwnershipError.message : OwnershipError → String
  | containerGone kind => "the container of this " ++ kind ++ " list no longer exists"
  | otherSort kind => kind ++ " is already owned by another kind of container, detach it first"
  | otherContainer kind => kind ++ " is already owned by another container, detach it first"

/-- The errors of the library. -/
inductive Error where
  | malformed (cause : Malformed)
  | rowNotFound (token : Token)
  | invalidOperation (cause : OwnershipError)
  /-- A resolver was to be built without a source of assemblies. -/
  | missingAssemblyResolver
deriving Repr, DecidableEq

/-- The wording of an error. -/
def Error.message : Error → String
  | malformed cause => cause.message
  | rowNotFound token => "Row not found - " ++ token.display
  | invalidOperation cause => "Invalid operation - " ++ cause.message
  | missingAssemblyResolver => "Missing collaborator - assembly resolver"

end CliMetadata
