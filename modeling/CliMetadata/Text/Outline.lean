import CliMetadata.Text.Hex

/-!
# Outlines of values

A value is outlined on one line by the name of what it is and its parts: named
parts in braces (`record`, or `opened` where some are left out), unnamed parts in
parentheses (`tuple`).
-/

namespace CliMetadata.Text.Outline

/-- Named parts in order. -/
def parts (fields : List (String × String)) : String :=
  ", ".intercalate (fields.map fun (name, value) => name ++ ": " ++ value)

/-- All named parts of a value. -/
def record (name : String) (fields : List (String × String)) : String :=
  name ++ " \x7b " ++ parts fields ++ " \x7d"

/-- Some of the named parts of a value. -/
def opened (name : String) (fields : List (String × String)) : String :=
  name ++ " \x7b " ++ parts fields ++ ", .. \x7d"

/-- The unnamed parts of a value. -/
def tuple (name : String) (args : List String) : String :=
  name ++ "(" ++ ", ".intercalate args ++ ")"

/-- The entries of a list. -/
def list (entries : List String) : String := "[" ++ ", ".intercalate entries ++ "]"

/-- A value that may be missing. -/
def option : Option String → String
  | some value => tuple "Some" [value]
  | none => "None"

/-- A truth value. -/
def truth (b : Bool) : String := if b then "true" else "false"

/-- A number in hexadecimal, without padding. -/
def hex (n : Nat) : String := "0x" ++ Hex.ofNat n

end CliMetadata.Text.Outline
