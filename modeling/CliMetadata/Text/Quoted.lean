import CliMetadata.Text.Hex
import CliMetadata.Text.Unprintable

/-!
# Quoted text

Text between double quotes on one line.  Quotes, backslashes, tabs, line ends and
NUL have escapes of their own; any other character without a glyph is written by
its number.
-/

namespace CliMetadata.Text.Quoted

/-- A character by its number. -/
def byNumber (c : Char) : String := "\\u\x7b" ++ Hex.ofNat c.toNat ++ "\x7d"

/-- A character as it stands between quotes. -/
def escape (c : Char) : String :=
  match c with
  | '\x00' => "\\0"
  | '\t' => "\\t"
  | '\r' => "\\r"
  | '\n' => "\\n"
  | '"' => "\\\""
  | '\\' => "\\\\"
  | c => if Unprintable.isUnprintable c then byNumber c else String.ofList [c]

/-- A text between quotes. -/
def quote (s : String) : String := "\"" ++ String.join (s.toList.map escape) ++ "\""

end CliMetadata.Text.Quoted
