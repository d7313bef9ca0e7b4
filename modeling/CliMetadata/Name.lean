import CliMetadata.Text.Ascii
import CliMetadata.Text.Utf8

/-!
# Names

A metadata name is a string of bytes.  It need not be UTF-8: names are compared
as bytes and shown as text with replacement characters (`Name.lossy`).
-/

namespace CliMetadata

/-- A name as the metadata stores it. -/
structure Name where
  bytes : List UInt8
deriving Repr, DecidableEq

namespace Name

/-- The name without bytes. -/
def empty : Name := ⟨[]⟩

instance : Inhabited Name := ⟨empty⟩

/-- The name with a text's UTF-8 bytes. -/
def ofString (s : String) : Name := ⟨Text.Utf8.encode s.toList⟩

instance : Coe String Name := ⟨ofString⟩

/-- Whether there are no bytes. -/
def isEmpty (n : Name) : Bool := n.bytes.isEmpty

/-- The name as text. -/
def lossy (n : Name) : String := String.ofList (Text.Utf8.decodeLossy n.bytes)

/-- The name as text, where its bytes are UTF-8. -/
def text? (n : Name) : Option String := (Text.Utf8.decode? n.bytes).map String.ofList

/-- Equal up to the case of ASCII letters. -/
def sameIgnoringCase (a b : Name) : Bool := Text.Ascii.sameBytes a.bytes b.bytes

/-- Whether the bytes are those of a text. -/
def isText (n : Name) (s : String) : Bool := n == ofString s

/-- Names are ordered byte by byte, a beginning before its continuations. -/
def compare (a b : Name) : Ordering := go a.bytes b.bytes
where
  go : List UInt8 → List UInt8 → Ordering
    | [], [] => .eq
    | [], _ :: _ => .lt
    | _ :: _, [] => .gt
    | x :: xs, y :: ys => (Ord.compare x.toNat y.toNat).then (go xs ys)

/-- A name with its namespace in front, where it has one. -/
def qualified (space name : Name) : String :=
  if space.isEmpty then name.lossy else space.lossy ++ "." ++ name.lossy

end Name
end CliMetadata
