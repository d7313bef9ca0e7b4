import CliMetadata.Name

/-!
# The string heap

A string heap is a run of bytes in which each stored name ends with a NUL; an
offset names the bytes from there to the next NUL.  Offset zero is the empty
name, and a name is cut at its first NUL when it is stored.  Bytes that no NUL ends name
nothing.
-/

namespace CliMetadata

/-- The bytes of a string heap. -/
structure StringHeap where
  bytes : List UInt8
deriving Repr, DecidableEq

namespace StringHeap

/-- The heap that holds the empty name alone. -/
def empty : StringHeap := ⟨[0]⟩

instance : Inhabited StringHeap := ⟨empty⟩

/-- The bytes before the first NUL. -/
def cut (bs : List UInt8) : List UInt8 := bs.takeWhile (· != 0)

/-- Stores a name and gives its offset. -/
def add (h : StringHeap) (value : List UInt8) : Nat × StringHeap :=
  match cut value with
  | [] => (0, h)
  | bs => (h.bytes.length, ⟨h.bytes ++ bs ++ [0]⟩)

/-- The bytes before the first NUL of bytes that have one. -/
def untilNul? : List UInt8 → Option (List UInt8)
  | [] => none
  | b :: bs => if b = 0 then some [] else (untilNul? bs).map (b :: ·)

/-- The name at an offset, if the offset is in the heap and a NUL ends the name. -/
def get? (h : StringHeap) (offset : Nat) : Option Name :=
  if offset < h.bytes.length then (untilNul? (h.bytes.drop offset)).map Name.mk else none

/-- How many bytes the heap holds. -/
def size (h : StringHeap) : Nat := h.bytes.length

/-- Whether the heap holds the empty name alone. -/
def isEmpty (h : StringHeap) : Bool := h.size == 1

end StringHeap
end CliMetadata
