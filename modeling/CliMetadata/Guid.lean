import CliMetadata.Text.Hex

/-!
# GUIDs

Sixteen bytes in the order in which the text form writes them: groups of four,
two, two, two and six bytes between dashes.
-/

namespace CliMetadata

/-- A GUID. -/
abbrev Guid := { bytes : List UInt8 // bytes.length = 16 }

namespace Guid

/-- The GUID of zeros. -/
def zero : Guid := ⟨List.replicate 16 0, rfl⟩

/-- The GUID made of given bytes, where they are sixteen. -/
def ofBytes? (bs : List UInt8) : Option Guid :=
  if h : bs.length = 16 then some ⟨bs, h⟩ else none

/-- The GUID whose bytes make up a number, the first byte counting most. -/
def ofNat (n : Nat) : Guid :=
  ⟨(List.range 16).map fun i => UInt8.ofNat (n / Nat.pow 256 (15 - i) % 256), by simp⟩

/-- The GUID of version 4 and the standard variant that comes from one byte,
repeated.  The byte of the version takes nothing from it: its low bits are ones. -/
def versionFour (fill : UInt8) : Guid :=
  ⟨List.replicate 6 fill ++ [0x4F, fill, UInt8.ofNat (fill.toNat % 64 + 0x80)]
    ++ List.replicate 7 fill, by simp⟩

/-- The text form. -/
def display (g : Guid) : String :=
  let part (start len : Nat) := Text.Hex.ofBytes ((g.val.drop start).take len)
  part 0 4 ++ "-" ++ part 4 2 ++ "-" ++ part 6 2 ++ "-" ++ part 8 2 ++ "-" ++ part 10 6

end Guid
end CliMetadata
