/-!
# UTF-8

`encode` writes characters as bytes.  `decodeLossy` reads any bytes: where they
are no UTF-8, each longest run that could still have begun a character becomes
one replacement character U+FFFD.  The reader is a machine that consumes one
byte at a time (`step`); `Pending` is what it knows inside a character.
-/

namespace CliMetadata.Text.Utf8

/-- The bytes of a text. -/
def encode (cs : List Char) : List UInt8 := cs.flatMap String.utf8EncodeChar

/-- U+FFFD, written in place of what cannot be read. -/
def replacement : Char := Char.ofNat 0xFFFD

/-- The state inside a character: how many bytes are still owed, the range the
next one must lie in, and the code point read so far. -/
structure Pending where
  owed : Nat
  low : Nat
  high : Nat
  code : Nat
deriving Repr, DecidableEq

/-- A byte at the start of a character: what it writes, and the state after it. -/
def lead (b : Nat) : List Char × Option Pending :=
  if b ≤ 0x7F then ([Char.ofNat b], none)
  else if b < 0xC2 then ([replacement], none)
  else if b ≤ 0xDF then ([], some ⟨1, 0x80, 0xBF, b % 32⟩)
  else if b = 0xE0 then ([], some ⟨2, 0xA0, 0xBF, 0⟩)
  else if b = 0xED then ([], some ⟨2, 0x80, 0x9F, 0xD⟩)
  else if b ≤ 0xEF then ([], some ⟨2, 0x80, 0xBF, b % 16⟩)
  else if b = 0xF0 then ([], some ⟨3, 0x90, 0xBF, 0⟩)
  else if b ≤ 0xF3 then ([], some ⟨3, 0x80, 0xBF, b % 8⟩)
  else if b = 0xF4 then ([], some ⟨3, 0x80, 0x8F, 4⟩)
  else ([replacement], none)

/-- One byte.  A byte that cannot continue the character begun before it ends
that character as unreadable and starts the next. -/
def step : Option Pending → Nat → List Char × Option Pending
  | none, b => lead b
  | some p, b =>
    if p.low ≤ b ∧ b ≤ p.high then
      let code := 64 * p.code + b % 64
      if p.owed ≤ 1 then ([Char.ofNat code], none)
      else ([], some ⟨p.owed - 1, 0x80, 0xBF, code⟩)
    else
      let (out, next) := lead b
      (replacement :: out, next)

/-- The characters written from a state on. -/
def run : Option Pending → List UInt8 → List Char
  | none, [] => []
  | some _, [] => [replacement]
  | s, b :: rest =>
    let (out, next) := step s b.toNat
    out ++ run next rest

/-- The characters of any bytes. -/
def decodeLossy (bs : List UInt8) : List Char := run none bs

/-- The characters of bytes that are UTF-8: those that write these very bytes. -/
def decode? (bs : List UInt8) : Option (List Char) :=
  let cs := decodeLossy bs
  if encode cs = bs then some cs else none

end CliMetadata.Text.Utf8
