/-!
# PackBits packets

A packed row is a sequence of packets. A header byte starts each: 0 to 127
for that many units and one more as they stand, 129 to 255 for 257 less that
many copies of one unit, 128 for nothing. A unit is one byte, or one
big-endian word in the rows of 16-bit pixmaps.
-/
namespace Pict.PackBits

/-- One packet over units of type `α`. -/
inductive Packet (α : Type) where
  | literal (units : List α)
  | run (count : Nat) (unit : α)
  | skip
  deriving DecidableEq, Repr

namespace Packet

variable {α : Type}

/-- The units a packet stands for. -/
def expand : Packet α → List α
  | literal units => units
  | run count unit => List.replicate count unit
  | skip => []

/-- Whether a packet has a header: literals of 1 to 128 units, runs of 2 to 128. -/
def Valid : Packet α → Prop
  | literal units => 1 ≤ units.length ∧ units.length ≤ 128
  | run count _ => 2 ≤ count ∧ count ≤ 128
  | skip => True

def header : Packet α → UInt8
  | literal units => UInt8.ofNat (units.length - 1)
  | run count _ => UInt8.ofNat (257 - count)
  | skip => 128

def bytes (write : α → List UInt8) (p : Packet α) : List UInt8 :=
  p.header ::
    match p with
    | literal units => units.flatMap write
    | run _ unit => write unit
    | skip => []

end Packet

def bytesOf {α : Type} (write : α → List UInt8) (packets : List (Packet α)) : List UInt8 :=
  packets.flatMap (Packet.bytes write)

/-- The units a sequence of packets stands for. -/
def expandAll {α : Type} (packets : List (Packet α)) : List α := packets.flatMap Packet.expand

/-- What the next byte of a packed row is. -/
inductive Mode where
  /-- A header. -/
  | header
  /-- The first of a unit, with `more` units of the literal behind it. -/
  | literal (more : Nat)
  /-- The first of a unit to be repeated. -/
  | run (count : Nat)
  deriving DecidableEq, Repr

namespace Mode

/-- What follows a header byte. Mirrors `decode`, packbits 24-32. -/
def ofHeader (h : UInt8) : Mode :=
  if h.toNat < 128 then literal h.toNat
  else if h.toNat = 128 then header
  else run (257 - h.toNat)

/-- What follows a unit of a literal. -/
def afterUnit : (more : Nat) → Mode
  | 0 => header
  | more + 1 => literal more

end Mode
end Pict.PackBits
