/-!
# Bits

Entropy-coded data is read bit by bit, the highest bit of each byte first. A
`BitReader` fails where the bits run out.
-/
namespace Pict.Jpeg

/-- The bits of a byte, the highest first. -/
def bitsOf (b : UInt8) : List Bool := (List.range 8).map fun i => b.toNat.testBit (7 - i)

/-- Reads from a list of bits; `none` where it fails. -/
abbrev BitReader := StateT (List Bool) Option

namespace BitReader

/-- The number in the next `n` bits, behind the bits that make up `high`. -/
def numberFrom : (n high : Nat) → BitReader Nat
  | 0, high => pure high
  | n + 1, high => fun bits =>
    match bits with
    | [] => none
    | b :: rest => numberFrom n (2 * high + b.toNat) rest

def number (n : Nat) : BitReader Nat := numberFrom n 0

/-- The next `n` bits as a signed number without a leading sign: those that
start with a zero bit stand for the negative numbers of that many bits. -/
def difference (n : Nat) : BitReader Int := do
  let v ← number n
  pure (if 2 * v < 1 <<< n then (v : Int) + 1 - (1 <<< n : Nat) else v)

end BitReader
end Pict.Jpeg
