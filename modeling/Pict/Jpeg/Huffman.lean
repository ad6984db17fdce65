import Pict.Jpeg.Bits

/-!
# Canonical Huffman codes

A code table lists its symbols by code length. The codes of one length are
consecutive numbers, and those of the next length go on behind them with a bit
added; so a code is found by walking down the lengths with the distance from
the first code of each.
-/
namespace Pict.Jpeg

/-- The symbols of a code table by code length, from one bit on. -/
structure CodeTable where
  levels : List (List UInt8)
  deriving DecidableEq, Repr

namespace CodeTable

/-- Splits the symbols of a table by how many there are of each length. -/
def splitLevels : (counts : List UInt8) → (symbols : List UInt8) → List (List UInt8)
  | [], _ => []
  | n :: counts, symbols => symbols.take n.toNat :: splitLevels counts (symbols.drop n.toNat)

/-- Finds the symbol of the code in front of `bits`, `distance` behind the
first code of the last length passed. -/
def find : (levels : List (List UInt8)) → (distance : Nat) → (bits : List Bool) →
    Option (UInt8 × List Bool)
  | symbols :: longer, distance, b :: rest =>
    let distance := 2 * distance + b.toNat
    match symbols[distance]? with
    | some symbol => some (symbol, rest)
    | none => find longer (distance - symbols.length) rest
  | _, _, _ => none

/-- The symbol of the next code. -/
def symbol (t : CodeTable) : BitReader UInt8 := find t.levels 0

end CodeTable
end Pict.Jpeg
