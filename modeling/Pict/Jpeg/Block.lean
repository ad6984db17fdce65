import Pict.Jpeg.Segment

/-!
# Blocks of coefficients

A block is 64 coefficients in zigzag order: the first as the difference from
that of the block before, the others as values behind runs of zeros. A unit
has one block of each component; each interval starts with differences from
zero.
-/
namespace Pict.Jpeg

/-- The 64 coefficients of a block in zigzag order. -/
abbrev Coefficients := List Int

/-- The next `left` coefficients behind the first: values with their runs of
zeros, until all are there or the rest is declared zero. -/
def readRest (table : CodeTable) (left : Nat) : BitReader (List Int) := do
  if left = 0 then pure []
  else
    let symbol ← table.symbol
    let zeros := symbol.toNat / 16
    let size := symbol.toNat % 16
    if size = 0 then
      if zeros = 15 ∧ 16 ≤ left then
        let rest ← readRest table (left - 16)
        pure (List.replicate 16 0 ++ rest)
      else pure (List.replicate left 0)
    else if zeros < left then
      let value ← BitReader.difference size
      let rest ← readRest table (left - (zeros + 1))
      pure (List.replicate zeros 0 ++ value :: rest)
    else failure
termination_by left

/-- The next block of a component whose last first coefficient was `last`. -/
def readBlock (channel : Channel) (last : Int) : BitReader Coefficients := do
  let size ← channel.dc.symbol
  let change ← BitReader.difference size.toNat
  let rest ← readRest channel.ac 63
  pure ((last + change) :: rest)

/-- The next unit: one block of each component. -/
def readUnit : List Channel → (lasts : List Int) → BitReader (List Coefficients)
  | channel :: channels, lasts => do
    let block ← readBlock channel (lasts.headD 0)
    let others ← readUnit channels lasts.tail
    pure (block :: others)
  | [], _ => pure []

def readUnits (channels : List Channel) : (n : Nat) → (lasts : List Int) →
    BitReader (List (List Coefficients))
  | 0, _ => pure []
  | n + 1, lasts => do
    let unit ← readUnit channels lasts
    let others ← readUnits channels n (unit.map fun block => block.headD 0)
    pure (unit :: others)

/-- The `n` units of all intervals, `restart` of them in each unless it is zero. -/
def readIntervals (channels : List Channel) (restart : Nat) : (intervals : List (List UInt8)) →
    (n : Nat) → Option (List (List Coefficients))
  | _, 0 => some []
  | [], _ + 1 => none
  | interval :: rest, n + 1 => do
    let here := if restart = 0 then n + 1 else min restart (n + 1)
    let (units, _) ← (readUnits channels here []).run (interval.flatMap bitsOf)
    let others ← readIntervals channels restart rest (n + 1 - here)
    pure (units ++ others)

end Pict.Jpeg
