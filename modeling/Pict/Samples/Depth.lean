import Pict.Run.Error

/-!
# Pixels of less than a byte

Rows of 1, 2 and 4 bits per pixel are expanded to one byte per pixel, the
pixel in the high bits first. A sample keeps its value; it is not scaled. One
bit per pixel goes through a table, the other depths through a mask that
moves down the byte.
-/
namespace Pict.Depth

/-- Bit `7 - k % 8` of the byte `k / 8`. -/
def bitEntry (k : Nat) : UInt8 := UInt8.ofNat (((k / 8) >>> (7 - k % 8)) % 2)

/-- Entry `8 * b + i` is bit `7 - i` of `b`. Mirrors `build_expansion_table`, expand 10-22. -/
def bitTable : Array UInt8 := ((List.range 2048).map bitEntry).toArray

/-- The eight entries of the table for a byte. -/
def tableSamples (b : UInt8) : List UInt8 :=
  (List.range 8).map fun i => bitTable.getD (b.toNat * 8 + i) 0

/-- `left` samples of a byte, the first under `mask` and `shift` bits up. -/
def maskedFrom (depth : Nat) (b : UInt8) :
    (left : Nat) → (mask : UInt8) → (shift : Nat) → List UInt8
  | 0, _, _ => []
  | left + 1, mask, shift =>
    ((b &&& mask) >>> UInt8.ofNat shift) ::
      maskedFrom depth b left (mask >>> UInt8.ofNat depth) (shift - depth)

/-- The samples of a byte by mask and shift. Mirrors `expand_pixels`, expand 41-52. -/
def maskedSamples (depth : Nat) (b : UInt8) : List UInt8 :=
  maskedFrom depth b (8 / depth) (UInt8.ofNat (((1 <<< depth) - 1) <<< (8 - depth))) (8 - depth)

/-- `out` with the samples of `input` over it, `perByte` of them for each byte
of `input`, as far as both reach. -/
def expandOver (perByte : Nat) (samples : UInt8 → List UInt8) :
    (input out : List UInt8) → List UInt8
  | [], out => out
  | b :: input, out =>
    match out with
    | [] => []
    | o :: rest =>
      (samples b).take ((o :: rest).take perByte).length ++
        expandOver perByte samples input ((o :: rest).drop perByte)

/-- `out` with the pixels of `input` over it. Only depths 1, 2 and 4 expand. Mirrors
`expand_pixels`, expand 28-55. -/
def expandInto (depth : Nat) (input out : List UInt8) : Except Error (List UInt8) :=
  if depth = 1 then .ok (expandOver 8 tableSamples input out)
  else if depth = 2 ∨ depth = 4 then .ok (expandOver (8 / depth) (maskedSamples depth) input out)
  else .error (.unsupportedBitDepth depth)

/-- The `width` pixels of a row, zero where `input` ends. -/
def expandRow (depth width : Nat) (input : List UInt8) : Except Error (List UInt8) :=
  expandInto depth input (List.replicate width 0)

end Pict.Depth
