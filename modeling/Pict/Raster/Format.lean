import Pict.PackBits.Bytes
import Pict.PackBits.Words
import Pict.Samples.Depth
import Pict.Samples.Strip
import Pict.Stream.Cursor

/-!
# Rows of a raster

`Format` is the pixel size and the number of components of a raster. It
decides how the bytes of one row become strips: `rawStrip?` for rows that
stand as they are, `packedStrips` for packed ones.
-/
namespace Pict

/-- Bits per pixel and components per pixel. Mirrors `PixelFormat`, raster 20-23. -/
structure Format where
  pixelSize : Nat
  components : Nat
  deriving DecidableEq, Repr

namespace Format

/-- One bit per pixel. Mirrors `BITMAP`, raster 25-28. -/
def bitmap : Format := ⟨1, 1⟩

/-- Reads the pixel size and the component count; negative ones count as zero. Mirrors
`read_pixmap_header`, raster 105-111. -/
def read : Reader Format := do
  let pixelSize ← Reader.i16
  let components ← Reader.i16
  Reader.skip 14
  pure ⟨pixelSize.toNat, components.toNat⟩

/-- Whether pixels carry their color themselves. -/
def isDirect (f : Format) : Bool := f.pixelSize = 16 || f.pixelSize = 24 || f.pixelSize = 32

/-- The row bytes of a direct pixmap, which does not declare them. Mirrors `read_pixmap_header`,
raster 120-124. -/
def directRowBytes? (f : Format) (width : Nat) : Option Nat :=
  if f.pixelSize = 32 then some (width * f.components)
  else if f.pixelSize = 16 then some (width * 2)
  else none

/-- Whether rows are packed. Mirrors `unpack_rows`, raster 177. -/
def isPacked (f : Format) (rowBytes : Nat) : Bool := 8 ≤ rowBytes || f.pixelSize = 32

/-- Bytes the strips of `height` rows are expected to take. Mirrors `decode_raster`, raster 57-61.
-/
def expectedBytes (f : Format) (width height : Nat) : Nat :=
  width * height * (max f.components 1 * if f.pixelSize = 16 then 2 else 1)

/-- The words of a row of big-endian words, without an odd last byte. -/
def wordsOf : List UInt8 → List UInt16
  | hi :: lo :: rest => word hi lo :: wordsOf rest
  | _ => []

/-- The strip of a row whose bytes stand as they are. Mirrors `unpack_uncompressed`, raster
213-228. -/
def rawStrip (f : Format) (width : Nat) (row : List UInt8) : Except Error Strip :=
  if f.pixelSize = 16 then .ok (.words (fit width (wordsOf row)))
  else if f.pixelSize = 8 then .ok (.bytes row)
  else Strip.bytes <$> Depth.expandRow f.pixelSize width row

/-- The strips of a packed row: one per component for the sizes that keep the components one after
the other, none for sizes that no strip stands for. Mirrors `unpack_compressed`, raster 264-291. -/
def packedStrips (f : Format) (width : Nat) (packed : List UInt8) : Except Error (List Strip) :=
  if f.pixelSize = 16 then .ok [.words (PackBits.decodeWords width packed)]
  else
    let row := PackBits.decodeBytes (width * 4) packed
    if f.pixelSize < 8 then (fun out => [.bytes out]) <$> Depth.expandRow f.pixelSize width row
    else if f.pixelSize = 8 then .ok [.bytes row]
    else if f.pixelSize = 24 ∨ f.pixelSize = 32 then
      .ok ((List.range f.components).map fun c => .bytes (crop (c * width) width row))
    else .ok []

end Format
end Pict
