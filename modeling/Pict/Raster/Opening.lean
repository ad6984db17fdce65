import Pict.Decode.Walk
import Pict.Raster.Format

/-!
# What comes in front of the rows of a raster

Row bytes and bounds, then for a pixmap its format and its palette. Row bytes,
canvas and palette go into the picture as soon as they are read; when the
rest of the opening is missing the raster is given up with a warning.
-/
namespace Pict.Raster

/-- Reads the bounds of a raster: its width and height as differences of edges. Mirrors
`read_image_header`, raster 80-94. -/
def readBounds : Reader (Int × Int) := do
  let top ← Reader.i16
  let left ← Reader.i16
  let bottom ← Reader.i16
  let right ← Reader.i16
  Reader.skip 18
  pure (right - left, bottom - top)

/-- Takes the row bytes of an opcode over; direct bits have a base address and unused row bytes in
the stream instead. Mirrors `read_image_header`, raster 74-78. -/
def takeRowBytes : (rowBytes : Option Nat) → Job Walk Unit
  | none => Walk.move (·.skip 6)
  | some n => Walk.modify fun p => { p with rowBytes := n }

/-- Reads a palette, with no more entries than there are bytes for. Mirrors `read_color_table`,
raster 144-169. -/
def readPalette : Job Walk (Option Palette) := do
  match ← Walk.read Palette.readDeclared with
  | none => pure none
  | some (flags, declared) =>
    let c ← Walk.getCursor
    let available := c.remaining / Palette.entrySize
    if available < declared then Job.warn (.paletteTruncated declared available)
    let entries ← Walk.read (Palette.readEntries (min declared available))
    pure (entries.map fun entries => ⟨flags, entries⟩)

/-- Settles the colors of a pixmap: the row bytes of direct bits, the palette of all others. The
answer tells whether the data went that far. Mirrors `read_pixmap_header`, raster 118-130. -/
def readColors (kind : RasterKind) (f : Format) : Job Walk Bool := do
  match kind with
  | .directBits =>
    let p ← Walk.getPicture
    match f.directRowBytes? p.width with
    | some n =>
      Walk.modify fun p => { p with rowBytes := n }
      pure true
    | none => Job.fail (.unsupportedVectorData f.pixelSize)
  | .bitsRect | .bitsRegion | .packBitsRect | .packBitsRegion =>
    match ← readPalette with
    | some palette =>
      Walk.modify fun p => { p with palette := some palette }
      pure true
    | none => pure false

/-- Reads the format of a pixmap and its colors; `none` when they are cut short. Mirrors
`read_pixmap_header`, raster 100-142. -/
def readPixmap (kind : RasterKind) : Job Walk (Option Format) := do
  match ← Walk.read Format.read with
  | none => pure none
  | some f =>
    if ← readColors kind f then
      Walk.move (·.skip 18)
      if kind.hasRegion then Walk.move (·.skip 2)
      pure (some f)
    else pure none

/-- Reads everything in front of the rows; `none` when the raster is given up. Mirrors
`decode_raster`, raster 38-53. -/
def readOpening (op : RasterOp) : Job Walk (Option Format) := do
  takeRowBytes op.rowBytes
  match ← Walk.read readBounds with
  | none =>
    Job.warn (.boundsTruncated op.kind)
    pure none
  | some (width, height) =>
    Walk.modify fun p => p.resize width height
    if op.pixmap then
      match ← readPixmap op.kind with
      | some f => pure (some f)
      | none =>
        let c ← Walk.getCursor
        Job.warn (.pixmapTruncated c.pos)
        pure none
    else pure (some Format.bitmap)

end Pict.Raster
