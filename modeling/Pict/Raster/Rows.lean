import Pict.Decode.Walk
import Pict.Raster.Format

/-!
# Reading the rows of a raster

Rows of less than eight bytes stand as they are. Longer ones, and all rows of
32-bit pixels, are packed behind a length: one byte, or a signed word when row
bytes exceed 250. The length is cut to what a packed row may take and to one
byte less than what is left (`fitLength`); a row that cannot be read at all
leaves the cursor on the last byte.
-/
namespace Pict.Raster

/-- The most bytes that a packed row of `rowBytes` bytes takes. Mirrors `unpack_compressed`, raster
243. -/
def packedCapacity (rowBytes : Nat) : Nat := rowBytes + 1 + rowBytes / 128

/-- A packed length cut to the capacity and to less than what is left. Mirrors `clamp_row_len`,
raster 300-309. -/
def fitLength (declared : Int) (capacity remaining : Nat) : Int :=
  min (min declared capacity) (remaining - 1)

theorem fitLength_le_capacity (declared : Int) (capacity remaining : Nat) :
    fitLength declared capacity remaining ≤ capacity := by
  unfold fitLength
  omega

theorem fitLength_lt_remaining (declared : Int) (capacity remaining : Nat) :
    fitLength declared capacity remaining < remaining := by
  unfold fitLength
  omega

/-- Settles how many bytes of a packed row to read. Mirrors `clamp_row_len`, raster 299-317. -/
def settleLength (declared : Int) (capacity : Nat) : Job Walk Nat := do
  if capacity < declared then Job.warn (.packedRowTooLong declared capacity)
  let c ← Walk.getCursor
  let length := fitLength declared capacity c.remaining
  if length < 0 then
    Job.warn (.packedRowOutOfRange declared c.pos)
    Walk.move fun c => c.seek (c.source.size - 1)
    pure 0
  else pure length.toNat

/-- Reads the length in front of a packed row. Mirrors `unpack_compressed`, raster 250-254. -/
def readLength (rowBytes : Nat) : Reader Int :=
  if 250 < rowBytes then Reader.i16
  else do
    let n ← Reader.u8
    pure n.toNat

/-- Marks the picture as colored if the rows are. -/
def markDirect (f : Format) : Job Walk Unit :=
  if f.isDirect then Walk.modify Picture.markColor else pure ()

/-- Reads one row that stands as it is. A short one is filled with zeros. Mirrors
`unpack_uncompressed`, raster 204-228. -/
def readRawRow (f : Format) (width height rowBytes row : Nat) : Job Walk Bool := do
  let c ← Walk.getCursor
  if c.atEnd then
    Job.warn (.rawRowsEnded row height)
    pure false
  else
    let bytes ← Walk.next rowBytes
    if bytes.length < rowBytes then Job.warn (.rawRowTruncated row bytes.length rowBytes)
    let strip ← Job.ofExcept (f.rawStrip width (fit rowBytes bytes))
    Walk.store strip
    markDirect f
    pure true

/-- Reads one packed row. Mirrors `unpack_compressed`, raster 250-291. -/
def readPackedRow (f : Format) (width height rowBytes row : Nat) : Job Walk Bool := do
  match ← Walk.read (readLength rowBytes) with
  | none =>
    Job.warn (.packedRowsEnded row height)
    pure false
  | some declared =>
    let length ← settleLength declared (packedCapacity rowBytes)
    let packed ← Walk.next length
    let strips ← Job.ofExcept (f.packedStrips width packed)
    Walk.storeAll strips
    markDirect f
    pure true

/-- Reads the rows of a raster of the canvas that its bounds left. Mirrors `unpack_rows`, raster
171-188. -/
def readRows (f : Format) : Job Walk Unit := do
  let p ← Walk.getPicture
  let body := if f.isPacked p.rowBytes then readPackedRow else readRawRow
  Job.eachRow (body f p.width p.declaredHeight p.rowBytes) 0 p.declaredHeight

end Pict.Raster
