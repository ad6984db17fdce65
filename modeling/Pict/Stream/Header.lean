import Pict.Number.Binary32
import Pict.Run.Error
import Pict.Stream.Opcode

/-!
# The header of a picture

A preamble of 512 bytes, a picture frame and a version. Version 2 adds a
marker and an extended header with the resolution and a frame that overrides
the first one where it is positive.
-/
namespace Pict

/-- Horizontal and vertical resolution in pixels per inch. -/
structure Resolution where
  horizontal : Binary32
  vertical : Binary32
  deriving DecidableEq, Repr

/-- What a picture tells about itself. Mirrors `ImageInfo`, info 14-22. -/
structure Info where
  width : Nat
  height : Nat
  version : Version
  /-- Version 2 only. -/
  resolution : Option Resolution
  deriving DecidableEq, Repr

namespace Header

/-- Bytes in front of the picture proper. -/
def preambleSize : Nat := 512

/-- Offset of the lower and right edge of the frame. -/
def frameOffset : Nat := 518

def versionTwoMarker : UInt16 := 0x02FF

/-- A size that is taken from the overriding frame where it is positive. Mirrors `read_v2_header`,
header 71-76. -/
def override (size : Nat) (value : Int) : Nat := if 0 < value then value.toNat else size

/-- Reads the extended header behind the marker of version 2. Mirrors `read_v2_header`, header
62-79. -/
def readExtended (width height : Nat) : Reader Info := do
  Reader.skip 6
  let horizontal ← Reader.u32
  let vertical ← Reader.u32
  Reader.skip 4
  let bottom ← Reader.i16
  let right ← Reader.i16
  Reader.skip 4
  pure
    { width := override width right
      height := override height bottom
      version := .two
      resolution := some ⟨Binary32.ofFixed horizontal, Binary32.ofFixed vertical⟩ }

/-- Reads the header and leaves the cursor on the first opcode. Mirrors `parse_header`, header
23-58. -/
def read : Reader (Except Error Info) := do
  Reader.seek frameOffset
  let height ← Reader.i16
  let width ← Reader.i16
  let code ← Reader.u8
  let number ← Reader.u8
  match code, number with
  | 0x11, 0x01 =>
    pure (.ok { width := width.toNat, height := height.toNat, version := .one, resolution := none })
  | 0x00, 0x11 => do
    let marker ← Reader.u16
    if marker = versionTwoMarker then
      let info ← readExtended width.toNat height.toNat
      pure (.ok info)
    else pure (.error (.invalidVersion marker))
  | _, _ => pure (.error .unrecognizedFormat)

/-- The header of a picture and the cursor on its first opcode. -/
def parse (source : Source) : Except Error (Info × Cursor) :=
  match read ⟨source, 0⟩ with
  | (some (.ok info), cursor) => .ok (info, cursor)
  | (some (.error e), _) => .error e
  | (none, _) => .error .unexpectedEof

end Header
end Pict
