import Pict.Stream.Opcode
import Pict.Text.Hex

/-!
# Warnings

What a run passes over and reports. Offsets count from the start of the data.
-/
namespace Pict

/-- Content that is skipped by its length. -/
inductive Payload where
  | clipRegion
  | longComment
  | shortSkip
  deriving DecidableEq, Repr

def Payload.label : Payload → String
  | clipRegion => "clip region"
  | longComment => "long comment"
  | shortSkip => "opcode payload"

/-- Something a run noticed and went on from. -/
inductive Warning where
  | unrecognizedOpcode (code : UInt16) (offset : Nat)
  | payloadPastEnd (payload : Payload) (length offset : Nat)
  | boundsTruncated (kind : RasterKind)
  | pixmapTruncated (offset : Nat)
  | paletteTruncated (declared available : Nat)
  | rawRowsEnded (row height : Nat)
  | rawRowTruncated (row got length : Nat)
  | packedRowsEnded (row height : Nat)
  | packedRowTooLong (declared : Int) (capacity : Nat)
  | packedRowOutOfRange (declared : Int) (offset : Nat)
  | byteRowsMissing (rows : Nat)
  | wordRowsMissing (rows : Nat)
  | wholeImageFallback
  deriving DecidableEq, Repr

def Warning.message : Warning → String
  | unrecognizedOpcode code offset =>
    s!"unrecognized opcode {Hex.ofWord code} at offset {offset}"
  | payloadPastEnd payload length offset =>
    s!"{payload.label} of {length} bytes at offset {offset} runs past the end of the data"
  | boundsTruncated kind => s!"raster opcode {kind.label} truncated in its bounds header"
  | pixmapTruncated offset => s!"pixmap header truncated at offset {offset}"
  | paletteTruncated declared available =>
    s!"color table declares {declared} entries, only {available} present"
  | rawRowsEnded row height => s!"stream ended after {row} of {height} uncompressed rows"
  | rawRowTruncated row got length => s!"row {row} truncated: {got} of {length} bytes"
  | packedRowsEnded row height => s!"stream ended after {row} of {height} compressed rows"
  | packedRowTooLong declared capacity =>
    s!"packed row length {declared} exceeds buffer of {capacity} bytes"
  | packedRowOutOfRange declared offset =>
    s!"packed row length {declared} out of range at offset {offset}"
  | byteRowsMissing rows =>
    s!"{rows} requested rows have no decoded byte strip; left blank"
  | wordRowsMissing rows =>
    s!"{rows} requested rows have no decoded word strip; left blank"
  | wholeImageFallback =>
    "no usable raster strips; using best-effort whole-image fallback"

end Pict
