import Pict.Plane.Window
import Pict.Run.Limits
import Pict.Run.Stop
import Pict.Samples.Layout
import Pict.Text.Hex

/-!
# Errors

Everything that ends a run, and the text of each. The format errors are the
four that the header and the opcodes of a picture can raise.
-/
namespace Pict

/-- Why a run failed. Mirrors `PictError`, error 7-50. -/
inductive Error where
  /-- The version bytes are of no known version. -/
  | unrecognizedFormat
  /-- A version 2 picture with another marker than its own. -/
  | invalidVersion (marker : UInt16)
  /-- A direct pixmap that is neither 16 nor 32 bits deep. -/
  | unsupportedVectorData (pixelSize : Nat)
  /-- Rows of a depth that does not expand. -/
  | unsupportedBitDepth (depth : Nat)
  /-- A plane of this layout has no interleaved pixels to be viewed. -/
  | notViewable (layout : Layout)
  /-- The header is cut short. -/
  | unexpectedEof
  /-- The window is not on the canvas. -/
  | outsideCanvas (window : Window) (width height : Nat)
  | limitExceeded (breach : Breach)
  | bufferTooSmall (needed actual : Nat)
  /-- An embedded JPEG did not decode. -/
  | jpeg
  | cancelled (reason : StopReason)
  deriving DecidableEq, Repr

namespace Error

def message : Error → String
  | unrecognizedFormat => "not a recognized container"
  | invalidVersion marker => "invalid version marker: " ++ Hex.ofWord marker
  | unsupportedVectorData size => s!"vector data unsupported (pixel size {size})"
  | unsupportedBitDepth depth =>
    s!"unsupported bit depth: {depth} (only 1, 2 and 4 bit pixels expand)"
  | notViewable layout =>
    "unsupported format variant: " ++
      s!"{layout.label} plane cannot be viewed as {Layout.rgb8.label} pixels"
  | unexpectedEof => "unexpected end of input"
  | outsideCanvas win width height =>
    s!"region {win.x},{win.y} {win.width}x{win.height} lies outside the {width}x{height} canvas"
  | limitExceeded breach => "limit exceeded: " ++ breach.message
  | bufferTooSmall needed actual => s!"buffer too small: need {needed} bytes, got {actual}"
  | jpeg => "embedded JPEG failed to decode"
  | cancelled _ => "operation cancelled"

/-- Whether the header or the opcodes of the picture are at fault. Mirrors `is_format_error`, error
55-63. -/
def isFormatError : Error → Bool
  | unrecognizedFormat | invalidVersion _ | unsupportedVectorData _ | unsupportedBitDepth _ => true
  | _ => false

end Error
end Pict
