import Pict.Samples.Palette
import Pict.Samples.Strip
import Pict.Stream.Header

/-!
# Pictures

What the opcodes of a picture amount to: the canvas, the palette, the strips
in the order of the stream, and where embedded JPEG data starts.
-/
namespace Pict

/-- What the opcodes of a picture amount to. Mirrors `DecodeState`, state 77-91. -/
structure Picture where
  width : Nat
  /-- The height of the header or of the last raster bounds. -/
  declaredHeight : Nat
  version : Version
  resolution : Option Resolution
  /-- Bytes of one packed row of the last raster. -/
  rowBytes : Nat
  palette : Option Palette
  strips : Array Strip
  /-- Bytes that all strips take together. -/
  stripBytes : Nat
  jpegOffsets : Array Nat
  channels : Nat
  interleaved : Bool
  deriving DecidableEq, Repr

namespace Picture

/-- The picture in front of its first opcode. Mirrors `new`, state 94-110. -/
def start (info : Info) : Picture :=
  { width := info.width
    declaredHeight := info.height
    version := info.version
    resolution := info.resolution
    rowBytes := 0
    palette := none
    strips := #[]
    stripBytes := 0
    jpegOffsets := #[]
    channels := 1
    interleaved := false }

/-- Adds a strip. Mirrors `push_strip`, state 112-115. -/
def store (p : Picture) (strip : Strip) : Picture :=
  { p with strips := p.strips.push strip, stripBytes := p.stripBytes + strip.byteSize }

/-- The height that planes are assembled with. The declared height gives way to the number of
strips when there are more than four times as many, unless three strips per row account for them.
Mirrors `height`, state 127-135. -/
def height (p : Picture) : Nat :=
  let strips := p.strips.size
  if p.declaredHeight * 4 < strips ∧
      (p.declaredHeight = 0 ∨ strips / 3 % p.declaredHeight ≠ 0) then
    min strips 0xFFFFFFFF
  else p.declaredHeight

def isRgb (p : Picture) : Bool := 1 < p.channels

def isIndexed (p : Picture) : Bool := !p.isRgb && p.palette.isSome

/-- What the picture tells about itself. Mirrors `info`, state 146-153. -/
def info (p : Picture) : Info :=
  { width := p.width
    height := p.height
    version := p.version
    resolution := p.resolution }

/-- The canvas after the bounds of a raster, where they have a size. Mirrors `read_image_header`,
raster 85-90. -/
def resize (p : Picture) (width height : Int) : Picture :=
  { p with
    width := Header.override p.width width
    declaredHeight := Header.override p.declaredHeight height }

def markColor (p : Picture) : Picture := { p with channels := 3 }

end Picture
end Pict
