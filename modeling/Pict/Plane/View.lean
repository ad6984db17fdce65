import Pict.Plane.Read
import Pict.Samples.Palette

/-!
# Views of a plane

A plane can be taken apart into its channels, or seen as interleaved pixels if
its layout is interleaved. An image view has rows of the plane's width, which
must not be zero.
-/
namespace Pict

/-- Why a plane has no view. -/
inductive ViewFailure where
  /-- The layout has no interleaved pixels. -/
  | refused (e : Error)
  /-- An image needs rows of at least one pixel. -/
  | zeroStride
  deriving DecidableEq, Repr

/-- Interleaved pixels with the size of the image they form. -/
structure PixelImage where
  pixels : List Rgb
  width : Nat
  height : Nat
  deriving DecidableEq, Repr

/-- The pixels of interleaved samples, without an incomplete last one. -/
def Rgb.ofSamples : List UInt8 → List Rgb
  | red :: green :: blue :: rest => ⟨red, green, blue⟩ :: ofSamples rest
  | _ => []

namespace Plane

/-- The channels of a plane where they lie one after the other, else all samples as one; none at
all for an empty plane. Mirrors `planes`, decode 72-80. -/
def channels (plane : Plane) : List (List UInt8) :=
  let whole := plane.pixels
  let size := if plane.layout.planes = 1 then whole.length else plane.width * plane.height
  ((List.range plane.layout.planes).map fun c => (whole.drop (c * size)).take size).filter
    fun samples => !samples.isEmpty

/-- The plane as interleaved pixels. Mirrors `as_pixels`, decode 103-115. -/
def asPixels (plane : Plane) : Except ViewFailure (List Rgb) :=
  if plane.layout.isCompatible .rgb8 then .ok (Rgb.ofSamples plane.pixels)
  else .error (.refused (.notViewable plane.layout))

/-- The plane as an image of interleaved pixels. Mirrors `as_imgref`, decode 119-129. -/
def asImage (plane : Plane) : Except ViewFailure PixelImage := do
  let pixels ← plane.asPixels
  if plane.width = 0 then .error .zeroStride
  else pure { pixels, width := plane.width, height := plane.height }

end Plane
end Pict
