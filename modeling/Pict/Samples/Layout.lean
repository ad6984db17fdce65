/-!
# Layouts of a plane

How the samples of an assembled plane lie in memory.
-/
namespace Pict

/-- How the samples of a plane lie in memory. Mirrors `PixelLayout`, pixel 4-13. -/
inductive Layout where
  /-- One sample per pixel, no palette. -/
  | gray8
  /-- One palette index per pixel. -/
  | indexed8
  /-- Red, green and blue of each pixel side by side. -/
  | rgb8
  /-- All red samples, then all green ones, then all blue ones. -/
  | planarRgb8
  deriving DecidableEq, Repr

namespace Layout

def label : Layout → String
  | gray8 => "Gray8"
  | indexed8 => "Indexed8"
  | rgb8 => "Rgb8"
  | planarRgb8 => "PlanarRgb8"

/-- Bytes per pixel, over all channels. -/
def bytesPerPixel : Layout → Nat
  | gray8 | indexed8 => 1
  | rgb8 | planarRgb8 => 3

def channels : Layout → Nat
  | gray8 | indexed8 => 1
  | rgb8 | planarRgb8 => 3

/-- Whether the samples of one pixel lie side by side. -/
def isInterleaved : Layout → Bool
  | rgb8 => true
  | gray8 | indexed8 | planarRgb8 => false

/-- How many separate planes the samples form. -/
def planes : Layout → Nat
  | planarRgb8 => 3
  | gray8 | indexed8 | rgb8 => 1

/-- Bytes that a pixel takes in each plane. -/
def pitch : Layout → Nat
  | rgb8 => 3
  | gray8 | indexed8 | planarRgb8 => 1

/-- Whether bytes of one layout can be taken as bytes of the other: the two one-byte layouts can be
exchanged, all others only stand for themselves. Mirrors `is_memory_compatible`, pixel 41-49. -/
def isCompatible (a b : Layout) : Bool :=
  a = b || (a.bytesPerPixel = 1 && b.bytesPerPixel = 1)

theorem planes_mul_pitch (l : Layout) : l.planes * l.pitch = l.bytesPerPixel := by
  cases l <;> rfl

end Layout
end Pict
