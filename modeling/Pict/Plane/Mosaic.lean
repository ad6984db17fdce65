import Pict.Plane.Window
import Pict.Run.Error
import Pict.Samples.Fit
import Pict.Stream.Source

/-!
# Embedded JPEGs under each other

Each recorded offset starts a span that runs to the end of the data, and is
found by its distance from the first one; the codec decodes the image in front
of it. The images are stacked in order, and rows are taken from the stack at
the width of the first image that has one.
-/
namespace Pict

/-- A decoded image with red, green and blue of each pixel side by side. -/
structure RgbImage where
  width : Nat
  height : Nat
  pixels : List UInt8
  deriving DecidableEq, Repr

/-- Decodes the JPEG in front of some bytes. Mirrors `decode_rgb`, jpeg 46-59. -/
abbrev Codec := List UInt8 → Option RgbImage

namespace Mosaic

/-- The spans at some offsets. Mirrors `decode_spans`, jpeg 24-33. -/
def spans (source : Source) (offsets : List Nat) : List (List UInt8) :=
  let first := offsets.headD 0
  let rest := source.sliceFrom first
  offsets.map fun offset => rest.drop (offset - first)

/-- The images of all spans; one that does not decode fails them all. Mirrors `decode_spans`, jpeg
23-43. -/
def images (codec : Codec) : List (List UInt8) → Except Error (List RgbImage)
  | [] => .ok []
  | span :: rest =>
    match codec span with
    | none => .error .jpeg
    | some image => (image :: ·) <$> images codec rest

/-- The first width that is not zero. Mirrors `decode_spans`, jpeg 36-38. -/
def width (images : List RgbImage) : Nat :=
  ((images.map RgbImage.width).find? (· ≠ 0)).getD 0

/-- The samples of all images in order. -/
def samples (images : List RgbImage) : Array UInt8 :=
  (images.flatMap RgbImage.pixels).toArray

/-- Row `i` of a window onto a stack that is `width` pixels wide. Mirrors `assemble_jpeg`, assemble
324-328. -/
def row (samples : Array UInt8) (width : Nat) (win : Window) (i : Nat) : List UInt8 :=
  let start := (win.y + i) * (width * 3) + win.x * 3
  let length := min (win.width * 3) (width * 3 - win.x * 3)
  fit (win.width * 3) (samples.extract start (start + length)).toList

/-- The pixels of a window onto the stack. Mirrors `assemble_jpeg`, assemble 321-329. -/
def window (images : List RgbImage) (win : Window) : List UInt8 :=
  (List.range win.height).flatMap (row (samples images) (width images) win)

/-- The pixels of a window onto the embedded JPEGs of a picture. Mirrors `assemble_jpeg`, assemble
319-331. -/
def paint (codec : Codec) (source : Source) (offsets : List Nat) (win : Window) :
    Except Error (List UInt8) :=
  (fun images => window images win) <$> images codec (spans source offsets)

theorem length_row (samples : Array UInt8) (width : Nat) (win : Window) (i : Nat) :
    (row samples width win i).length = win.width * 3 :=
  length_fit _ _

theorem length_window (images : List RgbImage) (win : Window) :
    (window images win).length = win.height * (win.width * 3) := by
  simp only [window, List.length_flatMap, length_row, List.map_const', List.length_range,
    List.sum_replicate_nat]

end Mosaic
end Pict
