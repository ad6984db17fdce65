import Pict.Jpeg.Block
import Pict.Jpeg.Color
import Pict.Plane.Mosaic

/-!
# Baseline JPEG

`baseline` decodes a complete baseline JPEG whose components are all sampled
alike: units of eight by eight pixels from left to right and top to bottom,
cut to the size of the frame. What follows the scan is ignored.
-/
namespace Pict.Jpeg

/-- How many units cover this many pixels. -/
def unitsFor (pixels : Nat) : Nat := (pixels + 7) / 8

/-- The eight rows of pixels of a unit. -/
def unitRows (channels : List Channel) (unit : List Coefficients) : List (List Rgb) :=
  let samples := List.zipWith (fun channel => blockSamples channel.quantisation) channels unit
  (List.range 8).map fun i => rowPixels (samples.map fun rows => rows.getD i [])

/-- The eight rows of pixels of units that stand side by side. -/
def bandRows (channels : List Channel) (units : List (List Coefficients)) : List (List Rgb) :=
  (units.map (unitRows channels)).foldr (List.zipWith (· ++ ·)) (List.replicate 8 [])

/-- The rows of pixels of all units, `across` of them side by side in each of
`down` bands. -/
def imageRows (channels : List Channel) (across down : Nat) (units : List (List Coefficients)) :
    List (List Rgb) :=
  (List.range down).flatMap fun i => bandRows channels ((units.drop (i * across)).take across)

/-- The image of a scan. -/
def Scan.image? (scan : Scan) : Option RgbImage := do
  let across := unitsFor scan.width
  let down := unitsFor scan.height
  let units ← readIntervals scan.channels scan.restart scan.intervals (across * down)
  let rows := (imageRows scan.channels across down units).take scan.height
  pure
    { width := scan.width
      height := scan.height
      pixels := rows.flatMap fun row =>
        (row.take scan.width).flatMap fun p => [p.red, p.green, p.blue] }

/-- Decodes the baseline JPEG in front of some bytes. -/
def baseline : Codec := fun data => do
  let scan ← Setup.parse data
  scan.image?

end Pict.Jpeg
