import Pict.Jpeg.Transform
import Pict.Samples.Palette

/-!
# Colors of a JPEG

One component is a gray sample. Three are luminance and two color differences
around 128, turned into red, green and blue with constants scaled by `2 ^ 14`.
-/
namespace Pict.Jpeg

def ofGray (y : UInt8) : Rgb := ⟨y, y, y⟩

/-- The pixel of a luminance and two color differences. -/
def ofYcc (y cb cr : UInt8) : Rgb :=
  let b : Int := cb.toNat - 128
  let r : Int := cr.toNat - 128
  let base : Int := y.toNat * 16384 + 8191
  ⟨clampByte ((base + 22970 * r) >>> (14 : Nat)),
    clampByte ((base - 11700 * r - 5638 * b) >>> (14 : Nat)),
    clampByte ((base + 29032 * b) >>> (14 : Nat))⟩

/-- The pixels of one row of a unit, from the samples of its components. -/
def rowPixels : List (List UInt8) → List Rgb
  | [ys] => ys.map ofGray
  | [ys, cbs, crs] => List.zipWith (fun y p => ofYcc y p.1 p.2) ys (List.zip cbs crs)
  | _ => []

end Pict.Jpeg
