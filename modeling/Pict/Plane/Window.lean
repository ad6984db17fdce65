/-!
# Windows

A rectangle of pixels on the canvas.
-/
namespace Pict

/-- A rectangle whose left upper pixel is (`x`, `y`). -/
structure Window where
  x : Nat
  y : Nat
  width : Nat
  height : Nat
  deriving DecidableEq, Repr

namespace Window

/-- Whether a window lies on a canvas of this size. Mirrors `plan`, assemble 179-180. -/
def fits (win : Window) (width height : Nat) : Bool :=
  win.x + win.width ≤ width && win.y + win.height ≤ height

def pixels (win : Window) : Nat := win.width * win.height

end Window
end Pict
