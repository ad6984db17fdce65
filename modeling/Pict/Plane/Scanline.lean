import Pict.Plane.Assembly
import Pict.Plane.Window
import Pict.Samples.Fit

/-!
# Scanlines

A scanline is one row of a window: for each plane of the layout the samples
of the row. A row whose strip is missing or of the wrong kind has no
scanline; where every row has three strips, each missing one is black.
-/
namespace Pict

/-- The samples of one row of a window, plane by plane. -/
abbrev Scanline := List (List UInt8)

namespace Scanline

/-- The black scanline of this many planes. -/
def blank (planes width : Nat) : Scanline := List.replicate planes (List.replicate width 0)

/-- The scanline of a row of words. Mirrors `assemble_packed555`, assemble 289-295. -/
def ofWords (row : List UInt16) : Scanline := [row.map red5, row.map green5, row.map blue5]

end Scanline

namespace Picture

/-- The byte samples of strip `k`, if it has any. -/
def byteStrip? (p : Picture) (k : Nat) : Option (List UInt8) := p.strips[k]?.bind Strip.bytes?

/-- The word samples of strip `k`, if it has any. -/
def wordStrip? (p : Picture) (k : Nat) : Option (List UInt16) := p.strips[k]?.bind Strip.words?

/-- The strip of channel `c` of row `r`, with `stride` strips per row of which the last three are
the channels. Mirrors `assemble_planar`, assemble 263. -/
def channelStrip (stride r c : Nat) : Nat := r * stride + (stride - 3) + c

/-- The scanline of row `i` of a window that is assembled from strips. Mirrors assemble 237-240,
262-268 and 285-295. -/
def scanline? (p : Picture) (assembly : Assembly) (win : Window) (i : Nat) : Option Scanline :=
  match assembly with
  | .indexed | .gray =>
    (p.byteStrip? (win.y + i)).map fun row => [crop win.x win.width row]
  | .packed555 =>
    (p.wordStrip? (win.y + i)).map fun row => Scanline.ofWords (crop win.x win.width row)
  | .planar stride =>
    some <| (List.range 3).map fun c =>
      crop win.x win.width ((p.byteStrip? (channelStrip stride (win.y + i) c)).getD [])
  | .jpeg | .fallback => none

end Picture
end Pict
