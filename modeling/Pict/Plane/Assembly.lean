import Pict.Decode.Picture
import Pict.Samples.Layout

/-!
# How a picture becomes a plane

Embedded JPEG data wins over strips. The kind of the first strip, the palette
and the number of strips per row decide how strips are taken.
-/
namespace Pict

/-- How the pixels of a picture are found. Mirrors `Assembly`, assemble 66-77. -/
inductive Assembly where
  /-- From the embedded JPEGs, one under the other. -/
  | jpeg
  /-- From a decoder that the caller provides. -/
  | fallback
  /-- From one byte strip per row, palette indices. -/
  | indexed
  /-- From one byte strip per row, plain samples. -/
  | gray
  /-- From `stride` byte strips per row, of which the last three are red, green and blue. -/
  | planar (stride : Nat)
  /-- From one word strip per row. -/
  | packed555
  deriving DecidableEq, Repr

namespace Picture

/-- How the strips of a picture are taken, the first of them given. Mirrors `select`, assemble
91-105. -/
def stripAssembly (p : Picture) (first : Strip) : Assembly :=
  let strips := p.strips.size
  if first.isWords then .packed555
  else if p.palette.isSome then .indexed
  else if p.height ≠ 0 ∧ (strips = p.height * 3 ∨ strips = p.height * 4) then
    .planar (strips / p.height)
  else .gray

/-- How a picture is assembled. A caller can ask for its own decoder instead of the strips by
`legacy`. Mirrors `select`, assemble 80-106. -/
def assembly (p : Picture) (legacy : Bool) : Assembly :=
  if 0 < p.jpegOffsets.size then .jpeg
  else
    match p.strips[0]? with
    | none => .fallback
    | some first => if legacy then .fallback else p.stripAssembly first

/-- The layout of the planes that an assembly gives. Mirrors `layout`, assemble 108-118. -/
def layoutOf (p : Picture) : Assembly → Layout
  | .jpeg => .rgb8
  | .indexed => .indexed8
  | .gray => .gray8
  | .planar _ | .packed555 => .planarRgb8
  | .fallback => if p.isRgb then .planarRgb8 else if p.isIndexed then .indexed8 else .gray8

/-- The layout of the planes of a picture. -/
def layout (p : Picture) : Layout := p.layoutOf (p.assembly false)

end Picture
end Pict
