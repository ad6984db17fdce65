import Pict.Plane.Scanline
import Pict.Run.Job

/-!
# Painting a window row by row

The work of reading a plane: the scanlines painted so far and how many rows
had none, which is told behind the last row if it is positive. Whenever painting
ends, `Canvas.samples` lays the scanlines out plane by plane, black where no row
was painted.
-/
namespace Pict

/-- How far painting has come. -/
structure Canvas where
  lines : Array Scanline
  /-- How many rows had no scanline. The count goes round where a signed word of 32 bits does. -/
  missing : Int32
  /-- The bytes that the caller's decoder was handed, if it was called. -/
  handed : Option (List UInt8)
  deriving DecidableEq, Repr

namespace Canvas

def empty : Canvas := ⟨#[], 0, none⟩

/-- The samples of plane `c`, which has `size` of them. -/
def plane (canvas : Canvas) (size c : Nat) : List UInt8 :=
  fit size (canvas.lines.toList.flatMap fun line => line.getD c [])

/-- The samples of all planes of a window of `pixels` pixels, one plane after
the other. -/
def samples (canvas : Canvas) (layout : Layout) (pixels : Nat) : List UInt8 :=
  (List.range layout.planes).flatMap (canvas.plane (pixels * layout.pitch))

def addLine (canvas : Canvas) (line : Scanline) : Canvas :=
  { canvas with lines := canvas.lines.push line }

/-- Adds a black line for a row that has no scanline. -/
def addMissing (canvas : Canvas) (planes width : Nat) : Canvas :=
  { canvas with
    lines := canvas.lines.push (Scanline.blank planes width)
    missing := canvas.missing + 1 }

theorem length_samples (canvas : Canvas) (layout : Layout) (pixels : Nat) :
    (canvas.samples layout pixels).length = pixels * layout.bytesPerPixel := by
  rw [← layout.planes_mul_pitch, samples, List.length_flatMap]
  simp only [plane, length_fit, List.map_const', List.length_range, List.sum_replicate_nat]
  rw [Nat.mul_left_comm]

theorem samples_blank {canvas : Canvas} (h : canvas.lines = #[]) (layout : Layout) (pixels : Nat) :
    canvas.samples layout pixels = List.replicate (pixels * layout.bytesPerPixel) 0 := by
  refine List.eq_replicate_iff.mpr ⟨canvas.length_samples layout pixels, fun b hb => ?_⟩
  obtain ⟨c, -, hc⟩ := List.mem_flatMap.mp hb
  rw [Canvas.plane, h] at hc
  exact List.eq_of_mem_replicate (fit_nil (α := UInt8) _ ▸ hc)

end Canvas

namespace Picture

/-- Paints row `i` of a window. Mirrors the bodies of the row loops, assemble 237-240, 260-268 and
285-295. -/
def paintRow (p : Picture) (assembly : Assembly) (win : Window) (i : Nat) : Job Canvas Bool := do
  match p.scanline? assembly win i with
  | some line => Job.modifyWork (·.addLine line)
  | none => Job.modifyWork (·.addMissing (p.layoutOf assembly).planes win.width)
  pure true

/-- How many rows of a window are gone through: the assemblies with a single plane pass over a
window without columns. Mirrors assemble 233, 256 and 281. -/
def rowsOf (assembly : Assembly) (win : Window) : Nat :=
  match assembly with
  | .indexed | .gray => if win.width = 0 then 0 else win.height
  | .planar _ | .packed555 => win.height
  | .jpeg | .fallback => 0

def missingWarning (assembly : Assembly) (rows : Nat) : Warning :=
  if assembly = .packed555 then .wordRowsMissing rows else .byteRowsMissing rows

/-- Paints a window from strips. Mirrors `assemble_rows`, `assemble_planar` and
`assemble_packed555`, assemble 231-301. -/
def paintStrips (p : Picture) (assembly : Assembly) (win : Window) : Job Canvas Unit := do
  Job.eachRow (p.paintRow assembly win) 0 (rowsOf assembly win)
  let canvas ← Job.work
  if 0 < canvas.missing then
    Job.warn (missingWarning assembly canvas.missing.toNatClampNeg)

end Picture
end Pict
