import Pict.Plane.Canvas
import Pict.Stream.Header

/-!
# The caller's own decoder

Where no strips can be used, a decoder that the caller provides is handed the
picture behind its preamble. Plane `i` of its answer is laid at `i` times its
own length.
-/
namespace Pict

/-- Decodes a picture without its preamble to planes, or gives up. Mirrors `FallbackDecoder`,
assemble 18-22. -/
abbrev FallbackDecoder := List UInt8 → Option (List (List UInt8))

namespace Fallback

/-- `out` with the planes from number `i` on laid over it, up to the first whose place is behind
the end of `out`. Mirrors `assemble_fallback`, assemble 309-315. -/
def lay : (planes : List (List UInt8)) → (i : Nat) → (out : List UInt8) → List UInt8
  | [], _, out => out
  | plane :: rest, i, out =>
    if out.length < i * plane.length then out
    else lay rest (i + 1) (overwrite out (i * plane.length) plane)

/-- The pixels that the caller's decoder gives, `size` bytes. Mirrors `assemble_fallback`, assemble
303-316. -/
def paint (source : Source) (decoder : Option FallbackDecoder) (size : Nat) :
    Job Canvas (List UInt8) := do
  Job.warn .wholeImageFallback
  let blank := List.replicate size 0
  match decoder with
  | none => pure blank
  | some decoder =>
    let picture := source.sliceFrom Header.preambleSize
    Job.modifyWork fun canvas => { canvas with handed := some picture }
    pure (lay ((decoder picture).getD []) 0 blank)

theorem length_lay (planes : List (List UInt8)) (i : Nat) (out : List UInt8) :
    (lay planes i out).length = out.length := by
  fun_induction lay planes i out with
  | case1 => rfl
  | case2 => rfl
  | case3 i out plane rest h ih => rw [ih, length_overwrite]

end Fallback
end Pict
