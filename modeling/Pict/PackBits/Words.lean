import Pict.PackBits.Packet
import Pict.Samples.Fit
import Pict.Stream.Source

/-!
# Word packets

`decodeWords` expands a packed row of big-endian words to exactly one word per
pixel. Only whole words count: a literal ends at the last whole one, a run
without its word gives nothing, and pixels that get no word are zero.
-/
namespace Pict.PackBits

/-- The expansion of what is left of a packed row, at most `room` words of it. Mirrors
`decode_words`, packbits 56-81. -/
def unpackWords : Mode → (room : Nat) → List UInt8 → List UInt16
  | .header, room, h :: rest => unpackWords (Mode.ofHeader h) room rest
  | .literal more, room + 1, hi :: lo :: rest =>
    word hi lo :: unpackWords (Mode.afterUnit more) room rest
  | .run count, room, hi :: lo :: rest =>
    List.replicate (min count room) (word hi lo) ++ unpackWords .header (room - count) rest
  | _, _, _ => []

/-- The `width` words of a packed row. Mirrors `decode_words`, packbits 49-84. -/
def decodeWords (width : Nat) (packed : List UInt8) : List UInt16 :=
  fit width (unpackWords .header width packed)

/-- The bytes of a word. -/
def writeWord (w : UInt16) : List UInt8 :=
  [UInt8.ofNat (w.toNat / 256), UInt8.ofNat (w.toNat % 256)]

@[simp] theorem length_decodeWords (width : Nat) (packed : List UInt8) :
    (decodeWords width packed).length = width :=
  length_fit _ _

end Pict.PackBits
