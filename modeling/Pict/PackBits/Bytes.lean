import Pict.PackBits.Packet

/-!
# Byte packets

`decodeBytes` expands a packed row of bytes, as far as there is room. A
literal that the row cuts short gives what is there of it, and a run whose
byte is missing gives nothing.
-/
namespace Pict.PackBits

/-- The expansion of what is left of a packed row, at most `room` bytes of it. Mirrors `decode`,
packbits 20-42. -/
def unpackBytes : Mode → (room : Nat) → List UInt8 → List UInt8
  | _, _, [] => []
  | .header, room, h :: rest => unpackBytes (Mode.ofHeader h) room rest
  | .literal _, 0, _ :: _ => []
  | .literal more, room + 1, b :: rest => b :: unpackBytes (Mode.afterUnit more) room rest
  | .run count, room, b :: rest =>
    List.replicate (min count room) b ++ unpackBytes .header (room - count) rest

/-- The first `room` bytes that a packed row expands to. Mirrors `decode`, packbits 16-45. -/
def decodeBytes (room : Nat) (packed : List UInt8) : List UInt8 := unpackBytes .header room packed

theorem length_unpackBytes_le (m : Mode) (room : Nat) (packed : List UInt8) :
    (unpackBytes m room packed).length ≤ room := by
  fun_induction unpackBytes m room packed with
  | case1 => simp
  | case2 room h rest ih => exact ih
  | case3 => simp
  | case4 more room b rest ih => simpa using ih
  | case5 count room b rest ih =>
    simp only [List.length_append, List.length_replicate]
    omega

theorem length_decodeBytes_le (room : Nat) (packed : List UInt8) :
    (decodeBytes room packed).length ≤ room :=
  length_unpackBytes_le _ _ _

end Pict.PackBits
