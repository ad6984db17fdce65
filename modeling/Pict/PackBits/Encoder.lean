import Pict.PackBits.Packet

/-!
# Packing a row

`encode` packs a row of bytes: wherever two equal bytes meet it takes the whole
run of them, up to 128, and what lies between runs becomes literals of up to
128 bytes. A packed row may be longer than the row itself, for short runs
break up literals.
-/
namespace Pict.PackBits

/-- How many bytes in front of a row equal `b`, counting up to `most`. Mirrors `encode`, packbits
94-98. -/
def runLength (b : UInt8) : (most : Nat) → List UInt8 → Nat
  | most + 1, c :: rest => if c = b then runLength b most rest + 1 else 0
  | _, _ => 0

/-- How many bytes in front of a row come before two equal ones, counting up to `most`. Mirrors
`encode`, packbits 106-112. -/
def literalLength : (most : Nat) → List UInt8 → Nat
  | most + 1, b :: c :: rest => if b = c then 0 else literalLength most (c :: rest) + 1
  | _ + 1, [_] => 1
  | _, _ => 0

theorem literalLength_pos {most : Nat} {b : UInt8} {rest : List UInt8}
    (h : runLength b most rest = 0) (hm : 0 < most) : 0 < literalLength most (b :: rest) := by
  obtain ⟨n, rfl⟩ : ∃ n, most = n + 1 := ⟨most - 1, by omega⟩
  cases rest with
  | nil => simp [literalLength]
  | cons c rest =>
    by_cases hc : c = b
    · simp [runLength, hc] at h
    · rw [literalLength, if_neg (fun e => hc e.symm)]
      omega

/-- The packets of a row. -/
def encode : List UInt8 → List (Packet UInt8)
  | [] => []
  | b :: rest =>
    if runLength b 127 rest = 0 then
      .literal ((b :: rest).take (literalLength 128 (b :: rest))) ::
        encode ((b :: rest).drop (literalLength 128 (b :: rest)))
    else
      .run (runLength b 127 rest + 1) b :: encode (rest.drop (runLength b 127 rest))
termination_by row => row.length
decreasing_by
  · rename_i h
    have h0 : runLength b 128 rest = 0 := by
      cases rest with
      | nil => rfl
      | cons c rest =>
        by_cases hc : c = b
        · simp [runLength, hc] at h
        · simp [runLength, hc]
    have := literalLength_pos h0 (by decide)
    simp only [List.length_drop, List.length_cons]
    omega
  · simp only [List.length_drop, List.length_cons]
    omega

/-- The packed bytes of a row. Mirrors `encode`, packbits 88-118. -/
def encodeBytes (row : List UInt8) : List UInt8 := bytesOf (fun b => [b]) (encode row)

end Pict.PackBits
