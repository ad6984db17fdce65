import Pict.Proofs.Machine.Pixels

/-!
# Where pixels of less than a byte stand

The pixels of a row follow each other in its bits, the first in the high bits of the first byte. A
depth of 1, 2 or 4 divides the eight bits of a byte, so pixel `k` lies in one byte: it is the `depth`
bits that have `k * depth` bits of the row in front of them. `Fills` says this of a buffer over which
a row is laid, in positions of bits only; where the row or the buffer ends, nothing else changes.

There are two loops that lay a row: one copies entries of a table that is made for one bit per pixel,
the other moves a mask down each byte. The second one is written for any depth.

Results:
* `fills_expandOver`: the samples of the bytes, laid side by side, stand at their bits.
* `expandInto_fills`: at each depth a row is laid like this, also by mask and shift where the table
  is used, and the loops of a machine do the same without a fault.
-/
namespace Pict.Depth

def maskedInto (depth : Nat) (input out : List UInt8) : List UInt8 :=
  expandOver (8 / depth) (maskedSamples depth) input out

/-- The buffer `filled` is `out` with the pixels of `input` over it: pixel `k` is the bits of the byte
that it lies in, and what the row does not reach is as it was. -/
structure Fills (depth : Nat) (input out filled : List UInt8) : Prop where
  length : filled.length = out.length
  pixel : ∀ k < min out.length (input.length * 8 / depth), ∃ b x,
    input[k * depth / 8]? = some b ∧ filled[k]? = some x ∧
      x.toNat = (b.toNat >>> (8 - depth - k * depth % 8)) % 2 ^ depth
  rest : ∀ k, min out.length (input.length * 8 / depth) ≤ k → filled[k]? = out[k]?

section
variable {depth : Nat} (hd : depth = 1 ∨ depth = 2 ∨ depth = 4)
include hd

/-! ## Positions of bits -/

theorem pixel_byte (k : Nat) : k * depth / 8 = k / (8 / depth) := by
  rcases hd with rfl | rfl | rfl <;> omega

/-- The bits in front of a pixel in its byte are whole pixels. -/
theorem pixel_shift (k : Nat) : k * depth % 8 = k % (8 / depth) * depth := by
  rcases hd with rfl | rfl | rfl <;> omega

theorem pixel_count (n : Nat) : n * 8 / depth = n * (8 / depth) := by
  rcases hd with rfl | rfl | rfl <;> omega

theorem getElem?_samples {input : List UInt8} {k : Nat} (hk : k < input.length * 8 / depth) :
    ∃ b, input[k * depth / 8]? = some b ∧
      (input.flatMap (samplesOf depth))[k]? = some (sampleOf depth b (k % (8 / depth))) := by
  have hpos : 0 < 8 / depth := by rcases hd with rfl | rfl | rfl <;> decide
  have hin : k % (8 / depth) < 8 / depth := Nat.mod_lt k hpos
  have hbyte : k / (8 / depth) < input.length := by
    rw [pixel_count hd] at hk
    exact (Nat.div_lt_iff_lt_mul hpos).mpr hk
  have hplace := getElem?_blocks (fun b (_ : b ∈ input) => length_samplesOf depth b)
    (i := k / (8 / depth)) hin
  rw [Nat.div_add_mod', List.getElem?_eq_getElem hbyte, Option.bind_some, samplesOf,
    List.getElem?_map, List.getElem?_range hin, Option.map_some] at hplace
  rw [pixel_byte hd]
  exact ⟨_, List.getElem?_eq_getElem hbyte, hplace⟩

/-! ## Rows over a buffer -/

theorem fills_expandOver (input out : List UInt8) :
    Fills depth input out (expandOver (8 / depth) (samplesOf depth) input out) := by
  have hcount : ((input.flatMap (samplesOf depth)).take out.length).length =
      min out.length (input.length * 8 / depth) := by
    rw [List.length_take, length_blocks fun b _ => length_samplesOf depth b, pixel_count hd]
  have hlaid := expandOver_eq (length_samplesOf depth) input out
  rw [← pixel_count hd] at hlaid
  refine ⟨length_expandOver (length_samplesOf depth) input out, ?_, ?_⟩
  · intro k hk
    obtain ⟨b, hb, hsample⟩ := getElem?_samples hd (show k < input.length * 8 / depth by omega)
    refine ⟨b, sampleOf depth b (k % (8 / depth)), hb, ?_, ?_⟩
    · rw [hlaid, List.getElem?_append_left (by omega), List.getElem?_take_of_lt (by omega)]
      exact hsample
    · rw [toNat_sampleOf, pixel_shift hd]
  · intro k hk
    by_cases hout : k < out.length
    · have hplace : input.length * 8 / depth + (k - min out.length (input.length * 8 / depth)) = k := by
        omega
      rw [hlaid, List.getElem?_append_right (by omega), List.getElem?_drop, hcount, hplace]
    · have hlength := length_expandOver (length_samplesOf depth) input out
      rw [List.getElem?_eq_none (by omega), List.getElem?_eq_none (by omega)]

/-- The table and the mask lay the same row. -/
theorem maskedInto_eq (input out : List UInt8) :
    maskedInto depth input out = expandOver (8 / depth) (samplesOf depth) input out := by
  rw [maskedInto, funext (maskedSamples_eq hd)]

end

end Pict.Depth

namespace Pict.Machine

open Depth

/-- A row of 1, 2 or 4 bits per pixel is laid over any buffer bit by bit. The loop of mask and shift
lays it at each of these depths, also at the one for which there is a table, and on a machine none of
the two loops faults. -/
theorem expandInto_fills {depth : Nat} (hd : depth = 1 ∨ depth = 2 ∨ depth = 4)
    (input out : List UInt8) :
    ∃ filled, Depth.expandInto depth input out = .ok filled ∧ Fills depth input out filled ∧
      Depth.maskedInto depth input out = filled ∧
      expandInto depth input out = .ok (.ok filled) ∧ maskedInto depth input out = .ok filled := by
  have hrow := expandInto_eq_ok.mpr
    ⟨hd, (rfl : _ = Depth.expandOver (8 / depth) (samplesOf depth) input out)⟩
  refine ⟨_, hrow, fills_expandOver hd input out, maskedInto_eq hd input out, ?_, ?_⟩
  · rw [expandInto_ok, hrow]
  · rw [maskedInto_ok hd]
    exact congrArg Except.ok (maskedInto_eq hd input out)

/-- Two bytes over eleven places, by table and by mask, and one byte over six. -/
theorem expandInto_ragged :
    expandInto 1 [0xA1, 0xE0] (List.replicate 11 0xAA) =
        .ok (.ok [1, 0, 1, 0, 0, 0, 0, 1, 1, 1, 1]) ∧
      maskedInto 1 [0xA1, 0xE0] (List.replicate 11 0xAA) =
        .ok [1, 0, 1, 0, 0, 0, 0, 1, 1, 1, 1] ∧
      Depth.expandInto 4 [0x12] [7, 7, 7, 7, 7, 7] = .ok [1, 2, 7, 7, 7, 7] := by
  obtain ⟨bits, -, -, hbits, htable, hmask⟩ :=
    expandInto_fills (Or.inl rfl) [0xA1, 0xE0] (List.replicate 11 0xAA)
  obtain ⟨nibbles, hnibbles, -, hmasked, -⟩ :=
    expandInto_fills (Or.inr (Or.inr rfl)) [0x12] [7, 7, 7, 7, 7, 7]
  have hsame : Depth.maskedInto 1 [0xA1, 0xE0] (List.replicate 11 0xAA) =
      [1, 0, 1, 0, 0, 0, 0, 1, 1, 1, 1] := by decide
  have hshort : Depth.maskedInto 4 [0x12] [7, 7, 7, 7, 7, 7] = [1, 2, 7, 7, 7, 7] := by decide
  subst hbits hmasked
  exact ⟨htable.trans (by rw [hsame]), hmask.trans (by rw [hsame]), hnibbles.trans (by rw [hshort])⟩

end Pict.Machine
