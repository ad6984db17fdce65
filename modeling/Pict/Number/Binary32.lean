/-!
# Fixed-point numbers in single precision

A resolution is stored as a 16.16 fixed-point number `v / 2 ^ 16` and is
reported as the nearest binary32 number, a tie going to the even significand.
All values fit: the exponent of a non-zero one lies between -16 and 15.
-/
namespace Pict

/-- A binary32 number by its bit pattern. -/
structure Binary32 where
  bits : UInt32
  deriving DecidableEq, Repr

namespace Binary32

/-- `v / 2 ^ s` rounded to the nearest integer, ties to even. -/
def roundShift (v s : Nat) : Nat :=
  let q := v >>> s
  let unit := 1 <<< s
  let r := v % unit
  if unit < 2 * r ∨ (2 * r = unit ∧ q % 2 = 1) then q + 1 else q

/-- The 24-bit significand of `v`, whose leading bit has weight `2 ^ e`. It is
`2 ^ 24` when rounding carries into the next exponent. -/
def significand (v e : Nat) : Nat :=
  if e ≤ 23 then v <<< (23 - e) else roundShift v (e - 23)

/-- The binary32 number nearest to `v / 2 ^ 16`. The significand's leading bit is dropped from the
pattern; a carry lands in the exponent field. Mirrors `fixed_to_f32`, header 81-83. -/
def ofFixed (v : UInt32) : Binary32 :=
  if v = 0 then ⟨0⟩ else
    let e := v.toNat.log2
    ⟨UInt32.ofNat ((e + 127 - 16) * 0x800000 + (significand v.toNat e - 0x800000))⟩

end Binary32
end Pict
