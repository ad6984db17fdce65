/-!
# Picture data and its big-endian fields

A picture is a byte array. Every field is big-endian and is asked for by its
offset; a field that does not lie wholly inside the data is `none`
(`isSome_u8?_iff`, `isSome_u16?_iff`, `isSome_u32?_iff`).
-/
namespace Pict

/-- The bytes of a picture file. -/
abbrev Source := Array UInt8

/-- The 16-bit word written as `hi lo`. -/
def word (hi lo : UInt8) : UInt16 := UInt16.ofNat (hi.toNat * 256 + lo.toNat)

/-- The value of a word in two's complement. -/
def signed (w : UInt16) : Int :=
  if w.toNat < 0x8000 then w.toNat else w.toNat - 0x10000

namespace Source

def u8? (src : Source) (p : Nat) : Option UInt8 := src[p]?

def u16? (src : Source) (p : Nat) : Option UInt16 :=
  match src[p]?, src[p + 1]? with
  | some hi, some lo => some (word hi lo)
  | _, _ => none

def i16? (src : Source) (p : Nat) : Option Int := (src.u16? p).map signed

def u32? (src : Source) (p : Nat) : Option UInt32 :=
  match src.u16? p, src.u16? (p + 2) with
  | some hi, some lo => some (UInt32.ofNat (hi.toNat * 0x10000 + lo.toNat))
  | _, _ => none

/-- The bytes from offset `p` on, at most `n` of them. -/
def slice (src : Source) (p n : Nat) : List UInt8 := (src.extract p (p + n)).toList

def sliceFrom (src : Source) (p : Nat) : List UInt8 := src.slice p (src.size - p)

theorem isSome_u8?_iff (src : Source) (p : Nat) : (src.u8? p).isSome ↔ p < src.size := by
  simp [u8?]

/-- A word is there exactly when both of its bytes are. -/
theorem isSome_u16?_iff (src : Source) (p : Nat) : (src.u16? p).isSome ↔ p + 2 ≤ src.size := by
  unfold u16?
  split
  · rename_i h1 h0
    have := (Array.getElem?_eq_some_iff.mp h0).1
    simp only [Option.isSome_some, true_iff]
    omega
  · rename_i h
    simp only [Option.isSome_none, Bool.false_eq_true, false_iff]
    intro hp
    exact h _ _ (Array.getElem?_eq_getElem (by omega)) (Array.getElem?_eq_getElem (by omega))

/-- A long is there exactly when both of its words are. -/
theorem isSome_u32?_iff (src : Source) (p : Nat) : (src.u32? p).isSome ↔ p + 4 ≤ src.size := by
  have h1 := isSome_u16?_iff src p
  have h2 := isSome_u16?_iff src (p + 2)
  unfold u32?
  cases hw : src.u16? p <;> cases hv : src.u16? (p + 2) <;>
    simp only [hw, hv, Option.isSome_none, Option.isSome_some, Bool.false_eq_true,
      false_iff, true_iff] at h1 h2 ⊢ <;> omega

theorem length_slice (src : Source) (p n : Nat) :
    (src.slice p n).length = min n (src.size - p) := by
  simp only [slice, Array.length_toList, Array.size_extract]
  omega

end Source
end Pict
