/-!
# Rows of a fixed length

Rows are cut or padded with zeros to the length that is wanted, and a window
onto a row starts at some sample of it. `fit_getElem?` says what each sample
of a fitted row is, `getElem?_blocks` where an element lies in rows of one
length behind each other.
-/
namespace Pict

variable {α : Type} [OfNat α 0]

/-- The first `n` samples of `xs`, followed by zeros up to the length `n`. -/
def fit (n : Nat) (xs : List α) : List α := xs.take n ++ List.replicate (n - xs.length) 0

/-- The `n` samples of `xs` from sample `x` on, zero where `xs` has none. -/
def crop (x n : Nat) (xs : List α) : List α := fit n (xs.drop x)

@[simp] theorem length_fit (n : Nat) (xs : List α) : (fit n xs).length = n := by
  simp only [fit, List.length_append, List.length_take, List.length_replicate]
  omega

@[simp] theorem length_crop (x n : Nat) (xs : List α) : (crop x n xs).length = n :=
  length_fit n _

theorem fit_nil (n : Nat) : fit n ([] : List α) = List.replicate n 0 := by
  rw [fit, List.take_nil, List.nil_append, List.length_nil, Nat.sub_zero]

theorem fit_of_length {n : Nat} {xs : List α} (h : xs.length = n) : fit n xs = xs := by
  rw [fit, ← h, List.take_length, Nat.sub_self, List.replicate_zero, List.append_nil]

theorem fit_take (n : Nat) (xs : List α) : fit n (xs.take n) = fit n xs := by
  rw [fit, fit, List.take_take, Nat.min_self, List.length_take]
  congr 2
  omega

/-- Sample `k` of a fitted row is that of the row, or zero behind its end. -/
theorem fit_getElem? (n : Nat) (xs : List α) (k : Nat) (h : k < n) :
    (fit n xs)[k]? = some (xs[k]?.getD 0) := by
  simp only [fit, List.getElem?_append, List.length_take, List.getElem?_take,
    List.getElem?_replicate]
  by_cases hk : k < xs.length
  · rw [if_pos (by omega), if_pos h, List.getElem?_eq_getElem hk]
    rfl
  · rw [if_neg (by omega), if_pos (by omega), List.getElem?_eq_none (by omega)]
    rfl

theorem crop_getElem? (x n : Nat) (xs : List α) (k : Nat) (h : k < n) :
    (crop x n xs)[k]? = some (xs[x + k]?.getD 0) := by
  rw [crop, fit_getElem? _ _ _ h, List.getElem?_drop]

/-- `out` with `xs` written over it from sample `p` on, as far as `out` reaches. -/
def overwrite (out : List α) (p : Nat) (xs : List α) : List α :=
  out.take p ++ (xs.take (out.length - p) ++ out.drop (p + xs.length))

omit [OfNat α 0] in
theorem length_overwrite (out : List α) (p : Nat) (xs : List α) :
    (overwrite out p xs).length = out.length := by
  simp only [overwrite, List.length_append, List.length_take, List.length_drop]
  omega

/-! ## Rows behind each other -/

section Blocks
variable {α β : Type} {f : β → List α} {m : Nat} {xs : List β}
  (hf : ∀ x ∈ xs, (f x).length = m)
include hf

theorem length_blocks : (xs.flatMap f).length = xs.length * m := by
  rw [List.length_flatMap, List.map_congr_left hf, List.map_const', List.sum_replicate_nat]

/-- Place `i * m + j` is place `j` of list `i`. -/
theorem getElem?_blocks {i j : Nat} (hj : j < m) :
    (xs.flatMap f)[i * m + j]? = xs[i]?.bind fun x => (f x)[j]? := by
  induction xs generalizing i with
  | nil => simp
  | cons x xs ih =>
    have hx := hf x List.mem_cons_self
    rw [List.flatMap_cons]
    cases i with
    | zero =>
      rw [List.getElem?_append_left (by omega), Nat.zero_mul, Nat.zero_add]
      rfl
    | succ i =>
      have hi : (i + 1) * m + j - (f x).length = i * m + j := by
        rw [hx, Nat.succ_mul]
        omega
      rw [List.getElem?_append_right (by rw [hx, Nat.succ_mul]; omega), hi]
      exact ih fun y hy => hf y (List.mem_cons_of_mem x hy)

end Blocks

end Pict
