import Mathlib.Algebra.Ring.Int.Defs
import Mathlib.Algebra.Ring.Nat
import Pict.Samples.Fit

/-!
# Machine arithmetic

On a machine a size is a word of 64 bits and a slice has two ends. A `Checked` computation
ends in a `Fault` where a sum, a difference, a product or a count leaves its type, where a divisor is
zero, where an index or an end of a slice lies outside, where two slices of different
lengths are copied, and where a loop does not end. What it is to be free of faults is that
the answer is `.ok`.

Results:
* `usize_ok`, `minus_ok`, `slice_ok` and the lemmas beside them: when a step does not fault.
* `Answers.loop_ok`: a loop whose turns do not fault and have less and less to do ends.
-/
namespace Pict.Machine

/-- What ends a run without an answer. -/
inductive Fault where
  /-- A sum, a difference or a product is not a value of its type. -/
  | overflow
  /-- A count of rows does not fit into the signed word of 32 bits that it is kept in. -/
  | counter
  /-- A divisor is zero. -/
  | division
  /-- An index, an end of a slice or a cursor lies outside of the data. -/
  | outside
  /-- What is copied does not have the length of the place for it. -/
  | mismatch
  /-- A loop does not end. -/
  | endless
  deriving DecidableEq, Repr

/-- A computation that may fault. -/
abbrev Checked := Except Fault

variable {α β : Type}

@[simp] theorem ok_bind (a : α) (f : α → Checked β) : ((.ok a : Checked α) >>= f) = f a := rfl

/-! ## Numbers -/

/-- A sum or a product of sizes. -/
def usize (n : Nat) : Checked Nat := if n < 2 ^ 64 then .ok n else .error .overflow

/-- A difference of sizes. -/
def minus (a b : Nat) : Checked Nat := if b ≤ a then .ok (a - b) else .error .overflow

def divide (a b : Nat) : Checked Nat := if b = 0 then .error .division else .ok (a / b)

def modulo (a b : Nat) : Checked Nat := if b = 0 then .error .division else .ok (a % b)

/-- A sum or a difference of signed sizes. -/
def isize (n : Int) : Checked Int :=
  if -2 ^ 63 ≤ n ∧ n < 2 ^ 63 then .ok n else .error .overflow

/-- A sum or a difference of signed words of 32 bits. -/
def i32 (n : Int) : Checked Int :=
  if -2 ^ 31 ≤ n ∧ n < 2 ^ 31 then .ok n else .error .overflow

/-- The number of places that a byte is shifted by. -/
def shift (n : Nat) : Checked Nat := if n < 8 then .ok n else .error .overflow

/-- A signed size taken for a size, and the other way round. Neither can fail, but the sign bit
is taken for a digit. -/
def asSize (n : Int) : Nat := (n % 2 ^ 64).toNat

def asSigned (n : Nat) : Int := if n < 2 ^ 63 then n else n - 2 ^ 64

def signedByte (b : UInt8) : Int := if b.toNat < 128 then b.toNat else b.toNat - 256

/-- A sum or a product of sizes that stays at the largest size. -/
def saturated (n : Nat) : Nat := min n (2 ^ 64 - 1)

theorem usize_ok {n : Nat} (h : n < 2 ^ 64) : usize n = .ok n := if_pos h

theorem minus_ok {a b : Nat} (h : b ≤ a) : minus a b = .ok (a - b) := if_pos h

theorem divide_ok {a b : Nat} (h : b ≠ 0) : divide a b = .ok (a / b) := if_neg h

theorem modulo_ok {a b : Nat} (h : b ≠ 0) : modulo a b = .ok (a % b) := if_neg h

theorem isize_ok {n : Int} (h : -2 ^ 63 ≤ n) (h' : n < 2 ^ 63) : isize n = .ok n := if_pos ⟨h, h'⟩

theorem i32_ok {n : Int} (h : -2 ^ 31 ≤ n) (h' : n < 2 ^ 31) : i32 n = .ok n := if_pos ⟨h, h'⟩

theorem shift_ok {n : Nat} (h : n < 8) : shift n = .ok n := if_pos h

theorem asSize_of_nonneg {n : Int} (h : 0 ≤ n) (h' : n < 2 ^ 64) : asSize n = n.toNat := by
  rw [asSize, Int.emod_eq_of_lt h h']

theorem asSigned_of_lt {n : Nat} (h : n < 2 ^ 63) : asSigned n = n := if_pos h

theorem one_sub_signedByte {b : UInt8} (h : ¬b.toNat < 128) :
    1 - signedByte b = ((257 - b.toNat : Nat) : Int) := by
  have hbound := b.toNat_lt
  rw [signedByte, if_neg h]
  omega

theorem saturated_of_lt {n : Nat} (h : n < 2 ^ 64) : saturated n = n :=
  Nat.min_eq_left (Nat.le_sub_one_of_lt h)

/-! ## Slices -/

def get (xs : List α) (i : Nat) : Checked α :=
  match xs[i]? with
  | some a => .ok a
  | none => .error .outside

/-- The samples from `p` up to `q`. -/
def slice (xs : List α) (p q : Nat) : Checked (List α) :=
  if p ≤ q ∧ q ≤ xs.length then .ok ((xs.take q).drop p) else .error .outside

/-- `xs` with `ys` copied to the place from `p` up to `q`. -/
def copy (xs : List α) (p q : Nat) (ys : List α) : Checked (List α) :=
  if p ≤ q ∧ q ≤ xs.length then
    if ys.length = q - p then .ok (overwrite xs p ys) else .error .mismatch
  else .error .outside

def put (xs : List α) (i : Nat) (a : α) : Checked (List α) :=
  if i < xs.length then .ok (overwrite xs i [a]) else .error .outside

theorem get_ok {xs : List α} {i : Nat} {a : α} (h : xs[i]? = some a) : get xs i = .ok a := by
  rw [get, h]

theorem slice_ok {xs : List α} {p q : Nat} (h : p ≤ q) (h' : q ≤ xs.length) :
    slice xs p q = .ok ((xs.take q).drop p) := if_pos ⟨h, h'⟩

theorem copy_ok {xs ys : List α} {p q : Nat} (h : p ≤ q) (h' : q ≤ xs.length)
    (hlength : ys.length = q - p) : copy xs p q ys = .ok (overwrite xs p ys) := by
  rw [copy, if_pos ⟨h, h'⟩, if_pos hlength]

theorem put_ok {xs : List α} {i : Nat} (h : i < xs.length) (a : α) :
    put xs i a = .ok (overwrite xs i [a]) := if_pos h

theorem overwrite_append_left {xs ys zs : List α} {p : Nat} (h : p + ys.length ≤ xs.length) :
    overwrite (xs ++ zs) p ys = overwrite xs p ys ++ zs := by
  have hall : ys.length ≤ xs.length - p := by omega
  have hmore : ys.length ≤ (xs ++ zs).length - p := by
    rw [List.length_append]
    omega
  simp only [overwrite, List.append_assoc, List.take_of_length_le hall,
    List.take_of_length_le hmore, List.take_append_of_le_length (show p ≤ xs.length by omega),
    List.drop_append_of_le_length h]

theorem overwrite_append_right {xs ys zs : List α} (p : Nat) :
    overwrite (xs ++ zs) (xs.length + p) ys = xs ++ overwrite zs p ys := by
  have hleft : (xs ++ zs).length - (xs.length + p) = zs.length - p := by
    rw [List.length_append]
    omega
  rw [overwrite, hleft, List.take_length_add_append, Nat.add_assoc, List.drop_length_add_append,
    List.append_assoc, overwrite]

theorem overwrite_front {xs ys : List α} (h : ys.length ≤ xs.length) :
    overwrite xs 0 ys = ys ++ xs.drop ys.length := by
  rw [overwrite, List.take_zero, List.nil_append, Nat.sub_zero, List.take_of_length_le h,
    Nat.zero_add]

theorem overwrite_all {xs ys : List α} (h : ys.length = xs.length) : overwrite xs 0 ys = ys := by
  rw [overwrite_front (Nat.le_of_eq h), h, List.drop_length, List.append_nil]

variable [OfNat α 0]

theorem take_fit {n : Nat} {xs : List α} (h : xs.length ≤ n) : (fit n xs).take xs.length = xs := by
  rw [fit, List.take_of_length_le h, List.take_left]

theorem overwrite_fit {n : Nat} {xs ys : List α} (h : xs.length + ys.length ≤ n) :
    overwrite (fit n xs) xs.length ys = fit n (xs ++ ys) := by
  have hplace : overwrite (List.replicate (n - xs.length) (0 : α)) 0 ys =
      ys ++ List.replicate (n - (xs.length + ys.length)) 0 := by
    have hall : ys.length ≤ (List.replicate (n - xs.length) (0 : α)).length - 0 := by
      rw [List.length_replicate]
      omega
    rw [overwrite, List.take_of_length_le hall, List.take_zero, List.nil_append,
      List.drop_replicate, Nat.zero_add, Nat.sub_sub]
  have hxs : fit n xs = xs ++ List.replicate (n - xs.length) 0 := by
    rw [fit, List.take_of_length_le (by omega)]
  have hboth : fit n (xs ++ ys) =
      xs ++ (ys ++ List.replicate (n - (xs.length + ys.length)) 0) := by
    rw [fit, List.length_append, List.take_of_length_le (by rw [List.length_append]; exact h),
      List.append_assoc]
  rw [hxs, hboth, ← hplace]
  exact overwrite_append_right 0

theorem overwrite_blank (n : Nat) (xs : List α) :
    overwrite (List.replicate n (0 : α)) 0 (xs.take n) = fit n xs := by
  have hroom : ([] : List α).length + (xs.take n).length ≤ n := by
    rw [List.length_nil, Nat.zero_add, List.length_take]
    exact Nat.min_le_left _ _
  have hover := overwrite_fit hroom
  rw [List.length_nil, List.nil_append, fit_nil] at hover
  rw [hover, fit_take]

/-- A buffer of which all that is behind `xs` is blanked. -/
theorem overwrite_behind (xs ys : List α) :
    overwrite (xs ++ ys) xs.length (List.replicate ys.length 0) =
      fit (xs.length + ys.length) xs := by
  have hright : overwrite (xs ++ ys) (xs.length + 0) (List.replicate ys.length 0) =
      xs ++ overwrite ys 0 (List.replicate ys.length 0) := overwrite_append_right 0
  rw [Nat.add_zero, overwrite_all List.length_replicate] at hright
  rw [hright, fit, List.take_of_length_le (Nat.le_add_right _ _), Nat.add_sub_cancel_left]

omit [OfNat α 0]

/-! ## Loops -/

/-- A loop of which every turn leads to another one or to the answer. That it ends within
`turns` turns is part of its being free of faults. -/
def loop (turn : α → Checked (α ⊕ β)) : (turns : Nat) → α → Checked β
  | 0, _ => .error .endless
  | turns + 1, a => do
    match ← turn a with
    | .inl a => loop turn turns a
    | .inr b => .ok b

/-- Where `P` holds a turn does not fault. It ends with an answer that is expected, or leads to
another turn that has less to do and of which no other answer is expected. -/
def Answers (turn : α → Checked (α ⊕ β)) (P : α → Prop) (μ : α → Nat) (expected : α → β → Prop) :
    Prop :=
  ∀ a, P a → (∃ b, turn a = .ok (.inr b) ∧ expected a b) ∨
    ∃ a', turn a = .ok (.inl a') ∧ P a' ∧ μ a' < μ a ∧ ∀ b, expected a' b → expected a b

/-- A loop whose turns have less and less to do ends, without a fault, as expected. -/
theorem Answers.loop_ok {turn : α → Checked (α ⊕ β)} {P : α → Prop} {μ : α → Nat}
    {expected : α → β → Prop} (h : Answers turn P μ expected) (turns : Nat) :
    ∀ {a : α}, P a → μ a < turns → ∃ b, loop turn turns a = .ok b ∧ expected a b := by
  induction turns with
  | zero => exact fun _ hlt => absurd hlt (Nat.not_lt_zero _)
  | succ turns ih =>
    intro a ha hlt
    rw [loop]
    rcases h a ha with ⟨b, hturn, hb⟩ | ⟨a', hturn, ha', hless, hsame⟩
    · rw [hturn, ok_bind]
      exact ⟨b, rfl, hb⟩
    · rw [hturn, ok_bind]
      obtain ⟨b, hloop, hb⟩ := ih ha' (by omega)
      exact ⟨b, hloop, hsame b hb⟩

end Pict.Machine
