import Mathlib.Data.List.GetD
import Mathlib.Data.List.Induction
import Pict.Proofs.Plane.Crop
import Pict.Proofs.Plane.Stopped

/-!
# The planes of the caller's decoder

The caller's decoder may answer any planes. Plane `i` is laid at `i` times its own length, over what
is there, as far as the output reaches, and the first plane that starts behind the end ends it all.
Planes of one length come to lie one behind the other. Between others there are gaps, or one covers
what another one gave, so that their bytes are those of the planes in a row for some lengths only.

Results:
* `laid_lay`: what every place of the output holds.
* `lay_aligned`: the lengths for which the output is the planes in a row, whatever is in them.
* `exists_not_in_row`: for all other lengths there are planes for which it is not.
* `readWith_laid`: both of what is read.
* `readWith_channels`: planes of one length are read in a row.
* `decoded_not_in_row`: planes of two lengths that are not.
-/
namespace Pict

theorem getElem?_overwrite {α : Type} {out : List α} {k : Nat} (hk : k < out.length) (p : Nat)
    (xs : List α) :
    (overwrite out p xs)[k]? = if p ≤ k ∧ k < p + xs.length then xs[k - p]? else out[k]? := by
  have htake : (out.take p).length = min p out.length := List.length_take
  rw [overwrite, List.getElem?_append, htake]
  split
  · rename_i hfront
    rw [if_neg (by omega), List.getElem?_take_of_lt (by omega)]
  · rename_i hbehind
    have hp : min p out.length = p := by omega
    rw [hp, List.getElem?_append, List.length_take]
    split
    · rw [if_pos (by omega), List.getElem?_take_of_lt (by omega)]
    · rw [if_neg (by omega), List.getElem?_drop]
      congr 1
      omega

theorem overwrite_end {α : Type} {out : List α} {p : Nat} (hp : out.length ≤ p) (xs : List α) :
    overwrite out p xs = out := by
  rw [overwrite, List.take_of_length_le hp, Nat.sub_eq_zero_of_le hp, List.take_zero,
    List.drop_of_length_le (by omega), List.nil_append, List.append_nil]

theorem overwrite_fit_end {α : Type} [OfNat α 0] (n : Nat) (xs ys : List α) :
    overwrite (fit n xs) xs.length ys = fit n (xs ++ ys) := by
  refine List.ext_getElem? fun k => ?_
  by_cases hk : k < n
  · rw [getElem?_overwrite (by rwa [length_fit]), fit_getElem? _ _ _ hk, fit_getElem? _ _ _ hk]
    split
    · rename_i hin
      rw [List.getElem?_append_right hin.1]
      obtain ⟨y, hy⟩ : ∃ y, ys[k - xs.length]? = some y :=
        ⟨_, List.getElem?_eq_getElem (by omega)⟩
      rw [hy]
      rfl
    · by_cases hfront : k < xs.length
      · rw [List.getElem?_append_left hfront]
      · rw [List.getElem?_eq_none (by omega),
          List.getElem?_eq_none (by rw [List.length_append]; omega)]
  · rw [List.getElem?_eq_none (by rw [length_overwrite, length_fit]; omega),
      List.getElem?_eq_none (by rw [length_fit]; omega)]

theorem fit_append_full {α : Type} [OfNat α 0] {n : Nat} {xs : List α} (h : n ≤ xs.length)
    (ys : List α) : fit n (xs ++ ys) = fit n xs := by
  rw [fit, fit, List.take_append_of_le_length h, List.length_append,
    Nat.sub_eq_zero_of_le (by omega), Nat.sub_eq_zero_of_le h]

namespace Fallback

/-! ## Where planes are laid -/

section
variable {lengths more : List Nat} {size i place : Nat}

/-- Where plane `i` is laid. -/
def start (lengths : List Nat) (i : Nat) : Nat := i * lengths.getD i 0

/-- No plane in front of plane `i` starts behind the end. -/
def Reached (lengths : List Nat) (size i : Nat) : Prop := ∀ j < i, start lengths j ≤ size

instance : Decidable (Reached lengths size i) :=
  inferInstanceAs (Decidable (∀ j < i, start lengths j ≤ size))

/-- Plane `i` is laid over the place. -/
structure Covers (lengths : List Nat) (size i place : Nat) : Prop where
  reached : Reached lengths size i
  starts : start lengths i ≤ place
  ends : place < start lengths i + lengths.getD i 0

/-- Every plane that is reached is empty, or laid where it comes in a row with those in front of it,
or neither here nor there within the output. -/
def Aligned (lengths : List Nat) (size : Nat) : Prop :=
  ∀ i, Reached lengths size i → lengths.getD i 0 = 0 ∨ start lengths i = (lengths.take i).sum ∨
    (size ≤ (lengths.take i).sum ∧ size ≤ start lengths i)

/-- Where a plane is laid does not depend on others, -/
theorem start_append (hi : i < lengths.length) : start (lengths ++ more) i = start lengths i := by
  rw [start, start, List.getD_append _ _ _ _ hi]

/-- whether it is reached on none behind it. -/
theorem reached_append (hi : i ≤ lengths.length) :
    Reached (lengths ++ more) size i ↔ Reached lengths size i :=
  forall₂_congr fun j hj => by rw [start_append (show j < lengths.length by omega)]

theorem covers_append (hi : i < lengths.length) :
    Covers (lengths ++ more) size i place ↔ Covers lengths size i place := by
  constructor
  · rintro ⟨hreached, hstarts, hends⟩
    rw [start_append hi] at hstarts hends
    rw [List.getD_append _ _ _ _ hi] at hends
    exact ⟨(reached_append (Nat.le_of_lt hi)).mp hreached, hstarts, hends⟩
  · rintro ⟨hreached, hstarts, hends⟩
    refine ⟨(reached_append (Nat.le_of_lt hi)).mpr hreached, ?_, ?_⟩
    · rwa [start_append hi]
    · rwa [start_append hi, List.getD_append _ _ _ _ hi]

theorem Covers.lt_length (h : Covers lengths size i place) : i < lengths.length := by
  by_contra hlast
  have hends := h.ends
  have hstarts := h.starts
  rw [List.getD_eq_default _ _ (Nat.le_of_not_lt hlast)] at hends
  omega

theorem getD_concat (lengths : List Nat) (length : Nat) :
    (lengths ++ [length]).getD lengths.length 0 = length := by
  rw [List.getD_append_right _ _ _ _ (Nat.le_refl _), Nat.sub_self]
  rfl

theorem start_concat (lengths : List Nat) (length : Nat) :
    start (lengths ++ [length]) lengths.length = lengths.length * length := by
  rw [start, getD_concat]

theorem covers_concat {length : Nat} : Covers (lengths ++ [length]) size i place ↔
    Covers lengths size i place ∨ (i = lengths.length ∧ Reached lengths size lengths.length ∧
      lengths.length * length ≤ place ∧ place < lengths.length * length + length) := by
  constructor
  · intro h
    have hlast : i < lengths.length + 1 := by
      simpa only [List.length_append, List.length_singleton] using h.lt_length
    by_cases hi : i < lengths.length
    · exact Or.inl ((covers_append hi).mp h)
    · obtain rfl : i = lengths.length := by omega
      have hstarts := h.starts
      have hends := h.ends
      rw [start_concat] at hstarts hends
      rw [getD_concat] at hends
      exact Or.inr ⟨rfl, (reached_append (Nat.le_refl _)).mp h.reached, hstarts, hends⟩
  · rintro (h | ⟨rfl, hreached, hstarts, hends⟩)
    · exact (covers_append h.lt_length).mpr h
    · refine ⟨(reached_append (Nat.le_refl _)).mpr hreached, ?_, ?_⟩
      · rwa [start_concat]
      · rwa [start_concat, getD_concat]

theorem Aligned.front (h : Aligned (lengths ++ more) size) : Aligned lengths size := by
  intro i hreached
  by_cases hi : i < lengths.length
  · have hplane := h i ((reached_append (Nat.le_of_lt hi)).mpr hreached)
    rwa [start_append hi, List.getD_append _ _ _ _ hi,
      List.take_append_of_le_length (Nat.le_of_lt hi)] at hplane
  · exact Or.inl (List.getD_eq_default _ _ (Nat.le_of_not_lt hi))

/-- In front of an aligned plane that is not reached the output is full. -/
theorem Aligned.full (h : Aligned lengths size)
    (hnot : ¬ Reached lengths size lengths.length) : size ≤ lengths.sum := by
  obtain ⟨j, hbehind, hfirst⟩ : ∃ j, size < start lengths j ∧ Reached lengths size j := by
    by_contra hnone
    refine hnot fun j _ => ?_
    induction j using Nat.strongRecOn with
    | ind j ih =>
      by_contra hstart
      exact hnone ⟨j, Nat.lt_of_not_le hstart, fun k hk => ih k hk (by omega)⟩
  have hsum : (lengths.take j).sum ≤ lengths.sum := by
    conv_rhs => rw [← List.take_append_drop j lengths, List.sum_append]
    exact Nat.le_add_right _ _
  rcases h j hfirst with hempty | hrow | ⟨hfull, -⟩
  · rw [start, hempty, Nat.mul_zero] at hbehind
    exact absurd hbehind (Nat.not_lt_zero _)
  · omega
  · omega

theorem aligned_replicate (count length size : Nat) :
    Aligned (List.replicate count length) size := by
  intro i _
  by_cases hi : i < count
  · refine Or.inr (Or.inl ?_)
    rw [start, List.getD_replicate _ hi, List.take_replicate, List.sum_replicate_nat,
      Nat.min_eq_left (Nat.le_of_lt hi)]
  · exact Or.inl (List.getD_eq_default _ _ (by rw [List.length_replicate]; omega))

end

/-! ## Laying planes -/

variable {planes xs ys : List (List UInt8)} {size : Nat} {out : List UInt8}

theorem lay_append (xs ys : List (List UInt8)) (i : Nat) (out : List UInt8) :
    lay (xs ++ ys) i out =
      if ∀ j < xs.length, (i + j) * (xs.map List.length).getD j 0 ≤ out.length then
        lay ys (i + xs.length) (lay xs i out)
      else lay xs i out := by
  induction xs generalizing i out with
  | nil =>
    rw [if_pos nofun]
    rfl
  | cons x xs ih =>
    rw [List.cons_append, lay, lay]
    by_cases hbehind : out.length < i * x.length
    · rw [if_pos hbehind, if_pos hbehind, if_neg]
      intro hreached
      exact absurd (hreached 0 (by rw [List.length_cons]; omega)) (Nat.not_le.mpr hbehind)
    · rw [if_neg hbehind, if_neg hbehind, ih, length_overwrite]
      refine if_congr ?_ ?_ rfl
      · rw [List.length_cons, Nat.forall_lt_succ_left]
        constructor
        · intro hreached
          refine ⟨Nat.le_of_not_lt hbehind, fun j hj => ?_⟩
          have hnext := hreached j hj
          rwa [Nat.add_assoc, Nat.add_comm 1 j] at hnext
        · rintro ⟨-, hreached⟩ j hj
          have hnext := hreached j hj
          rwa [Nat.add_assoc, Nat.add_comm 1 j]
      · rw [List.length_cons, Nat.add_assoc, Nat.add_comm 1]

theorem lay_concat (xs : List (List UInt8)) (x out : List UInt8) :
    lay (xs ++ [x]) 0 out =
      if Reached (xs.map List.length) out.length xs.length then
        overwrite (lay xs 0 out) (xs.length * x.length) x
      else lay xs 0 out := by
  rw [lay_append]
  refine if_congr ?_ ?_ rfl
  · exact forall₂_congr fun j _ => by rw [Nat.zero_add, start]
  rw [Nat.zero_add, lay, lay, length_lay]
  split
  · rename_i hbehind
    rw [overwrite_end (by rw [length_lay]; exact Nat.le_of_lt hbehind)]
  · rfl

/-- What the output holds when the planes are laid over zeros: in every place what the last plane
that is laid over it gave. -/
structure Laid (planes : List (List UInt8)) (size : Nat) (out : List UInt8) : Prop where
  length : out.length = size
  covered : ∀ {i place : Nat}, place < size → Covers (planes.map List.length) size i place →
    (∀ j > i, ¬ Covers (planes.map List.length) size j place) →
      out[place]? = (planes.getD i [])[place - start (planes.map List.length) i]?
  black : ∀ {place : Nat}, place < size →
    (∀ i, ¬ Covers (planes.map List.length) size i place) → out[place]? = some 0

/-- A plane that is reached is laid over what is there, -/
theorem Laid.concat (h : Laid xs size out)
    (hreached : Reached (xs.map List.length) size xs.length) (x : List UInt8) :
    Laid (xs ++ [x]) size (overwrite out (xs.length * x.length) x) := by
  have hlengths : (xs ++ [x]).map List.length = xs.map List.length ++ [x.length] := List.map_append
  have hcount : (xs.map List.length).length = xs.length := List.length_map _
  -- what the new plane does not cover is as it was
  have hkeep : ∀ place, place < size →
      ¬ Covers (xs.map List.length ++ [x.length]) size xs.length place →
        (overwrite out (xs.length * x.length) x)[place]? = out[place]? := by
    intro place hplace hnot
    rw [getElem?_overwrite (by rwa [h.length]), if_neg]
    rintro ⟨hstarts, hends⟩
    exact hnot (covers_concat.mpr (Or.inr (by rw [hcount]; exact ⟨rfl, hreached, hstarts, hends⟩)))
  refine ⟨by rw [length_overwrite, h.length], ?_, ?_⟩
  · intro i place hplace hcovers hlast
    rw [hlengths] at hcovers hlast ⊢
    rcases covers_concat.mp hcovers with hold | ⟨rfl, -, hstarts, hends⟩
    · have hi : i < xs.length := hcount ▸ hold.lt_length
      have hnone : ∀ j > i, ¬ Covers (xs.map List.length) size j place :=
        fun j hj hcover => hlast j hj (covers_concat.mpr (Or.inl hcover))
      rw [hkeep place hplace (hlast _ hi), h.covered hplace hold hnone,
        start_append hold.lt_length, List.getD_append _ _ _ _ hi]
    · rw [start_concat, hcount] at *
      rw [getElem?_overwrite (by rwa [h.length]), if_pos ⟨hstarts, hends⟩,
        List.getD_append_right _ _ _ _ (Nat.le_refl _), Nat.sub_self]
      rfl
  · intro place hplace hnone
    rw [hlengths] at hnone
    rw [hkeep place hplace (hnone _)]
    exact h.black hplace fun i hcover => hnone i (covers_concat.mpr (Or.inl hcover))

/-- and one that is not reached changes nothing. -/
theorem Laid.stopped (h : Laid xs size out)
    (hnot : ¬ Reached (xs.map List.length) size xs.length) (x : List UInt8) :
    Laid (xs ++ [x]) size out := by
  have hlengths : (xs ++ [x]).map List.length = xs.map List.length ++ [x.length] := List.map_append
  have hsame : ∀ i place, Covers (xs.map List.length ++ [x.length]) size i place ↔
      Covers (xs.map List.length) size i place := by
    intro i place
    rw [covers_concat, List.length_map]
    exact or_iff_left fun hlast => hnot hlast.2.1
  refine ⟨h.length, ?_, ?_⟩
  · intro i place hplace hcovers hlast
    rw [hlengths] at hcovers hlast ⊢
    have hold := (hsame i place).mp hcovers
    have hi : i < xs.length := by simpa using hold.lt_length
    rw [h.covered hplace hold fun j hj hcover => hlast j hj ((hsame j place).mpr hcover),
      start_append hold.lt_length, List.getD_append _ _ _ _ hi]
  · intro place hplace hnone
    rw [hlengths] at hnone
    exact h.black hplace fun i hcover => hnone i ((hsame i place).mpr hcover)

/-- So all planes are laid. -/
theorem laid_lay (planes : List (List UInt8)) (size : Nat) :
    Laid planes size (lay planes 0 (List.replicate size 0)) := by
  induction planes using List.reverseRecOn with
  | nil =>
    refine ⟨List.length_replicate, ?_, ?_⟩
    · intro i place _ hcovers
      exact absurd hcovers.lt_length (Nat.not_lt_zero i)
    · intro place hplace _
      exact List.getElem?_replicate_of_lt hplace
  | append_singleton xs x ih =>
    rw [lay_concat, List.length_replicate]
    split
    · rename_i hreached
      exact ih.concat hreached x
    · rename_i hnot
      exact ih.stopped hnot x

/-! ## Planes in a row -/

/-- Aligned planes are laid in a row, whatever is in them. -/
theorem lay_aligned (planes : List (List UInt8)) (size : Nat)
    (h : Aligned (planes.map List.length) size) :
    lay planes 0 (List.replicate size 0) = fit size planes.flatten := by
  induction planes using List.reverseRecOn with
  | nil => exact (fit_nil size).symm
  | append_singleton xs x ih =>
    have hcount : (xs.map List.length).length = xs.length := List.length_map _
    rw [List.map_append, List.map_singleton] at h
    rw [lay_concat, List.length_replicate, ih h.front, List.flatten_append, List.flatten_singleton]
    split
    · rename_i hreached
      rw [← hcount] at hreached ⊢
      have hplane := h _ ((reached_append (Nat.le_refl _)).mpr hreached)
      rw [getD_concat, start_concat, List.take_left, ← List.length_flatten] at hplane
      rcases hplane with hempty | hrow | ⟨hfull, hbehind⟩
      · obtain rfl := List.eq_nil_of_length_eq_zero hempty
        rw [List.append_nil, overwrite, List.take_nil, List.nil_append, List.length_nil,
          Nat.add_zero, List.take_append_drop]
      · rw [hrow]
        exact overwrite_fit_end size xs.flatten x
      · rw [fit_append_full hfull, overwrite_end (by rwa [length_fit])]
    · rename_i hnot
      rw [← hcount] at hnot
      have hfull := h.front.full hnot
      rw [← List.length_flatten] at hfull
      exact (fit_append_full hfull x).symm

/-- A byte stays where all planes that are laid over it give the same. -/
theorem getElem?_lay_same {b : UInt8} {k : Nat} (i : Nat)
    (hall : ∀ plane ∈ planes, ∀ x ∈ plane, x = b) (hk : out[k]? = some b) :
    (lay planes i out)[k]? = some b := by
  induction planes generalizing i out with
  | nil => exact hk
  | cons plane rest ih =>
    have hlt : k < out.length := (List.getElem?_eq_some_iff.mp hk).1
    rw [lay]
    split
    · exact hk
    · refine ih (i + 1) (fun p hp => hall p (List.mem_cons_of_mem _ hp)) ?_
      rw [getElem?_overwrite hlt]
      split
      · rename_i hin
        have hplace : k - i * plane.length < plane.length := by omega
        rw [List.getElem?_eq_getElem hplace,
          hall plane List.mem_cons_self _ (List.getElem_mem hplace)]
      · exact hk

theorem lay_zeros (i size : Nat) (hall : ∀ plane ∈ planes, ∀ x ∈ plane, x = 0) :
    lay planes i (List.replicate size 0) = List.replicate size 0 := by
  refine List.ext_getElem? fun k => ?_
  by_cases hk : k < size
  · rw [List.getElem?_replicate_of_lt hk]
    exact getElem?_lay_same i hall (List.getElem?_replicate_of_lt hk)
  · rw [List.getElem?_eq_none (by rw [length_lay, List.length_replicate]; omega),
      List.getElem?_eq_none (by rw [List.length_replicate]; omega)]

/-- Planes of the lengths, with ones in plane `i`, zeros in front of it and `b` behind it. -/
def marked (lengths : List Nat) (i : Nat) (b : UInt8) : List (List UInt8) :=
  (lengths.take i).map (List.replicate · 0) ++
    List.replicate (lengths.getD i 0) 1 :: (lengths.drop (i + 1)).map (List.replicate · b)

section
variable {lengths : List Nat} {i : Nat} {b : UInt8}

theorem mem_constant {xs : List Nat} :
    ∀ plane ∈ xs.map (List.replicate · b), ∀ x ∈ plane, x = b := by
  intro plane hplane x hx
  obtain ⟨n, -, rfl⟩ := List.mem_map.mp hplane
  exact List.eq_of_mem_replicate hx

theorem lengths_constant (xs : List Nat) :
    (xs.map (List.replicate · b)).map List.length = xs := by
  rw [List.map_map]
  exact (List.map_congr_left fun n _ => List.length_replicate).trans (List.map_id _)

theorem lengths_marked (hi : i < lengths.length) :
    (marked lengths i b).map List.length = lengths := by
  rw [marked, List.map_append, List.map_cons, lengths_constant, lengths_constant,
    List.length_replicate, List.getD_eq_getElem _ _ hi, List.getElem_cons_drop,
    List.take_append_drop]

theorem flatten_marked (lengths : List Nat) (i : Nat) (b : UInt8) :
    (marked lengths i b).flatten = List.replicate (lengths.take i).sum 0 ++
      (List.replicate (lengths.getD i 0) 1 ++
        ((lengths.drop (i + 1)).map (List.replicate · b)).flatten) := by
  have hfront : ((lengths.take i).map (List.replicate · (0 : UInt8))).flatten =
      List.replicate (lengths.take i).sum 0 := by
    refine List.eq_replicate_iff.mpr ⟨?_, fun x hx => ?_⟩
    · rw [List.length_flatten, lengths_constant]
    · obtain ⟨plane, hplane, hx⟩ := List.mem_flatten.mp hx
      exact mem_constant plane hplane x hx
  rw [marked, List.flatten_append, hfront, List.flatten_cons]

theorem lay_marked (hi : i < lengths.length) (hreached : Reached lengths size i) :
    lay (marked lengths i b) 0 (List.replicate size 0) =
      lay (List.replicate (lengths.getD i 0) 1 :: (lengths.drop (i + 1)).map (List.replicate · b)) i
        (List.replicate size 0) := by
  have hcount : ((lengths.take i).map (List.replicate · (0 : UInt8))).length = i := by
    rw [List.length_map, List.length_take, Nat.min_eq_left (Nat.le_of_lt hi)]
  rw [marked, lay_append, lay_zeros 0 size mem_constant, hcount, Nat.zero_add, if_pos]
  intro j hj
  have hfront : (lengths.take i).getD j 0 = lengths.getD j 0 := by
    rw [List.getD_eq_getElem?_getD, List.getElem?_take_of_lt hj, ← List.getD_eq_getElem?_getD]
  rw [lengths_constant, hfront, Nat.zero_add, List.length_replicate]
  exact hreached j hj

/-- A place of which the ones and all that is behind them give `b` holds it. -/
theorem getElem?_lay_marked {k : Nat} (hi : i < lengths.length)
    (hreached : Reached lengths size i) (hk : k < size)
    (hb : b = if start lengths i ≤ k ∧ k < start lengths i + lengths.getD i 0 then 1 else 0) :
    (lay (marked lengths i b) 0 (List.replicate size 0))[k]? = some b := by
  have hblank : (List.replicate size (0 : UInt8))[k]? = some 0 := List.getElem?_replicate_of_lt hk
  rw [lay_marked hi hreached, lay, List.length_replicate, List.length_replicate, ← start]
  split
  · rw [hb, if_neg (by omega)]
    exact hblank
  · refine getElem?_lay_same _ mem_constant ?_
    rw [getElem?_overwrite (by rwa [List.length_replicate]), List.length_replicate, hb]
    split
    · exact List.getElem?_replicate_of_lt (by omega)
    · exact hblank

/-- For lengths that are not aligned there are planes that are not laid in a row. -/
theorem exists_not_in_row (hnot : ¬ Aligned lengths size) :
    ∃ planes, planes.map List.length = lengths ∧
      lay planes 0 (List.replicate size 0) ≠ fit size planes.flatten := by
  obtain ⟨i, hplane⟩ := not_forall.mp hnot
  obtain ⟨hreached, hplane⟩ := Classical.not_imp.mp hplane
  obtain ⟨hlength, hplane⟩ := not_or.mp hplane
  obtain ⟨hrow, hwithin⟩ := not_or.mp hplane
  have hi : i < lengths.length := by
    by_contra hlast
    exact hlength (List.getD_eq_default _ _ (Nat.le_of_not_lt hlast))
  rcases Nat.lt_or_gt_of_ne hrow with hearly | hlate
  · -- the ones cover zeros of the planes in front
    refine ⟨marked lengths i 1, lengths_marked hi, fun hsame => ?_⟩
    have hplace : start lengths i < size := by omega
    have hlaid := getElem?_lay_marked hi hreached hplace (if_pos (by omega)).symm
    rw [hsame, fit_getElem? _ _ _ hplace, flatten_marked,
      List.getElem?_append_left (by rwa [List.length_replicate]),
      List.getElem?_replicate_of_lt hearly] at hlaid
    cases hlaid
  · -- the ones leave a gap behind the planes in front
    refine ⟨marked lengths i 0, lengths_marked hi, fun hsame => ?_⟩
    have hplace : (lengths.take i).sum < size := by omega
    have hlaid := getElem?_lay_marked hi hreached hplace (if_neg (by omega)).symm
    rw [hsame, fit_getElem? _ _ _ hplace, flatten_marked,
      List.getElem?_append_right (by rw [List.length_replicate]), List.length_replicate,
      Nat.sub_self, List.getElem?_append_left (by rw [List.length_replicate]; omega),
      List.getElem?_replicate_of_lt (by omega)] at hlaid
    cases hlaid

end

end Fallback

/-! ## Reading -/

namespace Document

variable {doc : Document} {win : Window} {legacy : Bool}

/-- The bytes that the caller's decoder is asked for. -/
def fallbackSize (doc : Document) (win : Window) : Nat :=
  win.pixels * (doc.picture.layoutOf .fallback).bytesPerPixel

section
variable (hfallback : doc.picture.assembly legacy = .fallback)
  (hfits : win.fits doc.picture.width doc.picture.height = true)
  (hmemory : Limits.allows doc.limits.memory (doc.fallbackSize win))
include hfallback hfits hmemory

/-- Whatever the stop and the codec are, what is read is what is laid. -/
theorem readWith_lay (codec : Codec) (fallback : Option FallbackDecoder) (stop : Stop) :
    (doc.readWith codec ⟨win, legacy, fallback⟩ stop).report.result =
      .ok (doc.planeOf ⟨win, legacy, fallback⟩ (Fallback.lay ((doc.answer fallback).getD []) 0
        (List.replicate (doc.fallbackSize win) 0))) := by
  have hsize : (doc.planOf ⟨win, legacy, fallback⟩).size = doc.fallbackSize win := by
    show win.pixels * (doc.picture.layoutOf (doc.picture.assembly legacy)).bytesPerPixel = _
    rw [hfallback]
    rfl
  have hroom : Limits.allows doc.limits.memory (doc.planOf ⟨win, legacy, fallback⟩).size := by
    rwa [hsize]
  have hnever : doc.readWith codec ⟨win, legacy, fallback⟩ stop =
      doc.readWith codec ⟨win, legacy, fallback⟩ .never := by
    have hnone : doc.checksOf ⟨win, legacy, fallback⟩ = 0 := by
      show (Picture.rowsOf (doc.picture.assembly legacy) win + 15) / 16 = 0
      rw [hfallback, show Picture.rowsOf .fallback win = 0 from rfl]
    cases stop with
    | never => rfl
    | after n reason =>
      exact (readWith_stopped hfits hroom codec n reason).1 (hnone ▸ Nat.zero_le n)
  rw [hnever, readWith_eq_ok]
  refine ⟨hfits, hroom, _, ?_, rfl⟩
  simp only [painted, hfallback, hsize]

/-- Planes that the caller's decoder answers are read as they are laid, plane `i` at `i` times its
own length: every byte is that of the last plane over it. For some lengths that is the planes in a
row, whatever is in them, and for all other lengths it is not. -/
theorem readWith_laid :
    (∀ codec fallback stop, ∃ out,
      (doc.readWith codec ⟨win, legacy, fallback⟩ stop).report.result =
        .ok (doc.planeOf ⟨win, legacy, fallback⟩ out) ∧
      Fallback.Laid ((doc.answer fallback).getD []) (doc.fallbackSize win) out) ∧
    ∀ lengths,
      (∀ codec fallback stop planes, doc.answer fallback = some planes →
        planes.map List.length = lengths →
          (doc.readWith codec ⟨win, legacy, fallback⟩ stop).report.result =
            .ok (doc.planeOf ⟨win, legacy, fallback⟩
              (fit (doc.fallbackSize win) planes.flatten))) ↔
        Fallback.Aligned lengths (doc.fallbackSize win) := by
  have hread := readWith_lay hfallback hfits hmemory
  refine ⟨fun codec fallback stop =>
    ⟨_, hread codec fallback stop, Fallback.laid_lay _ _⟩, fun lengths => ⟨fun hall => ?_, ?_⟩⟩
  · by_contra hnot
    obtain ⟨planes, hlengths, hother⟩ := Fallback.exists_not_in_row hnot
    have hrow := hall (fun _ => none) (some fun _ => some planes) .never planes rfl hlengths
    rw [hread] at hrow
    exact hother (congrArg Plane.pixels (Except.ok.inj hrow))
  · rintro haligned codec fallback stop planes hanswer rfl
    rw [hread, hanswer, Option.getD_some, Fallback.lay_aligned planes _ haligned]

end

/-- Channels of one length are read in a row. -/
theorem readWith_channels (hfallback : doc.picture.assembly legacy = .fallback)
    (hfits : win.fits doc.picture.width doc.picture.height = true)
    (hmemory : Limits.allows doc.limits.memory (doc.fallbackSize win)) (codec : Codec) (stop : Stop)
    {fallback : Option FallbackDecoder} {planes : List (List UInt8)} {length : Nat}
    (hanswer : doc.answer fallback = some planes)
    (hlength : ∀ plane ∈ planes, plane.length = length) :
    (doc.readWith codec ⟨win, legacy, fallback⟩ stop).report.result =
      .ok (doc.planeOf ⟨win, legacy, fallback⟩ (fit (doc.fallbackSize win) planes.flatten)) := by
  have hsame : planes.map List.length = List.replicate planes.length length :=
    (List.map_congr_left hlength).trans List.map_const'
  rw [readWith_lay hfallback hfits hmemory, hanswer, Option.getD_some, Fallback.lay_aligned]
  rw [hsame]
  exact Fallback.aligned_replicate _ _ _

def blankDocument : Document := ⟨blankPicture, .unlimited, Picture.start Decode.sampleHeader.info⟩

/-- Two planes of one byte are read in a row. The same byte in front of a plane of two is read with
a gap, as the second plane starts at the end of the output. -/
theorem readWith_blankDocument :
    (∀ stop, (blankDocument.readWith (fun _ => none) ⟨⟨0, 0, 2, 1⟩, false,
      some fun _ => some [[1], [2]]⟩ stop).report.result = .ok ⟨[1, 2], 2, 1, .gray8, true⟩) ∧
    (blankDocument.readWith (fun _ => none) ⟨⟨0, 0, 2, 1⟩, false,
      some fun _ => some [[1], [2, 3]]⟩ .never).report.result = .ok ⟨[1, 0], 2, 1, .gray8, true⟩ ∧
    ¬ Fallback.Aligned [1, 2] 2 := by
  have hfallback : blankDocument.picture.assembly false = .fallback := rfl
  have hfits : (Window.mk 0 0 2 1).fits blankDocument.picture.width blankDocument.picture.height =
      true := rfl
  have hlaid := readWith_laid hfallback hfits nofun
  have heven : Fallback.Aligned [1, 1] (blankDocument.fallbackSize ⟨0, 0, 2, 1⟩) :=
    Fallback.aligned_replicate 2 1 _
  refine ⟨fun stop => (hlaid.2 [1, 1]).mpr heven _ _ stop [[1], [2]] rfl rfl, rfl, fun h => ?_⟩
  rcases h 1 (by decide) with h | h | ⟨h, -⟩ <;> revert h <;> decide

/-- Not all planes are read in a row. -/
theorem decoded_not_in_row :
    ¬ ∀ (source : Source) (limits : Limits) (stop stop' : Stop) (doc : Document) (codec : Codec)
        (win : Window) (legacy : Bool) (fallback : Option FallbackDecoder)
        (planes : List (List UInt8)),
      (decode source limits stop).result = .ok doc →
      doc.picture.assembly legacy = .fallback →
      win.fits doc.picture.width doc.picture.height = true →
      Limits.allows doc.limits.memory (doc.fallbackSize win) →
      doc.answer fallback = some planes →
      (doc.readWith codec ⟨win, legacy, fallback⟩ stop').report.result =
        .ok (doc.planeOf ⟨win, legacy, fallback⟩ (fit (doc.fallbackSize win) planes.flatten)) := by
  intro hall
  have hrow := hall blankPicture .unlimited .never .never blankDocument (fun _ => none)
    ⟨0, 0, 2, 1⟩ false (some fun _ => some [[1], [2, 3]]) [[1], [2, 3]] decode_blankPicture rfl rfl
    nofun rfl
  have hgap : (blankDocument.readWith (fun _ => none) ⟨⟨0, 0, 2, 1⟩, false,
      some fun _ => some [[1], [2, 3]]⟩ .never).report.result =
        .ok ⟨[1, 0], 2, 1, .gray8, true⟩ := by rfl
  rw [hgap] at hrow
  exact absurd (congrArg Plane.pixels (Except.ok.inj hrow)) (by decide)

end Document
end Pict
