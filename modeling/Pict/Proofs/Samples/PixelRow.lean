import Mathlib.Data.Nat.Digits.Defs
import Pict.Samples.Depth
import Pict.Samples.Fit

/-!
# Rows of pixels of less than a byte

A row of bytes holds some samples of `depth` bits (`Holds`) when they are the
first of those that its bytes consist of, high bits first. What stands behind
the last one, in the same byte and in the bytes that follow, may be anything.

Results:
* `tableSamples_eq`, `maskedSamples_eq`: the table and the moving mask both take
  a byte apart into its samples.
* `expandInto_eq_ok`, `expandOver_eq`: what a row of pixels is expanded to, over what stood in its
  place.
* `expandRow_holds`: a row expands to the samples that it holds.
* `lt_of_mem_expandRow`: whatever a row holds, its samples have no more bits than they should.
* `holds_packRow`: any samples of `depth` bits are held by some row that is long
  enough.
-/
namespace Pict.Depth

/-- Sample `i` of a byte, counted from the high bits. -/
def sampleOf (depth : Nat) (b : UInt8) (i : Nat) : UInt8 :=
  UInt8.ofNat ((b.toNat >>> (8 - depth - i * depth)) % 2 ^ depth)

theorem bits_lt (b : UInt8) (shift depth : Nat) : (b.toNat >>> shift) % 2 ^ depth < 256 := by
  have hle : b.toNat >>> shift ≤ b.toNat := Nat.shiftRight_le _ _
  have := Nat.mod_le (b.toNat >>> shift) (2 ^ depth)
  have := b.toNat_lt
  omega

theorem toNat_sampleOf (depth : Nat) (b : UInt8) (i : Nat) :
    (sampleOf depth b i).toNat = (b.toNat >>> (8 - depth - i * depth)) % 2 ^ depth := by
  rw [sampleOf, UInt8.toNat_ofNat', Nat.mod_eq_of_lt (bits_lt b _ depth)]

def samplesOf (depth : Nat) (b : UInt8) : List UInt8 :=
  (List.range (8 / depth)).map (sampleOf depth b)

/-- The bytes of a row hold the samples in order. -/
def Holds (depth : Nat) (row samples : List UInt8) : Prop :=
  samples <+: row.flatMap (samplesOf depth)

instance (depth : Nat) (row samples : List UInt8) : Decidable (Holds depth row samples) :=
  inferInstanceAs (Decidable (_ <+: _))

@[simp] theorem length_samplesOf (depth : Nat) (b : UInt8) :
    (samplesOf depth b).length = 8 / depth := by
  simp [samplesOf]

theorem samplesOf_eight (b : UInt8) : samplesOf 8 b = [b] := by
  have h : sampleOf 8 b 0 = b := by
    apply UInt8.toNat_inj.mp
    have hshift : 8 - 8 - 0 * 8 = 0 := rfl
    rw [toNat_sampleOf, hshift, Nat.shiftRight_zero, Nat.mod_eq_of_lt b.toNat_lt]
  show [sampleOf 8 b 0] = [b]
  rw [h]

theorem holds_eight {row samples : List UInt8} : Holds 8 row samples ↔ samples <+: row := by
  have : row.flatMap (samplesOf 8) = row := by
    simp [funext samplesOf_eight]
  rw [Holds, this]

/-! ## A byte taken apart -/

theorem getD_bitTable {k : Nat} (h : k < 2048) : bitTable.getD k 0 = bitEntry k := by
  rw [bitTable, Array.getD_eq_getD_getElem?, List.getElem?_toArray, List.getElem?_map,
    List.getElem?_range h, Option.map_some, Option.getD_some]

/-- The eight entries of the table for a byte are its bits. -/
theorem tableSamples_eq (b : UInt8) : tableSamples b = samplesOf 1 b := by
  have hb := b.toNat_lt
  unfold tableSamples samplesOf
  refine List.map_congr_left fun i hi => ?_
  have hi : i < 8 := List.mem_range.mp hi
  have hindex : b.toNat * 8 + i < 2048 := by omega
  have hdiv : (b.toNat * 8 + i) / 8 = b.toNat := by omega
  have hmod : (b.toNat * 8 + i) % 8 = i := by omega
  have hshift : 8 - 1 - i * 1 = 7 - i := by omega
  rw [getD_bitTable hindex, bitEntry, sampleOf, hdiv, hmod, hshift, Nat.pow_one]

theorem masked_eq {depth shift : Nat} {b mask : UInt8} (hs : shift < 8)
    (hm : mask.toNat = (2 ^ depth - 1) <<< shift) :
    (b &&& mask) >>> UInt8.ofNat shift = UInt8.ofNat ((b.toNat >>> shift) % 2 ^ depth) := by
  have hmask : (2 ^ depth - 1) <<< shift >>> shift = 2 ^ depth - 1 :=
    Nat.shiftLeft_shiftRight _ _
  have hshift : (UInt8.ofNat shift).toNat % 8 = shift := by
    rw [UInt8.toNat_ofNat']
    omega
  apply UInt8.toNat_inj.mp
  rw [UInt8.toNat_shiftRight, UInt8.toNat_and, hshift, hm, Nat.shiftRight_and_distrib, hmask,
    Nat.and_two_pow_sub_one_eq_mod, UInt8.toNat_ofNat', Nat.mod_eq_of_lt (bits_lt b shift depth)]

theorem maskedFrom_eq {depth : Nat} (hd : 0 < depth) (b : UInt8) (left : Nat) :
    ∀ (mask : UInt8) (shift : Nat), shift + depth ≤ 8 → left * depth ≤ shift + depth →
      mask.toNat = (2 ^ depth - 1) <<< shift →
      maskedFrom depth b left mask shift =
        (List.range left).map fun i =>
          UInt8.ofNat ((b.toNat >>> (shift - i * depth)) % 2 ^ depth) := by
  induction left with
  | zero => exact fun _ _ _ _ _ => rfl
  | succ left ih =>
    intro mask shift hs hl hm
    have hhead := masked_eq (b := b) (by omega : shift < 8) hm
    rw [maskedFrom, hhead, List.range_succ_eq_map, List.map_cons, List.map_map]
    simp only [Nat.zero_mul, Nat.sub_zero, List.cons.injEq, true_and]
    cases left with
    | zero => rfl
    | succ left =>
      have hle : depth ≤ shift := by
        have : depth ≤ (left + 1) * depth := Nat.le_mul_of_pos_left _ (Nat.succ_pos _)
        rw [Nat.succ_mul] at hl
        omega
      have hshift : (UInt8.ofNat depth).toNat % 8 = depth := by
        rw [UInt8.toNat_ofNat']
        omega
      have hmask : (mask >>> UInt8.ofNat depth).toNat = (2 ^ depth - 1) <<< (shift - depth) := by
        rw [UInt8.toNat_shiftRight, hshift, hm]
        nth_rewrite 1 [← Nat.sub_add_cancel hle]
        rw [Nat.shiftLeft_add, Nat.shiftLeft_shiftRight]
      have hleft : (left + 1) * depth ≤ shift - depth + depth := by
        rw [Nat.succ_mul (left + 1)] at hl
        omega
      rw [ih _ (shift - depth) (by omega) hleft hmask]
      refine List.map_congr_left fun i _ => ?_
      have : shift - depth - i * depth = shift - (i + 1) * depth := by
        rw [Nat.succ_mul]
        omega
      rw [Function.comp_apply, this]

theorem maskedSamples_eq {depth : Nat} (h : depth = 1 ∨ depth = 2 ∨ depth = 4) (b : UInt8) :
    maskedSamples depth b = samplesOf depth b := by
  have hmask : (UInt8.ofNat (((1 <<< depth) - 1) <<< (8 - depth))).toNat =
      (2 ^ depth - 1) <<< (8 - depth) := by
    rcases h with rfl | rfl | rfl <;> decide
  have hpos : 0 < depth := by omega
  have hall : 8 / depth * depth ≤ 8 - depth + depth := by
    rcases h with rfl | rfl | rfl <;> decide
  exact maskedFrom_eq hpos b (8 / depth) _ (8 - depth) (by omega) hall hmask

/-! ## A row expanded -/

/-- Rows of 1, 2 and 4 bits are laid over a buffer sample by sample, in whichever way their bytes are
taken apart. Rows of other depths are not. -/
theorem expandInto_eq_ok {depth : Nat} {input out filled : List UInt8} :
    expandInto depth input out = .ok filled ↔
      (depth = 1 ∨ depth = 2 ∨ depth = 4) ∧
        filled = expandOver (8 / depth) (samplesOf depth) input out := by
  unfold expandInto
  by_cases h1 : depth = 1
  · subst h1
    rw [if_pos rfl, funext tableSamples_eq, Except.ok.injEq]
    exact ⟨fun h => ⟨Or.inl rfl, h.symm⟩, fun h => h.2.symm⟩
  · rw [if_neg h1]
    by_cases h24 : depth = 2 ∨ depth = 4
    · rw [if_pos h24, funext (maskedSamples_eq (Or.inr h24)), Except.ok.injEq]
      exact ⟨fun h => ⟨Or.inr h24, h.symm⟩, fun h => h.2.symm⟩
    · rw [if_neg h24]
      exact ⟨nofun, fun h => absurd (h.1.resolve_left h1) h24⟩

/-- The samples of all bytes stand in front, as far as the buffer goes, and what they do not reach
is left behind them. -/
theorem expandOver_eq {perByte : Nat} {samples : UInt8 → List UInt8}
    (hlen : ∀ b, (samples b).length = perByte) (input : List UInt8) :
    ∀ out : List UInt8, expandOver perByte samples input out =
      (input.flatMap samples).take out.length ++ out.drop (input.length * perByte) := by
  induction input with
  | nil => simp [expandOver]
  | cons b input ih =>
    intro out
    cases out with
    | nil => simp [expandOver]
    | cons o rest =>
      rw [expandOver, ih]
      generalize o :: rest = out
      have hfirst : (samples b).take (out.take perByte).length = (samples b).take out.length := by
        rw [← hlen b, List.length_take, Nat.min_comm, ← List.take_take, List.take_length]
      have hcount : (b :: input).length * perByte = perByte + input.length * perByte := by
        rw [List.length_cons, Nat.succ_mul, Nat.add_comm]
      rw [hfirst, hcount, List.flatMap_cons, List.take_append, hlen, List.length_drop,
        List.drop_drop, List.append_assoc]

theorem length_expandOver {perByte : Nat} {samples : UInt8 → List UInt8}
    (hlen : ∀ b, (samples b).length = perByte) (input out : List UInt8) :
    (expandOver perByte samples input out).length = out.length := by
  rw [expandOver_eq hlen, List.length_append, List.length_take, List.length_drop,
    length_blocks fun b _ => hlen b]
  omega

theorem length_expandRow {depth width : Nat} {input out : List UInt8}
    (h : expandRow depth width input = .ok out) : out.length = width := by
  obtain ⟨-, rfl⟩ := expandInto_eq_ok.mp h
  rw [length_expandOver (length_samplesOf depth), List.length_replicate]

/-- What a row holds cannot be more than its bytes have bits for. -/
theorem Holds.length_le {depth : Nat} {row samples : List UInt8} (h : Holds depth row samples) :
    samples.length ≤ row.length * (8 / depth) := by
  have := List.IsPrefix.length_le h
  rwa [length_blocks fun b _ => length_samplesOf depth b] at this

/-- A row expands to the samples that it holds. -/
theorem expandRow_holds {depth : Nat} (hd : depth = 1 ∨ depth = 2 ∨ depth = 4)
    {row samples : List UInt8} (h : Holds depth row samples) :
    expandRow depth samples.length row = .ok samples := by
  have htake : (row.flatMap (samplesOf depth)).take samples.length = samples :=
    List.prefix_iff_eq_take.mp h |>.symm
  have hblank : (List.replicate samples.length (0 : UInt8)).drop (row.length * (8 / depth)) = [] :=
    List.drop_of_length_le (by rw [List.length_replicate]; exact h.length_le)
  refine expandInto_eq_ok.mpr ⟨hd, ?_⟩
  rw [expandOver_eq (length_samplesOf depth), List.length_replicate, htake, hblank,
    List.append_nil]

/-- What stands in an expanded row is a sample of some byte, or stood there before. -/
theorem mem_expandOver {perByte : Nat} {samples : UInt8 → List UInt8}
    (hlen : ∀ b, (samples b).length = perByte) {input out : List UInt8} {x : UInt8}
    (h : x ∈ expandOver perByte samples input out) : x ∈ out ∨ ∃ b, x ∈ samples b := by
  rw [expandOver_eq hlen] at h
  rcases List.mem_append.mp h with hsample | hrest
  · obtain ⟨b, -, hb⟩ := List.mem_flatMap.mp (List.mem_of_mem_take hsample)
    exact Or.inr ⟨b, hb⟩
  · exact Or.inl (List.mem_of_mem_drop hrest)

theorem lt_of_mem_samplesOf {depth : Nat} {b x : UInt8} (h : x ∈ samplesOf depth b) :
    x.toNat < 2 ^ depth := by
  obtain ⟨i, -, rfl⟩ := List.mem_map.mp h
  rw [toNat_sampleOf]
  exact Nat.mod_lt _ (Nat.two_pow_pos depth)

/-- The samples of an expanded row have `depth` bits. -/
theorem lt_of_mem_expandRow {depth width : Nat} {input out : List UInt8} {x : UInt8}
    (h : expandRow depth width input = .ok out) (hx : x ∈ out) : x.toNat < 2 ^ depth := by
  obtain ⟨-, rfl⟩ := expandInto_eq_ok.mp h
  rcases mem_expandOver (length_samplesOf depth) hx with hblank | ⟨b, hb⟩
  · rw [List.eq_of_mem_replicate hblank]
    exact Nat.two_pow_pos depth
  · exact lt_of_mem_samplesOf hb

/-! ## A row written -/

/-- The byte that consists of these samples. -/
def packByte (depth : Nat) (samples : List UInt8) : UInt8 :=
  UInt8.ofNat (Nat.ofDigits (2 ^ depth) (samples.reverse.map UInt8.toNat))

/-- A row of so many bytes that holds the samples, with zeros behind them. -/
def packRow (depth : Nat) : (bytes : Nat) → List UInt8 → List UInt8
  | 0, _ => []
  | bytes + 1, samples =>
    packByte depth (fit (8 / depth) samples) :: packRow depth bytes (samples.drop (8 / depth))

theorem length_packRow (depth bytes : Nat) (samples : List UInt8) :
    (packRow depth bytes samples).length = bytes := by
  induction bytes generalizing samples with
  | zero => rfl
  | succ bytes ih => rw [packRow, List.length_cons, ih]

theorem samplesOf_packByte {depth : Nat} (hd : depth * (8 / depth) = 8) {samples : List UInt8}
    (hlen : samples.length = 8 / depth) (hlt : ∀ x ∈ samples, x.toNat < 2 ^ depth) :
    samplesOf depth (packByte depth samples) = samples := by
  have hlt' : ∀ x ∈ samples.reverse.map UInt8.toNat, x < 2 ^ depth := by
    intro x hx
    obtain ⟨y, hy, rfl⟩ := List.mem_map.mp hx
    exact hlt y (List.mem_reverse.mp hy)
  have hpos : 0 < depth := Nat.pos_of_ne_zero fun h => by simp [h] at hd
  have hbyte : (packByte depth samples).toNat =
      Nat.ofDigits (2 ^ depth) (samples.reverse.map UInt8.toNat) := by
    have := Nat.ofDigits_lt_base_pow_length (Nat.one_lt_two_pow (Nat.pos_iff_ne_zero.mp hpos)) hlt'
    rw [List.length_map, List.length_reverse, hlen, ← Nat.pow_mul, hd] at this
    rw [packByte, UInt8.toNat_ofNat', Nat.mod_eq_of_lt this]
  refine List.ext_getElem (by rw [length_samplesOf, hlen]) fun i hi hi' => ?_
  have hn : i < 8 / depth := by rwa [length_samplesOf] at hi
  have hshift : 8 - depth - i * depth = depth * (8 / depth - 1 - i) := by
    rw [Nat.mul_sub, Nat.mul_sub, hd, Nat.mul_one, Nat.mul_comm depth i]
  have hdrop : (samples.reverse.map UInt8.toNat).drop (8 / depth - 1 - i) =
      samples[i].toNat :: (samples.reverse.map UInt8.toNat).drop (8 / depth - i) := by
    have hk : 8 / depth - 1 - i < (samples.reverse.map UInt8.toNat).length := by
      rw [List.length_map, List.length_reverse]
      omega
    rw [List.drop_eq_getElem_cons hk, List.getElem_map, List.getElem_reverse]
    congr 2
    · congr 1
      omega
    · omega
  simp only [samplesOf, List.getElem_map, List.getElem_range, sampleOf]
  rw [hbyte, hshift, Nat.shiftRight_eq_div_pow, Nat.pow_mul,
    Nat.ofDigits_div_pow_eq_ofDigits_drop _ (Nat.two_pow_pos depth) _ hlt', hdrop,
    Nat.ofDigits_cons, Nat.add_mul_mod_self_left,
    Nat.mod_eq_of_lt (hlt _ (List.getElem_mem hi'))]
  exact UInt8.ofNat_toNat

/-- Any samples are held by some row that has bits for them. -/
theorem holds_packRow {depth : Nat} (hd : depth * (8 / depth) = 8) (bytes : Nat) :
    ∀ samples : List UInt8, samples.length ≤ bytes * (8 / depth) →
      (∀ x ∈ samples, x.toNat < 2 ^ depth) → Holds depth (packRow depth bytes samples) samples := by
  induction bytes with
  | zero =>
    intro samples hlen _
    have : samples = [] := List.eq_nil_of_length_eq_zero (by simpa using hlen)
    rw [this]
    exact ⟨_, rfl⟩
  | succ bytes ih =>
    intro samples hlen hlt
    have hfit : ∀ x ∈ fit (8 / depth) samples, x.toNat < 2 ^ depth := by
      intro x hx
      rcases List.mem_append.mp hx with hx | hx
      · exact hlt x (List.mem_of_mem_take hx)
      · rw [List.eq_of_mem_replicate hx]
        exact Nat.two_pow_pos depth
    have hdrop : (samples.drop (8 / depth)).length ≤ bytes * (8 / depth) := by
      rw [Nat.succ_mul] at hlen
      rw [List.length_drop]
      omega
    have hrest := ih _ hdrop fun x hx => hlt x (List.mem_of_mem_drop hx)
    unfold Holds at hrest ⊢
    rw [packRow, List.flatMap_cons, samplesOf_packByte hd (length_fit _ _) hfit]
    by_cases hl : samples.length ≤ 8 / depth
    · rw [fit, List.take_of_length_le hl, List.append_assoc]
      exact List.prefix_append _ _
    · have hcut : fit (8 / depth) samples = samples.take (8 / depth) := by
        rw [fit, Nat.sub_eq_zero_of_le (by omega), List.replicate_zero, List.append_nil]
      rw [hcut]
      nth_rewrite 1 [← List.take_append_drop (8 / depth) samples]
      exact (List.prefix_append_right_inj _).mpr hrest

end Pict.Depth
