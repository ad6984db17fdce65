import Pict.Proofs.Machine.Packets
import Pict.Proofs.Samples.PixelRow
import Pict.Raster.Format

/-!
# The pixels of a row on a machine

From the bytes of a row to its strips, by slices: the entries of the table that a byte
looks up, the samples that a mask takes one after the other, and the planes of a row
that keeps its components apart.

Results:
* `copyClamped_ok`: what a source reaches of a blank row is copied without a fault.
* `expandInto_ok`, `expandRow_ok`: pixels are laid over a buffer, and a row expands, without a fault.
* `rawStrip_ok`, `packedStrips_ok`: the strips of a row are made without a fault.
-/
namespace Pict.Machine

open Depth

variable {α : Type}

/-- A row with the samples of `src` from `x` on copied to its front, as far as both reach. -/
def copyClamped (src : List α) (x : Nat) (row : List α) : Checked (List α) :=
  if x ≤ src.length then do
    let length := min row.length (src.length - x)
    let part ← slice (src.drop x) 0 length
    copy row 0 length part
  else pure row

theorem copyClamped_ok [OfNat α 0] (src : List α) (x width : Nat) :
    copyClamped src x (List.replicate width 0) = .ok (crop x width src) := by
  by_cases hx : x ≤ src.length
  · generalize hrest : src.drop x = rest
    have hlength : rest.length = src.length - x := by rw [← hrest, List.length_drop]
    have htake : rest.take (min width rest.length) = rest.take width := by
      rw [List.take_eq_take_iff]
      omega
    rw [copyClamped, if_pos hx, List.length_replicate, hrest, ← hlength]
    dsimp only
    rw [slice_ok (Nat.zero_le _) (Nat.min_le_right _ _), ok_bind, List.drop_zero,
      copy_ok (Nat.zero_le _) (by rw [List.length_replicate]; exact Nat.min_le_left _ _)
        (by rw [List.length_take]; omega), htake, overwrite_blank, crop, hrest]
  · rw [copyClamped, if_neg hx, crop, List.drop_of_length_le (by omega), fit_nil]
    rfl

/-! ## Pixels of less than a byte -/

/-- `out` with what `pixels` makes of the bytes of `input` over it, `perByte` places for each. -/
def expandOver (perByte : Nat) (pixels : UInt8 → List UInt8 → Checked (List UInt8)) :
    (input out : List UInt8) → Checked (List UInt8)
  | [], out => pure out
  | b :: input, out =>
    match out with
    | [] => pure []
    | o :: rest => do
      let samples ← pixels b ((o :: rest).take perByte)
      let others ← expandOver perByte pixels input ((o :: rest).drop perByte)
      pure (samples ++ others)

/-- The entries of the table for a byte, copied to a place. -/
def tablePixels (b : UInt8) (place : List UInt8) : Checked (List UInt8) := do
  let look ← usize (b.toNat * 8)
  let till ← usize (look + place.length)
  let entries ← slice bitTable.toList look till
  copy place 0 place.length entries

/-- The samples of a byte in a place, the first under `mask` and `up` bits up. -/
def maskedFrom (depth : Nat) (b : UInt8) :
    (place : List UInt8) → (mask : UInt8) → (up : Nat) → Checked (List UInt8)
  | [], _, _ => pure []
  | _ :: place, mask, up => do
    let down ← shift up
    let next ← shift depth
    let others ← maskedFrom depth b place (mask >>> UInt8.ofNat next) (up - depth)
    pure (((b &&& mask) >>> UInt8.ofNat down) :: others)

def maskedPixels (depth : Nat) (b : UInt8) (place : List UInt8) : Checked (List UInt8) := do
  let places ← shift depth
  let ones ← minus (1 <<< places) 1
  let up ← minus 8 depth
  let far ← shift up
  maskedFrom depth b place (UInt8.ofNat (ones <<< far)) up

/-- The pixels of `input` over a buffer, by mask and shift at any depth. -/
def maskedInto (depth : Nat) (input out : List UInt8) : Checked (List UInt8) := do
  let perByte ← divide 8 depth
  expandOver perByte (maskedPixels depth) input out

def expandInto (depth : Nat) (input out : List UInt8) : Checked (Except Error (List UInt8)) :=
  if depth = 1 then do
    let filled ← expandOver 8 tablePixels input out
    pure (.ok filled)
  else if depth = 2 ∨ depth = 4 then do
    let filled ← maskedInto depth input out
    pure (.ok filled)
  else pure (.error (.unsupportedBitDepth depth))

def expandRow (depth width : Nat) (input : List UInt8) : Checked (Except Error (List UInt8)) :=
  expandInto depth input (List.replicate width 0)

theorem expandOver_ok {perByte : Nat} {pixels : UInt8 → List UInt8 → Checked (List UInt8)}
    {samples : UInt8 → List UInt8}
    (h : ∀ b place, place.length ≤ perByte → pixels b place = .ok ((samples b).take place.length))
    (input : List UInt8) : ∀ out,
      expandOver perByte pixels input out = .ok (Depth.expandOver perByte samples input out) := by
  induction input with
  | nil => exact fun _ => rfl
  | cons b input ih =>
    intro out
    cases out with
    | nil => rfl
    | cons o rest =>
      have hplace : ((o :: rest).take perByte).length ≤ perByte := by
        rw [List.length_take]
        exact Nat.min_le_left _ _
      rw [expandOver, h b _ hplace, ok_bind, ih, ok_bind, Depth.expandOver]
      rfl

theorem tableSamples_eq_slice (b : UInt8) :
    tableSamples b = (bitTable.toList.drop (b.toNat * 8)).take 8 := by
  have hb := b.toNat_lt
  have hsize : bitTable.toList.length = 2048 := by simp [bitTable]
  refine List.ext_getElem? fun i => ?_
  by_cases hi : i < 8
  · have hentry : bitTable.toList[b.toNat * 8 + i]? = some (bitEntry (b.toNat * 8 + i)) := by
      rw [bitTable, List.getElem?_map, List.getElem?_range (by omega), Option.map_some]
    rw [List.getElem?_take, if_pos hi, List.getElem?_drop, hentry, tableSamples,
      List.getElem?_map, List.getElem?_range hi, Option.map_some, getD_bitTable (by omega)]
  · rw [List.getElem?_eq_none (by simp [tableSamples]; omega),
      List.getElem?_eq_none (by rw [List.length_take]; omega)]

theorem tablePixels_ok (b : UInt8) {place : List UInt8} (h : place.length ≤ 8) :
    tablePixels b place = .ok ((tableSamples b).take place.length) := by
  have hb := b.toNat_lt
  have hsize : bitTable.toList.length = 2048 := by simp [bitTable]
  have hentries : (bitTable.toList.take (b.toNat * 8 + place.length)).drop (b.toNat * 8) =
      (tableSamples b).take place.length := by
    rw [List.drop_take, tableSamples_eq_slice, List.take_take, Nat.add_sub_cancel_left,
      Nat.min_eq_left h]
  have hlength : ((tableSamples b).take place.length).length = place.length := by
    rw [List.length_take, tableSamples, List.length_map, List.length_range]
    omega
  rw [tablePixels, usize_ok (by omega), ok_bind, usize_ok (by omega), ok_bind,
    slice_ok (by omega) (by omega), ok_bind, hentries,
    copy_ok (Nat.zero_le _) (Nat.le_refl _) (by rw [hlength, Nat.sub_zero]), overwrite_all hlength]

theorem maskedFrom_ok {depth : Nat} (hd : depth < 8) (b : UInt8) (place : List UInt8) :
    ∀ {left : Nat} (mask : UInt8) {up : Nat}, up < 8 → place.length ≤ left →
      maskedFrom depth b place mask up =
        .ok ((Depth.maskedFrom depth b left mask up).take place.length) := by
  induction place with
  | nil => exact fun _ _ _ _ => rfl
  | cons o place ih =>
    intro left mask up hup hleft
    obtain ⟨left, rfl⟩ : ∃ n, left = n + 1 := ⟨left - 1, by simp at hleft; omega⟩
    rw [maskedFrom, shift_ok hup, ok_bind, shift_ok hd, ok_bind,
      ih _ (by omega) (by simpa using hleft), ok_bind, Depth.maskedFrom]
    rfl

theorem maskedPixels_ok {depth : Nat} (hd : depth = 1 ∨ depth = 2 ∨ depth = 4) (b : UInt8)
    {place : List UInt8} (h : place.length ≤ 8 / depth) :
    maskedPixels depth b place = .ok ((maskedSamples depth b).take place.length) := by
  have hpow : 1 ≤ 1 <<< depth := by rcases hd with rfl | rfl | rfl <;> decide
  rw [maskedPixels, shift_ok (by omega), ok_bind, minus_ok hpow, ok_bind, minus_ok (by omega),
    ok_bind, shift_ok (by omega), ok_bind, maskedFrom_ok (by omega) b place _ (by omega) h]
  rfl

/-- Mask and shift fill a buffer without a fault, also where the table does. -/
theorem maskedInto_ok {depth : Nat} (hd : depth = 1 ∨ depth = 2 ∨ depth = 4)
    (input out : List UInt8) :
    maskedInto depth input out =
      .ok (Depth.expandOver (8 / depth) (maskedSamples depth) input out) := by
  rw [maskedInto, divide_ok (by omega), ok_bind]
  exact expandOver_ok (fun b _ => maskedPixels_ok hd b) input out

/-- A buffer is filled without a fault. -/
theorem expandInto_ok (depth : Nat) (input out : List UInt8) :
    expandInto depth input out = .ok (Depth.expandInto depth input out) := by
  unfold expandInto Depth.expandInto
  by_cases hone : depth = 1
  · rw [if_pos hone, if_pos hone, expandOver_ok (fun b _ => tablePixels_ok b) input out, ok_bind]
    rfl
  · rw [if_neg hone, if_neg hone]
    by_cases hmasked : depth = 2 ∨ depth = 4
    · rw [if_pos hmasked, if_pos hmasked, maskedInto_ok (Or.inr hmasked), ok_bind]
      rfl
    · rw [if_neg hmasked, if_neg hmasked]
      rfl

/-- A row expands without a fault. -/
theorem expandRow_ok (depth width : Nat) (input : List UInt8) :
    expandRow depth width input = .ok (Depth.expandRow depth width input) :=
  expandInto_ok depth input (List.replicate width 0)

/-! ## Strips -/

def pairWords : List UInt8 → Checked (List UInt16)
  | hi :: lo :: rest => do
    let first ← get [hi, lo] 0
    let second ← get [hi, lo] 1
    let others ← pairWords rest
    pure (word first second :: others)
  | _ => pure []

def rawStrip (f : Format) (width : Nat) (row : List UInt8) : Checked (Except Error Strip) :=
  if f.pixelSize = 16 then do
    let words ← pairWords row
    pure (.ok (.words (fit width words)))
  else if f.pixelSize = 8 then pure (.ok (.bytes row))
  else do
    let out ← expandRow f.pixelSize width row
    pure (Strip.bytes <$> out)

/-- The samples of one component of a row that keeps them apart. -/
def planeStrip (width : Nat) (row : List UInt8) (c : Nat) : Checked Strip := do
  let offset ← usize (c * width)
  let samples ← copyClamped row offset (List.replicate width 0)
  pure (.bytes samples)

def packedStrips (f : Format) (width : Nat) (packed : List UInt8) :
    Checked (Except Error (List Strip)) :=
  if f.pixelSize = 16 then do
    let words ← wordsOf packed width
    pure (.ok [.words words])
  else do
    let room ← usize (width * 4)
    let row ← unpack packed room
    if f.pixelSize < 8 then
      let out ← expandRow f.pixelSize width row
      pure ((fun out => [.bytes out]) <$> out)
    else if f.pixelSize = 8 then pure (.ok [.bytes row])
    else if f.pixelSize = 24 ∨ f.pixelSize = 32 then
      let strips ← (List.range f.components).mapM (planeStrip width row)
      pure (.ok strips)
    else pure (.ok [])

theorem pairWords_ok (row : List UInt8) : pairWords row = .ok (Format.wordsOf row) := by
  fun_induction Format.wordsOf row with
  | case1 hi lo rest ih =>
    rw [pairWords, get_ok rfl, ok_bind, get_ok rfl, ok_bind, ih, ok_bind]
    rfl
  | case2 row h =>
    rw [pairWords]
    · rfl
    · exact h

theorem rawStrip_ok (f : Format) (width : Nat) (row : List UInt8) :
    rawStrip f width row = .ok (f.rawStrip width row) := by
  rw [rawStrip, pairWords_ok, expandRow_ok, ok_bind, ok_bind, Format.rawStrip]
  split
  · rfl
  · split <;> rfl

theorem planeStrip_ok {width c : Nat} (row : List UInt8)
    (hwidth : width < 2 ^ 32) (hc : c < 2 ^ 32) :
    planeStrip width row c = .ok (.bytes (crop (c * width) width row)) := by
  have hoffset : c * width < 2 ^ 64 := by
    calc c * width ≤ 2 ^ 32 * width := Nat.mul_le_mul_right _ (Nat.le_of_lt hc)
      _ < 2 ^ 32 * 2 ^ 32 := Nat.mul_lt_mul_of_pos_left hwidth (by decide)
  rw [planeStrip, usize_ok hoffset, ok_bind, copyClamped_ok, ok_bind]
  rfl

theorem mapM_ok {β γ : Type} {f : β → Checked γ} {g : β → γ} :
    ∀ {xs : List β}, (∀ x ∈ xs, f x = .ok (g x)) → xs.mapM f = .ok (xs.map g)
  | [], _ => rfl
  | x :: xs, h => by
    rw [List.mapM_cons, h x List.mem_cons_self, ok_bind,
      mapM_ok fun y hy => h y (List.mem_cons_of_mem x hy), ok_bind]
    rfl

/-- The strips of a packed row are made without a fault. -/
theorem packedStrips_ok {f : Format} {width : Nat} {packed : List UInt8}
    (hwidth : width < 2 ^ 32) (hpacked : packed.length < 2 ^ 62)
    (hcomponents : f.components < 2 ^ 32) :
    packedStrips f width packed = .ok (f.packedStrips width packed) := by
  unfold packedStrips Format.packedStrips
  by_cases hwords : f.pixelSize = 16
  · rw [if_pos hwords, if_pos hwords, wordsOf_ok (by omega) (by omega), ok_bind]
    rfl
  rw [if_neg hwords, if_neg hwords, usize_ok (by omega), ok_bind, unpack_ok (by omega) (by omega),
    ok_bind]
  dsimp only
  by_cases hsmall : f.pixelSize < 8
  · rw [if_pos hsmall, if_pos hsmall, expandRow_ok, ok_bind]
    rfl
  rw [if_neg hsmall, if_neg hsmall]
  by_cases hbytes : f.pixelSize = 8
  · rw [if_pos hbytes, if_pos hbytes]
    rfl
  rw [if_neg hbytes, if_neg hbytes]
  by_cases hplanes : f.pixelSize = 24 ∨ f.pixelSize = 32
  · have hrange : ∀ c ∈ List.range f.components, c < 2 ^ 32 := fun c hc =>
      Nat.lt_trans (List.mem_range.mp hc) hcomponents
    rw [if_pos hplanes, if_pos hplanes,
      mapM_ok fun c hc => planeStrip_ok _ hwidth (hrange c hc), ok_bind]
    rfl
  · rw [if_neg hplanes, if_neg hplanes]
    rfl

end Pict.Machine
