import Pict.Proofs.Machine.Guarded
import Pict.Proofs.Machine.Pixels
import Pict.Proofs.Plane.Crop

/-!
# Painting a window from strips on a machine

A window is painted into a buffer, row by row and sample by sample, at offsets that are
computed from the row, the column and the plane. `Paper` is that buffer. What lies on it is
what the scanlines of a `Canvas` amount to (`paperOf`). Rows without a strip are counted in a signed
word of 32 bits: nothing is indexed or cut by that number, but the sum is checked like any other.

Results:
* `overwrite_blocks`: samples written behind those of a plane are added to that plane alone.
* `copyRow_ok`, `paintPixels_ok`: a row is written into its places without a fault.
* `paintRow_eq`: all that can go wrong with a row is that it is counted.
* `runs_paintStrips`, `paintStrips_faults`: a window is painted from strips without a fault, unless
  as many as `2 ^ 31` rows are counted.
-/
namespace Pict.Machine

open Guarded

/-! ## Planes one after the other -/

/-- Planes of `n` samples each, zero behind the samples that they have so far. -/
def blocks (n : Nat) (planes : List (List UInt8)) : List UInt8 := planes.flatMap (fit n)

section
variable {n w : Nat} {planes : List (List UInt8)} {c : Nat} {xs ys : List UInt8}

theorem blocks_cons (xs : List UInt8) (planes : List (List UInt8)) :
    blocks n (xs :: planes) = fit n xs ++ blocks n planes := List.flatMap_cons

theorem length_blocks (n : Nat) : ∀ planes, (blocks n planes).length = planes.length * n
  | [] => (Nat.zero_mul n).symm
  | xs :: planes => by
    rw [blocks_cons, List.length_append, length_fit, length_blocks n planes, List.length_cons,
      Nat.succ_mul, Nat.add_comm]

theorem place_le (hc : planes[c]? = some xs) (h : xs.length + w ≤ n) :
    c * n + xs.length + w ≤ (blocks n planes).length := by
  obtain ⟨hlt, -⟩ := List.getElem?_eq_some_iff.mp hc
  calc c * n + xs.length + w ≤ c * n + n := by omega
    _ = (c + 1) * n := (Nat.succ_mul c n).symm
    _ ≤ planes.length * n := Nat.mul_le_mul_right n hlt
    _ = (blocks n planes).length := (length_blocks n planes).symm

/-- Samples written behind those of a plane are added to that plane alone. -/
theorem overwrite_blocks (h : xs.length + ys.length ≤ n) :
    ∀ {planes : List (List UInt8)} {c : Nat}, planes[c]? = some xs →
      overwrite (blocks n planes) (c * n + xs.length) ys = blocks n (planes.set c (xs ++ ys))
  | [], c, hc => by
    rw [List.getElem?_nil] at hc
    cases hc
  | zs :: planes, 0, hc => by
    obtain rfl : zs = xs := Option.some.inj hc
    rw [List.set_cons_zero, blocks_cons, blocks_cons, Nat.zero_mul, Nat.zero_add,
      overwrite_append_left (by rw [length_fit]; exact h), overwrite_fit h]
  | zs :: planes, c + 1, hc => by
    have hplace : (c + 1) * n + xs.length = (fit n zs).length + (c * n + xs.length) := by
      rw [length_fit, Nat.succ_mul]
      omega
    have hrest : planes[c]? = some xs := hc
    rw [List.set_cons_succ, blocks_cons, blocks_cons, hplace, overwrite_append_right,
      overwrite_blocks h hrest]

theorem black_blocks (h : xs.length + w ≤ n) :
    ∀ {planes : List (List UInt8)} {c : Nat}, planes[c]? = some xs →
      ((blocks n planes).take (c * n + xs.length + w)).drop (c * n + xs.length) =
        List.replicate w 0
  | [], c, hc => by
    rw [List.getElem?_nil] at hc
    cases hc
  | zs :: planes, 0, hc => by
    obtain rfl : zs = xs := Option.some.inj hc
    have hfit : fit n zs = zs ++ List.replicate (n - zs.length) 0 := by
      rw [fit, List.take_of_length_le (by omega)]
    rw [Nat.zero_mul, Nat.zero_add, blocks_cons, hfit, List.append_assoc,
      List.take_length_add_append, List.drop_left,
      List.take_append_of_le_length (by rw [List.length_replicate]; omega), List.take_replicate,
      Nat.min_eq_left (by omega)]
  | zs :: planes, c + 1, hc => by
    have hplace : (c + 1) * n + xs.length = (fit n zs).length + (c * n + xs.length) := by
      rw [length_fit, Nat.succ_mul]
      omega
    have hrest : planes[c]? = some xs := hc
    rw [blocks_cons, hplace, Nat.add_assoc, List.take_length_add_append,
      List.drop_length_add_append, black_blocks h hrest]

theorem fit_append_zeros (n w : Nat) (xs : List UInt8) :
    fit n (xs ++ List.replicate w 0) = fit n xs := by
  refine List.ext_getElem? fun k => ?_
  by_cases hk : k < n
  · rw [fit_getElem? _ _ _ hk, fit_getElem? _ _ _ hk, List.getElem?_append]
    split
    · rfl
    · rw [List.getElem?_replicate, List.getElem?_eq_none (by omega)]
      split <;> rfl
  · rw [List.getElem?_eq_none (by rw [length_fit]; omega),
      List.getElem?_eq_none (by rw [length_fit]; omega)]

theorem slice_blocks {start : Nat} (hc : planes[c]? = some xs) (h : xs.length + w ≤ n)
    (hstart : start = c * n + xs.length) :
    slice (blocks n planes) start (start + w) = .ok (List.replicate w 0) := by
  rw [hstart, slice_ok (Nat.le_add_right _ _) (place_le hc h), black_blocks h hc]

theorem copy_blocks {start : Nat} (hc : planes[c]? = some xs) (h : xs.length + w ≤ n)
    (hstart : start = c * n + xs.length) (hline : ys.length = w) :
    copy (blocks n planes) start (start + w) ys = .ok (blocks n (planes.set c (xs ++ ys))) := by
  rw [hstart, copy_ok (Nat.le_add_right _ _) (place_le hc h) (by omega),
    overwrite_blocks (by omega) hc]

theorem blocks_set_zeros (hc : planes[c]? = some xs) (w : Nat) :
    blocks n (planes.set c (xs ++ List.replicate w 0)) = blocks n planes := by
  obtain ⟨hlt, rfl⟩ := List.getElem?_eq_some_iff.mp hc
  have hset : ∀ zs, blocks n (planes.set c zs) =
      ((planes.map (fit n)).set c (fit n zs)).flatten := fun zs => by
    rw [blocks, List.flatMap_def, List.map_set]
  rw [hset, fit_append_zeros, ← hset, List.set_getElem_self hlt]

end

/-- A row of a window copied to its place, if there is one; else the place is left alone. -/
def copyRow (row : Option (List UInt8)) (x start width : Nat) (out : List UInt8) :
    Checked (List UInt8) := do
  let till ← usize (start + width)
  let place ← slice out start till
  match row with
  | none => pure out
  | some row => do
    let line ← copyClamped row x place
    copy out start till line

/-- A row is copied to its place in a plane without a fault. -/
theorem copyRow_ok {n width c start : Nat} {planes : List (List UInt8)} {xs : List UInt8}
    (row : Option (List UInt8)) (x : Nat) (hsize : planes.length * n + width < 2 ^ 64)
    (hc : planes[c]? = some xs) (h : xs.length + width ≤ n) (hstart : start = c * n + xs.length) :
    copyRow row x start width (blocks n planes) =
      .ok (blocks n (planes.set c (xs ++ crop x width (row.getD [])))) := by
  have hplace := place_le hc h
  have hlength := length_blocks n planes
  rw [copyRow, usize_ok (by omega), ok_bind, slice_blocks hc h hstart, ok_bind]
  cases row with
  | none =>
    rw [Option.getD_none, crop_nil, blocks_set_zeros hc]
    rfl
  | some row =>
    dsimp only
    rw [copyClamped_ok, ok_bind, copy_blocks hc h hstart (length_crop _ _ _)]
    rfl

/-! ## Rows of a window -/

/-- A buffer with a window, and how many rows of it have no strip. -/
structure Paper where
  out : List UInt8
  missing : Int32
  handed : Option (List UInt8)

/-- The samples of plane `c` so far. -/
def column (canvas : Canvas) (c : Nat) : List UInt8 :=
  canvas.lines.toList.flatMap fun line => line.getD c []

/-- The buffer with what has been painted of a window of `pixels` pixels. -/
def paperOf (layout : Layout) (pixels : Nat) (canvas : Canvas) : Paper :=
  ⟨canvas.samples layout pixels, canvas.missing, canvas.handed⟩

/-- The number of rows without a strip behind one more row. -/
def countMissing (isMissing : Bool) (missing : Int32) : Checked Int32 :=
  if isMissing then
    if missing.toInt + 1 < 2 ^ 31 then .ok (missing + 1) else .error .counter
  else .ok missing

def paintChannel (p : Picture) (win : Window) (stride planeLength base y : Nat)
    (out : List UInt8) (c : Nat) : Checked (List UInt8) := do
  let first ← usize (y * stride)
  let behind ← usize (first + stride)
  let last ← minus behind 3
  let index ← usize (last + c)
  let above ← usize (c * planeLength)
  let start ← usize (above + base)
  copyRow (p.byteStrip? index) win.x start win.width out

/-- The pixels of a row of words from column `j` on, each in three planes. -/
def paintPixels (row : List UInt16) (x planeLength start : Nat) :
    (left j : Nat) → List UInt8 → Checked (List UInt8)
  | 0, _, out => pure out
  | left + 1, j, out => do
    let i ← usize (x + j)
    let v := row[i]?.getD 0
    let base ← usize (start + j)
    let out ← put out base (red5 v)
    let second ← usize (planeLength + base)
    let out ← put out second (green5 v)
    let double ← usize (2 * planeLength)
    let third ← usize (double + base)
    let out ← put out third (blue5 v)
    paintPixels row x planeLength start left (j + 1) out

def paintSingle (p : Picture) (win : Window) (y base : Nat) (paper : Paper) :
    Checked (Bool × Paper) := do
  let out ← copyRow (p.byteStrip? y) win.x base win.width paper.out
  let missing ← countMissing (p.byteStrip? y).isNone paper.missing
  pure (true, { paper with out, missing })

def paintPlanar (p : Picture) (win : Window) (stride y base : Nat) (paper : Paper) :
    Checked (Bool × Paper) := do
  let planeLength ← usize (win.width * win.height)
  let out ← [0, 1, 2].foldlM (paintChannel p win stride planeLength base y) paper.out
  pure (true, { paper with out })

def paintPacked (p : Picture) (win : Window) (y base : Nat) (paper : Paper) :
    Checked (Bool × Paper) := do
  let planeLength ← usize (win.width * win.height)
  match p.wordStrip? y with
  | some row => do
    let out ← paintPixels row win.x planeLength base win.width 0 paper.out
    pure (true, { paper with out })
  | none => do
    let missing ← countMissing true paper.missing
    pure (true, { paper with missing })

def paintRow (p : Picture) (assembly : Assembly) (win : Window) (i : Nat) (paper : Paper) :
    Checked (Bool × Paper) := do
  let y ← usize (win.y + i)
  let base ← usize (i * win.width)
  match assembly with
  | .indexed | .gray => paintSingle p win y base paper
  | .planar stride => paintPlanar p win stride y base paper
  | .packed555 => paintPacked p win y base paper
  | .jpeg | .fallback => do
    let missing ← countMissing true paper.missing
    pure (true, { paper with missing })

/-- `Picture.rowsOf` on a machine. A single plane of `length` samples is gone through in chunks as
long as a row of the window. -/
def rowsOf (assembly : Assembly) (win : Window) (length : Nat) : Nat :=
  match assembly with
  | .indexed | .gray => min (length / max win.width 1) win.height
  | .planar _ | .packed555 => win.height
  | .jpeg | .fallback => 0

def paintStrips (p : Picture) (assembly : Assembly) (win : Window) : Guarded Paper Unit := do
  let paper ← step Job.work
  eachRow (fun i => transform (paintRow p assembly win i)) 0 (rowsOf assembly win paper.out.length)
  let paper ← step Job.work
  if 0 < paper.missing then
    step (Job.warn (Picture.missingWarning assembly paper.missing.toNatClampNeg))

theorem column_withRow (p : Picture) (assembly : Assembly) (win : Window) (i c : Nat)
    (canvas : Canvas) :
    column (p.withRow assembly win i canvas) c =
      column canvas c ++ (p.line assembly win i).getD c [] := by
  rw [column, Picture.withRow, Array.toList_push, List.flatMap_append, List.flatMap_singleton]
  rfl

theorem samples_eq_blocks (canvas : Canvas) (layout : Layout) (pixels : Nat) :
    canvas.samples layout pixels =
      blocks (pixels * layout.pitch) ((List.range layout.planes).map (column canvas)) := by
  rw [blocks, List.flatMap_map]
  rfl

theorem samples_planar (canvas : Canvas) (pixels : Nat) :
    canvas.samples .planarRgb8 pixels =
      blocks pixels [column canvas 0, column canvas 1, column canvas 2] := by
  rw [samples_eq_blocks]
  exact congrArg (fun n => blocks n _) (Nat.mul_one _)

theorem crop_succ {α : Type} [OfNat α 0] (x n : Nat) (row : List α) :
    crop x (n + 1) row = row[x]?.getD 0 :: crop (x + 1) n row := by
  rw [crop_eq_map, crop_eq_map, List.range_succ_eq_map, List.map_cons, List.map_map]
  refine congrArg (_ :: ·) (List.map_congr_left fun j _ => ?_)
  show row[x + (j + 1)]?.getD 0 = row[x + 1 + j]?.getD 0
  rw [Nat.add_right_comm, Nat.add_assoc]

theorem put_blocks {n c i : Nat} {planes : List (List UInt8)} {xs : List UInt8}
    (hc : planes[c]? = some xs) (h : xs.length + 1 ≤ n) (hi : i = c * n + xs.length) (a : UInt8) :
    put (blocks n planes) i a = .ok (blocks n (planes.set c (xs ++ [a]))) := by
  rw [hi, put_ok (place_le hc h), overwrite_blocks h hc]

/-- The pixels of a row of words are written in three planes without a fault. -/
theorem paintPixels_ok {n : Nat} (hn : n < 2 ^ 62) (row : List UInt16) {x start : Nat}
    (hx : x < 2 ^ 62) : ∀ {left j : Nat} {red green blue : List UInt8},
      red.length = start + j → green.length = start + j → blue.length = start + j →
      start + j + left ≤ n →
      paintPixels row x n start left j (blocks n [red, green, blue]) =
        .ok (blocks n
          [red ++ (crop (x + j) left row).map red5, green ++ (crop (x + j) left row).map green5,
            blue ++ (crop (x + j) left row).map blue5])
  | 0, j, red, green, blue, _, _, _, _ => by
    have hnil : crop (x + j) 0 row = [] := List.eq_nil_of_length_eq_zero (length_crop _ _ _)
    rw [hnil, List.map_nil, List.map_nil, List.map_nil, List.append_nil, List.append_nil,
      List.append_nil]
    rfl
  | left + 1, j, red, green, blue, hred, hgreen, hblue, h => by
    rw [paintPixels, usize_ok (by omega), ok_bind]
    dsimp only
    rw [usize_ok (by omega), ok_bind, put_blocks (c := 0) rfl (by omega) (by omega), ok_bind,
      usize_ok (by omega), ok_bind, put_blocks (c := 1) rfl (by omega) (by omega), ok_bind,
      usize_ok (by omega), ok_bind, usize_ok (by omega), ok_bind,
      put_blocks (c := 2) rfl (by omega) (by omega), ok_bind]
    simp only [List.set_cons_zero, List.set_cons_succ]
    rw [paintPixels_ok hn row hx (by rw [List.length_append, List.length_singleton]; omega)
        (by rw [List.length_append, List.length_singleton]; omega)
        (by rw [List.length_append, List.length_singleton]; omega) (by omega),
      crop_succ, List.map_cons, List.map_cons, List.map_cons, List.append_assoc, List.append_assoc,
      List.append_assoc]
    rfl

/-- The outcome of a row of a window: it is painted, and fails if it cannot be counted. -/
def rowOutcome (p : Picture) (assembly : Assembly) (win : Window) (i : Nat) (canvas : Canvas) :
    Checked (Bool × Paper) := do
  let missing ← countMissing (p.isMissing assembly win i) canvas.missing
  pure (true, { paperOf (p.layoutOf assembly) win.pixels (p.withRow assembly win i canvas) with
    missing })

/-- Behind `i` rows of a window each plane has the samples of these rows. -/
def Painted (planes width i : Nat) (canvas : Canvas) : Prop :=
  ∀ c < planes, (column canvas c).length = i * width

structure OnCanvas (win : Window) : Prop where
  width : win.width < 2 ^ 16
  left : win.x < 2 ^ 16
  bottom : win.y + win.height < 2 ^ 33

section
variable {p : Picture} {assembly : Assembly} {win : Window} {i : Nat} {canvas : Canvas}

theorem row_le_pixels (hi : i < win.height) : i * win.width + win.width ≤ win.pixels := by
  calc i * win.width + win.width = (i + 1) * win.width := (Nat.succ_mul _ _).symm
    _ ≤ win.height * win.width := Nat.mul_le_mul_right _ hi
    _ = win.pixels := Nat.mul_comm _ _

theorem OnCanvas.pixels_lt (h : OnCanvas win) : win.pixels < 2 ^ 49 := by
  have hheight : win.height < 2 ^ 33 := Nat.lt_of_le_of_lt (Nat.le_add_left _ _) h.bottom
  calc win.pixels ≤ win.width * 2 ^ 33 := Nat.mul_le_mul_left _ (Nat.le_of_lt hheight)
    _ < 2 ^ 49 := by have := h.width; omega

theorem paintSingle_eq (h : assembly = .indexed ∨ assembly = .gray) (hwin : OnCanvas win)
    (hi : i < win.height) (hcanvas : Painted 1 win.width i canvas) :
    paintSingle p win (win.y + i) (i * win.width)
        (paperOf (p.layoutOf assembly) win.pixels canvas) = rowOutcome p assembly win i canvas := by
  have hmissing : p.isMissing assembly win i = (p.byteStrip? (win.y + i)).isNone := by
    rcases h with rfl | rfl <;> exact Option.isNone_map
  have hsamples : ∀ canvas : Canvas, canvas.samples (p.layoutOf assembly) win.pixels =
      blocks win.pixels [column canvas 0] := by
    intro canvas
    rw [samples_eq_blocks]
    rcases h with rfl | rfl <;> exact congrArg (fun n => blocks n _) (Nat.mul_one _)
  have hcolumn := hcanvas 0 (by decide)
  have hroom : i * win.width + win.width ≤ win.pixels := row_le_pixels hi
  have hpixels := hwin.pixels_lt
  have hwidth := hwin.width
  have hbottom := hwin.bottom
  rw [paintSingle, paperOf]
  dsimp only
  rw [hsamples, copyRow_ok (c := 0) _ _ (by rw [List.length_singleton]; omega) rfl (by omega)
      (by omega),
    ok_bind, List.set_cons_zero, rowOutcome, paperOf, hsamples, column_withRow,
    Picture.line_bytes h, hmissing]
  rfl

theorem paintChannel_ok {stride y base n c : Nat} {planes : List (List UInt8)} {xs : List UInt8}
    (hstride : 3 ≤ stride ∧ stride ≤ 4) (hy : y < 2 ^ 33) (hn : n < 2 ^ 49)
    (hc : planes[c]? = some xs) (hplanes : planes.length = 3) (hbase : xs.length = base)
    (hroom : base + win.width ≤ n) :
    paintChannel p win stride n base y (blocks n planes) c =
      .ok (blocks n (planes.set c (xs ++
        crop win.x win.width ((p.byteStrip? (Picture.channelStrip stride y c)).getD [])))) := by
  obtain ⟨hlt, -⟩ := List.getElem?_eq_some_iff.mp hc
  have hfirst : y * stride ≤ y * 4 := Nat.mul_le_mul_left y hstride.2
  have habove : c * n ≤ 3 * n := Nat.mul_le_mul_right n (by omega)
  have hindex : y * stride + stride - 3 + c = Picture.channelStrip stride y c := by
    unfold Picture.channelStrip
    omega
  rw [paintChannel, usize_ok (by omega), ok_bind, usize_ok (by omega), ok_bind,
    minus_ok (by omega), ok_bind, usize_ok (by omega), ok_bind, usize_ok (by omega), ok_bind,
    usize_ok (by omega), ok_bind, hindex,
    copyRow_ok _ _ (by rw [hplanes]; omega) hc (by omega) (by omega)]

theorem paintPlanar_eq {stride : Nat} (hstride : 3 ≤ stride ∧ stride ≤ 4) (hwin : OnCanvas win)
    (hi : i < win.height) (hcanvas : Painted 3 win.width i canvas) :
    paintPlanar p win stride (win.y + i) (i * win.width) (paperOf .planarRgb8 win.pixels canvas) =
      rowOutcome p (.planar stride) win i canvas := by
  have hroom : i * win.width + win.width ≤ win.pixels := row_le_pixels hi
  have hpixels := hwin.pixels_lt
  have hbottom := hwin.bottom
  have hline : p.line (.planar stride) win i = (List.range 3).map fun c =>
      crop win.x win.width
        ((p.byteStrip? (Picture.channelStrip stride (win.y + i) c)).getD []) := rfl
  have hmissing : p.isMissing (.planar stride) win i = false := rfl
  have h0 := hcanvas 0 (by decide)
  have h1 := hcanvas 1 (by decide)
  have h2 := hcanvas 2 (by decide)
  have hy : win.y + i < 2 ^ 33 := by omega
  rw [paintPlanar, paperOf, ← Window.pixels]
  dsimp only
  rw [usize_ok (by omega), ok_bind, samples_planar, List.foldlM_cons,
    paintChannel_ok (c := 0) hstride hy hpixels rfl rfl h0 hroom, ok_bind, List.foldlM_cons,
    paintChannel_ok (c := 1) hstride hy hpixels rfl rfl h1 hroom, ok_bind, List.foldlM_cons,
    paintChannel_ok (c := 2) hstride hy hpixels rfl rfl h2 hroom, ok_bind, List.foldlM_nil,
    rowOutcome, hmissing, countMissing, if_neg Bool.false_ne_true, ok_bind, paperOf,
    show p.layoutOf (.planar stride) = .planarRgb8 from rfl, samples_planar, column_withRow,
    column_withRow, column_withRow, hline]
  rfl

theorem paintPacked_eq (hwin : OnCanvas win) (hi : i < win.height)
    (hcanvas : Painted 3 win.width i canvas) :
    paintPacked p win (win.y + i) (i * win.width) (paperOf .planarRgb8 win.pixels canvas) =
      rowOutcome p .packed555 win i canvas := by
  have hroom : i * win.width + win.width ≤ win.pixels := row_le_pixels hi
  have hpixels := hwin.pixels_lt
  have hbottom := hwin.bottom
  have hleft := hwin.left
  have h0 := hcanvas 0 (by decide)
  have h1 := hcanvas 1 (by decide)
  have h2 := hcanvas 2 (by decide)
  rw [paintPacked, paperOf, ← Window.pixels]
  dsimp only
  rw [usize_ok (by omega), ok_bind]
  cases hrow : p.wordStrip? (win.y + i) with
  | some row =>
    have hline : p.line .packed555 win i = Scanline.ofWords (crop win.x win.width row) := by
      rw [Picture.line, Picture.scanline?, hrow]
      rfl
    have hmissing : p.isMissing .packed555 win i = false := by
      rw [Picture.isMissing, Picture.scanline?, hrow]
      rfl
    dsimp only
    rw [samples_planar, paintPixels_ok (by omega) row (by omega) h0 h1 h2 (by omega), ok_bind,
      rowOutcome, hmissing, countMissing, if_neg Bool.false_ne_true, ok_bind, paperOf,
      show p.layoutOf .packed555 = .planarRgb8 from rfl, samples_planar, column_withRow,
      column_withRow, column_withRow, hline]
    rfl
  | none =>
    have hline : p.line .packed555 win i = Scanline.blank 3 win.width := by
      rw [Picture.line, Picture.scanline?, hrow]
      rfl
    have hmissing : p.isMissing .packed555 win i = true := by
      rw [Picture.isMissing, Picture.scanline?, hrow]
      rfl
    have hblank : ∀ c < 3, (Scanline.blank 3 win.width).getD c [] =
        List.replicate win.width (0 : UInt8) := by
      intro c hc
      rw [Scanline.blank, List.getD_eq_getElem?_getD, List.getElem?_replicate, if_pos hc]
      rfl
    have hsame : (p.withRow .packed555 win i canvas).samples .planarRgb8 win.pixels =
        canvas.samples .planarRgb8 win.pixels := by
      rw [samples_planar, samples_planar, column_withRow, column_withRow, column_withRow, hline,
        hblank 0 (by decide), hblank 1 (by decide), hblank 2 (by decide)]
      simp only [blocks_cons, fit_append_zeros]
    dsimp only
    rw [rowOutcome, hmissing, paperOf, show p.layoutOf .packed555 = .planarRgb8 from rfl, hsame]
    rfl

/-- How many strips a row has. -/
def Strided (assembly : Assembly) : Prop :=
  ∀ stride, assembly = .planar stride → 3 ≤ stride ∧ stride ≤ 4

/-- Whatever the strips are, a row is painted at its place. -/
theorem paintRow_eq (hs : assembly.isStrips = true) (hstrided : Strided assembly)
    (hwin : OnCanvas win) (hi : i < win.height)
    (hcanvas : Painted (p.layoutOf assembly).planes win.width i canvas) :
    paintRow p assembly win i (paperOf (p.layoutOf assembly) win.pixels canvas) =
      rowOutcome p assembly win i canvas := by
  have hroom : i * win.width + win.width ≤ win.pixels := row_le_pixels hi
  have hpixels := hwin.pixels_lt
  have hbottom := hwin.bottom
  rw [paintRow, usize_ok (by omega), ok_bind, usize_ok (by omega), ok_bind]
  cases assembly with
  | jpeg | fallback => cases hs
  | indexed => exact paintSingle_eq (Or.inl rfl) hwin hi hcanvas
  | gray => exact paintSingle_eq (Or.inr rfl) hwin hi hcanvas
  | planar stride => exact paintPlanar_eq (hstrided stride rfl) hwin hi hcanvas
  | packed555 => exact paintPacked_eq hwin hi hcanvas

theorem painted_withRow (hs : assembly.isStrips = true)
    (hcanvas : Painted (p.layoutOf assembly).planes win.width i canvas) :
    Painted (p.layoutOf assembly).planes win.width (i + 1) (p.withRow assembly win i canvas) := by
  intro c hc
  rw [column_withRow, List.length_append, hcanvas c hc, Picture.getD_line hs hc,
    List.length_map, List.length_range, Nat.succ_mul]

/-- A single plane has as many chunks as the window has rows, unless its rows are empty. -/
theorem chunks_eq (width height : Nat) :
    min (width * height / max width 1) height = if width = 0 then 0 else height := by
  by_cases hwidth : width = 0
  · rw [if_pos hwidth, hwidth, Nat.zero_mul, Nat.zero_div, Nat.zero_min]
  · rw [if_neg hwidth, Nat.max_eq_left (by omega), Nat.mul_div_cancel_left _ (by omega),
      Nat.min_self]

theorem rowsOf_eq (canvas : Canvas) :
    rowsOf assembly win (canvas.samples (p.layoutOf assembly) win.pixels).length =
      Picture.rowsOf assembly win := by
  rw [Canvas.length_samples]
  cases assembly with
  | jpeg | fallback | planar | packed555 => rfl
  | indexed | gray =>
    show min (win.pixels * 1 / max win.width 1) win.height = _
    rw [Nat.mul_one, Window.pixels, chunks_eq, Picture.rowsOf]

/-! ## Counting -/

/-- The canvas behind the first `i` rows of a window. -/
def canvasAt (p : Picture) (assembly : Assembly) (win : Window) (i : Nat) : Canvas :=
  (List.range i).foldl (fun canvas i => p.withRow assembly win i canvas) Canvas.empty

/-- How many rows of a window are counted in front of the check that the stop refuses. -/
def counted (p : Picture) (assembly : Assembly) (win : Window) (stop : Stop) : Nat :=
  p.missingBefore assembly win (stop.rowsBefore (Picture.rowsOf assembly win))

theorem canvasAt_succ (p : Picture) (assembly : Assembly) (win : Window) (i : Nat) :
    canvasAt p assembly win (i + 1) = p.withRow assembly win i (canvasAt p assembly win i) := by
  rw [canvasAt, List.range_succ, List.foldl_append]
  rfl

theorem missing_canvasAt (p : Picture) (assembly : Assembly) (win : Window) (i : Nat) :
    (canvasAt p assembly win i).missing = Int32.ofNat (p.missingBefore assembly win i) := by
  rw [canvasAt, Picture.foldl_withRow]
  exact Int32.zero_add _

theorem painted_canvasAt (hs : assembly.isStrips = true) (i : Nat) :
    Painted (p.layoutOf assembly).planes win.width i (canvasAt p assembly win i) := by
  induction i with
  | zero => exact fun c _ => (Nat.zero_mul _).symm
  | succ i ih =>
    rw [canvasAt_succ]
    exact painted_withRow hs ih

theorem missingBefore_succ (p : Picture) (assembly : Assembly) (win : Window) (i : Nat) :
    p.missingBefore assembly win (i + 1) =
      p.missingBefore assembly win i + if p.isMissing assembly win i then 1 else 0 := by
  rw [Picture.missingBefore, List.range_succ, List.countP_append, List.countP_singleton,
    Picture.missingBefore]

theorem missingBefore_le (p : Picture) (assembly : Assembly) (win : Window) {i j : Nat}
    (h : i ≤ j) : p.missingBefore assembly win i ≤ p.missingBefore assembly win j :=
  (List.range_sublist.mpr h).countP_le

/-- Where too many rows are missing, one of them is the first that cannot be counted. -/
theorem exists_uncounted {rows : Nat} (h : 2 ^ 31 ≤ p.missingBefore assembly win rows) :
    ∃ m < rows, p.missingBefore assembly win m < 2 ^ 31 ∧
      2 ^ 31 ≤ p.missingBefore assembly win (m + 1) := by
  induction rows with
  | zero => exact absurd h (Nat.not_le_of_lt (Nat.two_pow_pos 31))
  | succ rows ih =>
    by_cases hrows : 2 ^ 31 ≤ p.missingBefore assembly win rows
    · obtain ⟨m, hm, hcount⟩ := ih hrows
      exact ⟨m, by omega, hcount⟩
    · exact ⟨rows, Nat.lt_succ_self rows, Nat.lt_of_not_le hrows, h⟩

/-- A row behind fewer than `2 ^ 31` missing ones can be counted as long as it leaves fewer. -/
theorem countMissing_ofNat (isMissing : Bool) {n : Nat} (hn : n < 2 ^ 31) :
    countMissing isMissing (Int32.ofNat n) =
      if n + (if isMissing then 1 else 0) < 2 ^ 31 then
        .ok (if isMissing then Int32.ofNat n + 1 else Int32.ofNat n)
      else .error .counter := by
  unfold countMissing
  rw [Int32.toInt_ofNat_of_lt hn]
  cases isMissing with
  | false => exact (if_pos hn).symm
  | true =>
    have hnext : (n : Int) + 1 < 2 ^ 31 ↔ n + 1 < 2 ^ 31 := by omega
    simp only [if_true, hnext]

theorem rowOutcome_canvasAt (hi : p.missingBefore assembly win i < 2 ^ 31) :
    rowOutcome p assembly win i (canvasAt p assembly win i) =
      if p.missingBefore assembly win (i + 1) < 2 ^ 31 then
        .ok (true, paperOf (p.layoutOf assembly) win.pixels (canvasAt p assembly win (i + 1)))
      else .error .counter := by
  rw [rowOutcome, missing_canvasAt, countMissing_ofNat _ hi, ← missingBefore_succ]
  split
  · rw [ok_bind, canvasAt_succ, ← missing_canvasAt]
    rfl
  · rfl

/-! ## Windows -/

section
variable (hs : assembly.isStrips = true) (hstrided : Strided assembly) (hwin : OnCanvas win)
include hs hstrided hwin

/-- A row of a window leads to the next one, or faults because it cannot be counted. -/
theorem transform_paintRow (hi : i < Picture.rowsOf assembly win)
    (hcount : p.missingBefore assembly win i < 2 ^ 31) (stop : Stop) (checks : Nat)
    (warnings : Array Warning) :
    transform (paintRow p assembly win i) stop
        ⟨checks, warnings, paperOf (p.layoutOf assembly) win.pixels (canvasAt p assembly win i)⟩ =
      if p.missingBefore assembly win (i + 1) < 2 ^ 31 then
        .ok (.ok true ⟨checks, warnings,
          paperOf (p.layoutOf assembly) win.pixels (canvasAt p assembly win (i + 1))⟩)
      else .error .counter := by
  have hheight : i < win.height := by
    unfold Picture.rowsOf at hi
    split at hi <;> first | (split at hi <;> omega) | omega
  unfold transform
  dsimp only
  rw [paintRow_eq hs hstrided hwin hheight (painted_canvasAt hs i), rowOutcome_canvasAt hcount]
  split <;> rfl

/-- As long as it can be counted it leads to the next one. -/
theorem goes_paintRow (hi : i < Picture.rowsOf assembly win)
    (hcount : p.missingBefore assembly win (i + 1) < 2 ^ 31) (stop : Stop) :
    Goes (fun i => transform (paintRow p assembly win i)) stop
      (fun i => paperOf (p.layoutOf assembly) win.pixels (canvasAt p assembly win i)) i :=
  fun checks warnings =>
    have hbefore := missingBefore_le p assembly win (Nat.le_succ i)
    (transform_paintRow hs hstrided hwin hi (Nat.lt_of_le_of_lt hbefore hcount) stop checks
      warnings).trans (if_pos hcount)

/-- A window is painted from strips without a fault when fewer than `2 ^ 31` rows are counted. -/
theorem runs_paintStrips {stop : Stop} (hcount : counted p assembly win stop < 2 ^ 31) :
    Runs (paperOf (p.layoutOf assembly) win.pixels) (paintStrips p assembly win)
      (p.paintStrips assembly win) stop ⟨0, #[], Canvas.empty⟩ fun _ _ => True := by
  have hgoes : ∀ i < stop.rowsBefore (Picture.rowsOf assembly win),
      Goes (fun i => transform (paintRow p assembly win i)) stop
        (fun i => paperOf (p.layoutOf assembly) win.pixels (canvasAt p assembly win i)) i :=
    fun i hi => goes_paintRow hs hstrided hwin (Nat.lt_of_lt_of_le hi (stop.rowsBefore_le _))
      (Nat.lt_of_le_of_lt (missingBefore_le p assembly win hi) hcount) stop
  have hplain : ∀ i < stop.rowsBefore (Picture.rowsOf assembly win),
      Goes (fun i => step (p.paintRow assembly win i)) stop (canvasAt p assembly win) i := by
    intro i _ checks warnings
    rw [canvasAt_succ]
    exact congrArg Except.ok (p.paintRow_apply assembly win i stop _)
  have hrows : Runs (paperOf (p.layoutOf assembly) win.pixels)
      (eachRow (fun i => transform (paintRow p assembly win i)) 0 (Picture.rowsOf assembly win))
      (Job.eachRow (p.paintRow assembly win) 0 (Picture.rowsOf assembly win)) stop
      ⟨0, #[], Canvas.empty⟩ fun _ _ => True := by
    refine ⟨?_, fun _ => trivial⟩
    have hpainted : Job.eachRow (p.paintRow assembly win) 0 (Picture.rowsOf assembly win) stop
        ⟨0, #[], Canvas.empty⟩ = loopEnd _ _ (canvasAt p assembly win) stop := eachRow_ends hplain
    rw [hpainted, resultVia_loopEnd]
    exact Guarded.eachRow_ends hgoes
  refine Runs.look ?_
  show Runs _ (eachRow _ 0 (rowsOf assembly win
    (Canvas.empty.samples (p.layoutOf assembly) win.pixels).length) >>= _) _ stop _ _
  rw [rowsOf_eq]
  refine hrows.bind fun _ t _ => Runs.work ?_
  exact Runs.ite (fun _ => (Runs.warn _).mono fun _ _ _ => trivial) fun _ => Runs.pure trivial

/-- When as many are counted, painting faults at the first row that cannot be counted. -/
theorem paintStrips_faults {stop : Stop} (hcount : 2 ^ 31 ≤ counted p assembly win stop) :
    paintStrips p assembly win stop
      (sessionVia (paperOf (p.layoutOf assembly) win.pixels) ⟨0, #[], Canvas.empty⟩) =
        .error .counter := by
  obtain ⟨m, hm, hbefore, hbehind⟩ := exists_uncounted hcount
  have hcome := Nat.lt_of_lt_of_le hm (stop.rowsBefore_le (Picture.rowsOf assembly win))
  have hgoes : ∀ i < m, Goes (fun i => transform (paintRow p assembly win i)) stop
      (fun i => paperOf (p.layoutOf assembly) win.pixels (canvasAt p assembly win i)) i :=
    fun i hi => goes_paintRow hs hstrided hwin (Nat.lt_trans hi hcome)
      (Nat.lt_of_le_of_lt (missingBefore_le p assembly win hi) hbefore) stop
  have hrows := Guarded.eachRow_faults hm hgoes fun checks =>
    (transform_paintRow hs hstrided hwin hcome hbefore stop checks #[]).trans
      (if_neg (Nat.not_lt_of_le hbehind))
  show (eachRow _ 0 (rowsOf assembly win
    (Canvas.empty.samples (p.layoutOf assembly) win.pixels).length) >>= _) stop _ = _
  rw [rowsOf_eq, Guarded.bind_apply]
  exact congrArg (· >>= _) hrows

end

end

end Pict.Machine
