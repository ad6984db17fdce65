import Pict.Proofs.Decode.Composition
import Pict.Proofs.Plane.Reading

/-!
# Cropping

`Plane.sample?` finds the sample of a channel of a pixel in any layout. A plane
views a picture (`Plane.Views`) when its samples are those that the picture has
behind the window's left upper corner. The samples of a picture do not depend
on the window for strips and for embedded JPEGs. The caller's own decoder knows
no window: what it answers is laid out from the front of every window.

Results:
* `stripPixels_views`, `window_views`: windows onto strips and JPEGs.
* `readWith_crop`: where the whole canvas can be read so can every window onto
  it, and unless the caller's decoder answers it shows the pixels of the canvas
  behind its corner.
* `decoded_not_cropped`: what the caller's decoder answers is not cropped.
-/
namespace Pict

theorem row_add_lt {i j w h : Nat} (hi : i < h) (hj : j < w) : i * w + j < w * h := by
  have := Nat.mul_le_mul_right w (Nat.succ_le_of_lt hi)
  rw [Nat.succ_mul] at this
  rw [Nat.mul_comm w h]
  omega

/-! ## Samples of a plane -/

/-- Where the sample of channel `c` of pixel (`j`, `i`) lies in a plane. -/
def Layout.offset (l : Layout) (width height c j i : Nat) : Nat :=
  match l with
  | .gray8 | .indexed8 | .planarRgb8 => c * (width * height) + (i * width + j)
  | .rgb8 => i * (width * 3) + (j * 3 + c)

theorem Layout.offset_lt (l : Layout) {width height c j i : Nat} (hc : c < l.channels)
    (hj : j < width) (hi : i < height) :
    l.offset width height c j i < width * height * l.bytesPerPixel := by
  have hpixel := row_add_lt hi hj
  cases l with
  | rgb8 =>
    have hc : c < 3 := hc
    have hrow : j * 3 + c < width * 3 := by omega
    have := row_add_lt hi hrow
    show i * (width * 3) + (j * 3 + c) < width * height * 3
    rwa [Nat.mul_right_comm] at this
  | planarRgb8 =>
    show c * (width * height) + (i * width + j) < width * height * 3
    exact row_add_lt hc hpixel
  | gray8 | indexed8 =>
    have hc : c < 1 := hc
    show c * (width * height) + (i * width + j) < width * height * 1
    exact row_add_lt hc hpixel

namespace Plane

/-- The sample of channel `c` of pixel (`j`, `i`). -/
def sample? (plane : Plane) (c j i : Nat) : Option UInt8 :=
  plane.pixels[plane.layout.offset plane.width plane.height c j i]?

/-- The plane of a window shows the samples `f` behind the corner of the window. -/
def Views (plane : Plane) (win : Window) (f : (c x y : Nat) → UInt8) : Prop :=
  ∀ c < plane.layout.channels, ∀ j < win.width, ∀ i < win.height,
    plane.sample? c j i = some (f c (win.x + j) (win.y + i))

end Plane

/-! ## Strips -/

theorem crop_nil {α : Type} [OfNat α 0] (x n : Nat) :
    crop x n ([] : List α) = List.replicate n 0 := by
  simp [crop, fit]

theorem crop_eq_map {α : Type} [OfNat α 0] (x n : Nat) (row : List α) :
    crop x n row = (List.range n).map fun j => row[x + j]?.getD 0 := by
  refine List.ext_getElem? fun j => ?_
  by_cases hj : j < n
  · rw [crop_getElem? _ _ _ _ hj, List.getElem?_map, List.getElem?_range hj, Option.map_some]
  · rw [List.getElem?_eq_none (by simpa using hj), List.getElem?_eq_none (by simpa using hj)]

theorem Canvas.length_plane (canvas : Canvas) (size c : Nat) :
    (canvas.plane size c).length = size :=
  length_fit _ _

namespace Picture

/-- The sample of channel `c` of pixel (`x`, `y`), black where the strips have none. -/
def stripSample (p : Picture) (assembly : Assembly) (c x y : Nat) : UInt8 :=
  match assembly with
  | .indexed | .gray => ((p.byteStrip? y).getD [])[x]?.getD 0
  | .packed555 => ([red5, green5, blue5].getD c fun _ => 0) (((p.wordStrip? y).getD [])[x]?.getD 0)
  | .planar stride => ((p.byteStrip? (channelStrip stride y c)).getD [])[x]?.getD 0
  | .jpeg | .fallback => 0

variable {p : Picture} {assembly : Assembly} {win : Window} {c : Nat}

theorem line_bytes (h : assembly = .indexed ∨ assembly = .gray) (i : Nat) :
    p.line assembly win i = [crop win.x win.width ((p.byteStrip? (win.y + i)).getD [])] := by
  have hplanes : (p.layoutOf assembly).planes = 1 := by
    rcases h with rfl | rfl <;> rfl
  have hscan : p.scanline? assembly win i =
      (p.byteStrip? (win.y + i)).map fun row => [crop win.x win.width row] := by
    rcases h with rfl | rfl <;> rfl
  rw [line, hscan, hplanes]
  cases p.byteStrip? (win.y + i) with
  | none => exact congrArg (fun row => [row]) (crop_nil _ _).symm
  | some row => rfl

theorem line_words (i : Nat) : p.line .packed555 win i =
    Scanline.ofWords (crop win.x win.width ((p.wordStrip? (win.y + i)).getD [])) := by
  unfold line scanline?
  cases p.wordStrip? (win.y + i) with
  | none =>
    show Scanline.blank 3 win.width = Scanline.ofWords (crop win.x win.width [])
    have hred : red5 0 = 0 := rfl
    have hgreen : green5 0 = 0 := rfl
    have hblue : blue5 0 = 0 := rfl
    simp only [Scanline.ofWords, crop_nil, List.map_replicate, hred, hgreen, hblue]
    rfl
  | some row => rfl

theorem getD_line (hs : assembly.isStrips = true) (hc : c < (p.layoutOf assembly).planes)
    (i : Nat) : (p.line assembly win i).getD c [] =
      (List.range win.width).map fun j => p.stripSample assembly c (win.x + j) (win.y + i) := by
  cases assembly with
  | jpeg | fallback => cases hs
  | indexed =>
    obtain rfl : c = 0 := Nat.lt_one_iff.mp hc
    rw [line_bytes (Or.inl rfl)]
    exact crop_eq_map _ _ _
  | gray =>
    obtain rfl : c = 0 := Nat.lt_one_iff.mp hc
    rw [line_bytes (Or.inr rfl)]
    exact crop_eq_map _ _ _
  | planar stride =>
    have hc : c < 3 := hc
    have hline : (p.line (.planar stride) win i).getD c [] = crop win.x win.width
        ((p.byteStrip? (channelStrip stride (win.y + i) c)).getD []) := by
      simp [line, scanline?, List.getD_eq_getElem?_getD, hc]
    rw [hline]
    exact crop_eq_map _ _ _
  | packed555 =>
    have hc : c < 3 := hc
    rw [line_words, crop_eq_map]
    obtain rfl | rfl | rfl : c = 0 ∨ c = 1 ∨ c = 2 := by omega
    all_goals exact List.map_map

theorem layoutOf_strips (hs : assembly.isStrips = true) :
    (p.layoutOf assembly).planes = (p.layoutOf assembly).channels ∧
      (p.layoutOf assembly).pitch = 1 ∧
      ∀ width height c j i, (p.layoutOf assembly).offset width height c j i =
        c * (width * height) + (i * width + j) := by
  cases assembly with
  | jpeg | fallback => cases hs
  | indexed | gray | planar | packed555 => exact ⟨rfl, rfl, fun _ _ _ _ _ => rfl⟩

/-- The planes of the first `n` rows of a window: the samples of the strips in these rows, and black in
all others. -/
theorem samples_lines (hs : assembly.isStrips = true) {canvas : Canvas} {n i j : Nat}
    (hlines : canvas.lines.toList = (List.range' 0 n).map (p.line assembly win))
    (hc : c < (p.layoutOf assembly).planes) (hi : i < win.height) (hj : j < win.width) :
    (canvas.samples (p.layoutOf assembly) win.pixels)[c * win.pixels + (i * win.width + j)]? =
      some (if i < n then p.stripSample assembly c (win.x + j) (win.y + i) else 0) := by
  have hpixel : i * win.width + j < win.pixels := row_add_lt hi hj
  have hwidth : ∀ line ∈ canvas.lines.toList, (line.getD c []).length = win.width := by
    intro line hmem
    rw [hlines] at hmem
    obtain ⟨k, -, rfl⟩ := List.mem_map.mp hmem
    rw [getD_line hs hc, List.length_map, List.length_range]
  rw [Canvas.samples, (layoutOf_strips (p := p) hs).2.1, Nat.mul_one,
    getElem?_blocks (fun c _ => Canvas.length_plane _ _ c) hpixel, List.getElem?_range hc,
    Option.bind_some, Canvas.plane, fit_getElem? _ _ _ hpixel, getElem?_blocks hwidth hj, hlines,
    List.getElem?_map]
  split
  · rename_i hin
    rw [List.getElem?_range' hin, Nat.one_mul, Nat.zero_add, Option.map_some, Option.bind_some,
      getD_line hs hc, List.getElem?_map, List.getElem?_range hj, Option.map_some, Option.getD_some]
  · rename_i hout
    rw [List.getElem?_eq_none (by simpa using hout)]
    rfl

theorem rowsOf_strips (hs : assembly.isStrips = true) (hwidth : 0 < win.width) :
    rowsOf assembly win = win.height := by
  cases assembly with
  | jpeg | fallback => cases hs
  | indexed | gray => exact if_neg (Nat.ne_of_gt hwidth)
  | planar | packed555 => rfl

/-- A window onto strips shows the samples of the strips behind its corner. -/
theorem stripPixels_views (hs : assembly.isStrips = true) {plane : Plane}
    (hpixels : plane.pixels = p.stripPixels assembly win)
    (hlayout : plane.layout = p.layoutOf assembly) (hwidth : plane.width = win.width)
    (hheight : plane.height = win.height) : plane.Views win (p.stripSample assembly) := by
  intro c hc j hj i hi
  obtain ⟨hplanes, -, hoffset⟩ := layoutOf_strips (p := p) hs
  have hrows : rowsOf assembly win = win.height := rowsOf_strips hs (Nat.zero_lt_of_lt hj)
  rw [hlayout, ← hplanes] at hc
  rw [Plane.sample?, hpixels, hlayout, hwidth, hheight, hoffset, stripPixels, hrows]
  exact (samples_lines hs rfl hc hi hj).trans (congrArg some (if_pos hi))

end Picture

/-! ## Embedded JPEGs -/

namespace Mosaic

/-- The sample of channel `c` of pixel (`x`, `y`) of a stack of images, black outside of it. -/
def sample (images : List RgbImage) (c x y : Nat) : UInt8 :=
  if x * 3 + c < width images * 3 then
    (samples images)[y * (width images * 3) + (x * 3 + c)]?.getD 0
  else 0

/-- Byte `k` of row `i` of a window onto a stack of images is the one behind the corner of the window,
black outside of the stack. -/
theorem getElem?_window (images : List RgbImage) (win : Window) {i k : Nat} (hi : i < win.height)
    (hk : k < win.width * 3) : (window images win)[i * (win.width * 3) + k]? =
      some (if win.x * 3 + k < width images * 3 then
        (samples images)[(win.y + i) * (width images * 3) + (win.x * 3 + k)]?.getD 0
      else 0) := by
  rw [window, getElem?_blocks (fun _ _ => length_row _ _ _ _) hk, List.getElem?_range hi,
    Option.bind_some, row, fit_getElem? _ _ _ hk, Array.getElem?_toList, Array.getElem?_extract]
  congr 1
  split
  · rw [if_pos (by omega), Nat.add_assoc]
  · rename_i hlen
    split
    · rename_i hin
      -- the row is on the stack, so only the end of the samples can cut it
      rw [Array.getElem?_eq_none (by omega)]
    · rfl

/-- A window onto a stack of images shows its samples behind its corner. -/
theorem window_views {images : List RgbImage} {win : Window} {plane : Plane}
    (hpixels : plane.pixels = window images win) (hlayout : plane.layout = .rgb8)
    (hwidth : plane.width = win.width) : plane.Views win (sample images) := by
  intro c hc j hj i hi
  rw [hlayout] at hc
  have hc : c < 3 := hc
  have hk : j * 3 + c < win.width * 3 := by omega
  have hoffset : plane.layout.offset plane.width plane.height c j i =
      i * (win.width * 3) + (j * 3 + c) := by
    rw [hlayout, hwidth]
    rfl
  have hplace : (win.x + j) * 3 + c = win.x * 3 + (j * 3 + c) := by omega
  rw [Plane.sample?, hoffset, hpixels, getElem?_window images win hi hk, sample, hplace]

end Mosaic

/-! ## Reading -/

namespace Document

variable {codec : Codec} {doc : Document} {legacy : Bool} {fallback : Option FallbackDecoder}
  {win : Window}

/-- The window of a canvas holds all others, so that it also takes more memory. -/
theorem size_planOf_le (hwin : win.fits doc.picture.width doc.picture.height = true) :
    (doc.planOf ⟨win, legacy, fallback⟩).size ≤
      (doc.planOf ⟨doc.fullWindow, legacy, fallback⟩).size := by
  simp only [Window.fits, Bool.and_eq_true, decide_eq_true_eq] at hwin
  show win.width * win.height * _ ≤ doc.picture.width * doc.picture.height * _
  exact Nat.mul_le_mul_right _ (Nat.mul_le_mul (by omega) (by omega))

theorem views_black {plane : Plane}
    (hpixels : plane.pixels =
      List.replicate (plane.width * plane.height * plane.layout.bytesPerPixel) 0)
    (hwidth : plane.width = win.width) (hheight : plane.height = win.height) :
    plane.Views win fun _ _ _ => 0 := by
  intro c hc j hj i hi
  have hlt := plane.layout.offset_lt hc hj hi
  rw [Plane.sample?, hpixels, List.getElem?_replicate, hwidth, hheight, if_pos hlt]

/-- Whether the caller's decoder is asked, and answers. -/
def IsAnswered (doc : Document) (legacy : Bool) (fallback : Option FallbackDecoder) : Prop :=
  doc.picture.assembly legacy = .fallback ∧ (doc.answer fallback).isSome

/-- Unless the caller's decoder answers there are samples that every window shows behind its
corner, if the embedded JPEGs decode. -/
theorem exists_views {pixels : List UInt8}
    (hfull : doc.painted codec ⟨doc.fullWindow, legacy, fallback⟩ = .ok pixels)
    (hanswer : ¬ doc.IsAnswered legacy fallback) :
    ∃ f, ∀ win, ∃ pixels, doc.painted codec ⟨win, legacy, fallback⟩ = .ok pixels ∧
      (doc.planeOf ⟨win, legacy, fallback⟩ pixels).Views win f := by
  have hstrips : ∀ assembly, doc.picture.assembly legacy = assembly → assembly.isStrips = true →
      ∀ win, (doc.planeOf ⟨win, legacy, fallback⟩ (doc.picture.stripPixels assembly win)).Views win
        (doc.picture.stripSample assembly) := by
    rintro assembly rfl hs win
    exact Picture.stripPixels_views hs rfl rfl rfl rfl
  unfold painted at hfull ⊢
  unfold IsAnswered at hanswer
  cases hassembly : doc.picture.assembly legacy with
  | jpeg =>
    simp only [hassembly] at hfull ⊢
    unfold Mosaic.paint at hfull ⊢
    cases himages : Mosaic.images codec
        (Mosaic.spans doc.source doc.picture.jpegOffsets.toList) with
    | error e =>
      rw [himages] at hfull
      cases hfull
    | ok images =>
      refine ⟨Mosaic.sample images, fun win => ⟨_, rfl, ?_⟩⟩
      have hlayout : (doc.planeOf ⟨win, legacy, fallback⟩ (Mosaic.window images win)).layout =
          .rgb8 := by
        show doc.picture.layoutOf (doc.picture.assembly legacy) = _
        rw [hassembly]
        rfl
      exact Mosaic.window_views rfl hlayout rfl
  | fallback =>
    have hnone : doc.answer fallback = none := by
      rw [← Option.not_isSome_iff_eq_none]
      exact fun h => hanswer ⟨hassembly, h⟩
    simp only [hassembly, hnone]
    exact ⟨fun _ _ _ => 0, fun win => ⟨_, rfl, views_black rfl rfl rfl⟩⟩
  | indexed =>
    simp only [hassembly]
    exact ⟨_, fun win => ⟨_, rfl, hstrips _ hassembly rfl win⟩⟩
  | gray =>
    simp only [hassembly]
    exact ⟨_, fun win => ⟨_, rfl, hstrips _ hassembly rfl win⟩⟩
  | planar stride =>
    simp only [hassembly]
    exact ⟨_, fun win => ⟨_, rfl, hstrips _ hassembly rfl win⟩⟩
  | packed555 =>
    simp only [hassembly]
    exact ⟨_, fun win => ⟨_, rfl, hstrips _ hassembly rfl win⟩⟩

/-- Where the whole canvas can be read, so can every window onto it. Unless the caller's decoder
answers, a window shows the samples of the canvas behind its corner, channel by channel. What
the caller's decoder answers is laid out for the size of the window, wherever its corner is. -/
theorem readWith_crop {full : Plane}
    (hwin : win.fits doc.picture.width doc.picture.height = true)
    (hfull : (doc.readWith codec ⟨doc.fullWindow, legacy, fallback⟩ .never).report.result =
      .ok full) :
    ∃ part, (doc.readWith codec ⟨win, legacy, fallback⟩ .never).report.result = .ok part ∧
      part.layout = full.layout ∧ part.width = win.width ∧ part.height = win.height ∧
      (¬ doc.IsAnswered legacy fallback →
        ∀ c < part.layout.channels, ∀ j < win.width, ∀ i < win.height,
          (part.sample? c j i).isSome ∧
            part.sample? c j i = full.sample? c (win.x + j) (win.y + i)) ∧
      (doc.IsAnswered legacy fallback →
        (doc.readWith codec ⟨⟨0, 0, win.width, win.height⟩, legacy, fallback⟩ .never).report.result =
          .ok part) := by
  obtain ⟨-, hmemory, pixels, hpixels, rfl⟩ := readWith_eq_ok.mp hfull
  have hallowed : Limits.allows doc.limits.memory (doc.planOf ⟨win, legacy, fallback⟩).size :=
    fun limit hlimit => Nat.le_trans (size_planOf_le hwin) (hmemory limit hlimit)
  have hcorner := hwin
  simp only [Window.fits, Bool.and_eq_true, decide_eq_true_eq] at hcorner
  by_cases hanswer : doc.IsAnswered legacy fallback
  · have hpainted : ∀ win, doc.painted codec ⟨win, legacy, fallback⟩ =
        .ok (Fallback.lay ((doc.answer fallback).getD []) 0
          (List.replicate (doc.planOf ⟨win, legacy, fallback⟩).size 0)) := by
      intro win
      unfold painted
      simp only [hanswer.1]
    refine ⟨_, readWith_eq_ok.mpr ⟨hwin, hallowed, _, hpainted win, rfl⟩, rfl, rfl, rfl,
      fun hnone => absurd hanswer hnone, fun _ => ?_⟩
    refine readWith_eq_ok.mpr ⟨?_, hallowed, _, hpainted _, rfl⟩
    simp only [Window.fits, Bool.and_eq_true, decide_eq_true_eq]
    omega
  · obtain ⟨f, hf⟩ := exists_views hpixels hanswer
    obtain ⟨part, hpart, hviews⟩ := hf win
    obtain ⟨pixels', hpixels', hviewsFull⟩ := hf doc.fullWindow
    obtain rfl := Except.ok.inj (hpixels.symm.trans hpixels')
    refine ⟨_, readWith_eq_ok.mpr ⟨hwin, hallowed, _, hpart, rfl⟩, rfl, rfl, rfl,
      fun _ c hc j hj i hi => ?_, fun hasked => absurd hasked hanswer⟩
    have hx : win.x + j < doc.fullWindow.width := by
      show _ < doc.picture.width
      omega
    have hy : win.y + i < doc.fullWindow.height := by
      show _ < doc.picture.height
      omega
    rw [hviews c hc j hj i hi, hviewsFull c hc _ hx _ hy]
    show _ ∧ some (f c _ _) = some (f c (0 + _) (0 + _))
    rw [Nat.zero_add, Nat.zero_add]
    exact ⟨rfl, rfl⟩

/-- Two rows of three pixels with a strip for each channel. -/
def planarDocument : Document :=
  { source := #[]
    limits := .unlimited
    picture :=
      { Picture.start ⟨3, 2, .two, none⟩ with
        strips := #[.bytes [1, 2, 3], .bytes [4, 5, 6], .bytes [7, 8, 9],
          .bytes [11, 12, 13], .bytes [14, 15], .bytes [17, 18, 19]] } }

/-- The last two pixels of the second row, of which one has no green sample. -/
theorem readWith_planarDocument :
    ∃ full part,
      (planarDocument.readWith (fun _ => none) ⟨planarDocument.fullWindow, false, none⟩
          .never).report.result = .ok full ∧
      (planarDocument.readWith (fun _ => none) ⟨⟨1, 1, 2, 1⟩, false, none⟩ .never).report.result =
        .ok part ∧
      part.pixels = [12, 13, 15, 0, 18, 19] ∧ part.layout = full.layout ∧
      ∀ c < part.layout.channels, ∀ j < 2, ∀ i < 1,
        (part.sample? c j i).isSome ∧ part.sample? c j i = full.sample? c (1 + j) (1 + i) := by
  have hfull : (planarDocument.readWith (fun _ => none) ⟨planarDocument.fullWindow, false, none⟩
      .never).report.result =
        .ok ⟨[1, 2, 3, 11, 12, 13, 4, 5, 6, 14, 15, 0, 7, 8, 9, 17, 18, 19], 3, 2, .planarRgb8,
          false⟩ := by rfl
  have hpart : (planarDocument.readWith (fun _ => none) ⟨⟨1, 1, 2, 1⟩, false, none⟩
      .never).report.result = .ok ⟨[12, 13, 15, 0, 18, 19], 2, 1, .planarRgb8, false⟩ := by rfl
  have hwin : (Window.mk 1 1 2 1).fits planarDocument.picture.width planarDocument.picture.height =
      true := by rfl
  obtain ⟨part, hread, hlayout, -, -, hcrop, -⟩ := readWith_crop hwin hfull
  have hasked : ¬ planarDocument.IsAnswered false none := fun h => nomatch h.2
  refine ⟨_, part, hfull, hread, ?_, hlayout, hcrop hasked⟩
  obtain rfl := Except.ok.inj (hread.symm.trans hpart)
  rfl

open Decode (writePicture sampleHeader)

/-- A picture of one row of two pixels that has no strips. -/
def blankPicture : Source := (writePicture sampleHeader [] 0 []).toArray

theorem decode_blankPicture :
    (decode blankPicture .unlimited .never).result =
      .ok ⟨blankPicture, .unlimited, Picture.start sampleHeader.info⟩ := by
  have h := Decode.decode_written sampleHeader [] 0 [] trivial
  rwa [show Element.rasters [] = [] from rfl, Picture.behind_nil] at h

/-- Not every window shows the pixels of the canvas behind its corner: two pixels that the
caller's decoder answers for the whole canvas start over in the window of the second one. -/
theorem decoded_not_cropped :
    ¬ ∀ (source : Source) (limits : Limits) (stop : Stop) (doc : Document) (codec : Codec)
        (legacy : Bool) (fallback : Option FallbackDecoder) (win : Window) (full : Plane),
      (decode source limits stop).result = .ok doc →
      win.fits doc.picture.width doc.picture.height = true →
      (doc.readWith codec ⟨doc.fullWindow, legacy, fallback⟩ .never).report.result = .ok full →
      ∃ part, (doc.readWith codec ⟨win, legacy, fallback⟩ .never).report.result = .ok part ∧
        ∀ c < part.layout.channels, ∀ j < win.width, ∀ i < win.height,
          part.sample? c j i = full.sample? c (win.x + j) (win.y + i) := by
  intro hall
  let fallback : Option FallbackDecoder := some fun _ => some [[1, 2]]
  let doc : Document := ⟨blankPicture, .unlimited, Picture.start sampleHeader.info⟩
  have hfull : (doc.readWith (fun _ => none) ⟨doc.fullWindow, false, fallback⟩
      .never).report.result = .ok ⟨[1, 2], 2, 1, .gray8, true⟩ := by rfl
  have hpart : (doc.readWith (fun _ => none) ⟨⟨1, 0, 1, 1⟩, false, fallback⟩
      .never).report.result = .ok ⟨[1], 1, 1, .gray8, true⟩ := by rfl
  obtain ⟨part, hread, hcrop⟩ := hall blankPicture .unlimited .never doc (fun _ => none) false
    fallback ⟨1, 0, 1, 1⟩ _ decode_blankPicture rfl hfull
  obtain rfl := Except.ok.inj (hread.symm.trans hpart)
  exact absurd (hcrop 0 (by decide) 0 (by decide) 0 (by decide)) (by decide)

end Document
end Pict
