import Mathlib.Data.List.GetD
import Pict.Proofs.RoundTrip.Indexed

/-!
# Bitmaps under one another

A picture of several bitmaps of one size, its bands, keeps the strips of all of them, but its
declared height is that of one band. What a read delivers depends on whether the number
of strips counts as the height, and on whether it looks like three or four strips to each row.

Results:
* `stacks_iff`: for which numbers of bands and heights the strips count.
* `height_bands`, `assembly_bands`: how high a picture of bands is, and how it is assembled.
* `decode_bands`: what every window onto a picture of bands is read as.
-/
namespace Pict

/-! ## Numbers of bands -/

/-- Whether a picture of so many bands is as high as all of them together. -/
def Stacks (bands height : Nat) : Prop :=
  bands = 1 ∨ 5 ≤ bands ∧ (bands % 3 = 1 ∧ 3 ≤ height ∨ bands % 3 = 2 ∧ 2 ≤ height)

instance (bands height : Nat) : Decidable (Stacks bands height) :=
  inferInstanceAs (Decidable (_ ∨ _ ∧ _))

theorem third_mod (bands : Nat) {height : Nat} (h : 0 < height) :
    bands * height / 3 % height = bands % 3 * height / 3 := by
  have hsplit : bands * height = 3 * (bands / 3 * height) + bands % 3 * height := by
    rw [← Nat.mul_assoc, ← Nat.add_mul, Nat.div_add_mod]
  have hlt : bands % 3 * height / 3 < height := by
    have hle : bands % 3 * height ≤ 2 * height :=
      Nat.mul_le_mul_right _ (Nat.le_of_lt_succ (Nat.mod_lt _ (by decide)))
    omega
  rw [hsplit, Nat.mul_add_div (by decide), Nat.mul_comm, Nat.mul_add_mod, Nat.mod_eq_of_lt hlt]

/-- More than four bands stack unless a third of their rows comes out as whole bands. -/
theorem stacks_iff (bands : Nat) {height : Nat} (h : 0 < height) :
    Stacks bands height ↔
      bands = 1 ∨ 4 < bands ∧ bands * height / 3 % height ≠ 0 := by
  have hmod : bands % 3 < 3 := Nat.mod_lt _ (by decide)
  rw [third_mod bands h, Stacks]
  generalize bands % 3 = r at hmod
  obtain rfl | rfl | rfl : r = 0 ∨ r = 1 ∨ r = 2 := by omega
  · rw [Nat.zero_mul]
    omega
  · omega
  · omega

/-! ## Bands -/

/-- A bitmap that takes up so many rows, and brings no colors along. -/
structure RasterBlock.IsBand (r : RasterBlock) (version : Version) (width height rowBytes : Nat) :
    Prop where
  spans : r.opening.Spans version width height rowBytes
  format : r.opening.format = .bitmap
  plain : r.opening.palette? = none
  count : r.rows.length = height

def writeBands (h : HeaderBlock) (bands : List RasterBlock) (padding ending : UInt8)
    (tail : List UInt8) : List UInt8 :=
  Decode.writePicture h (bands.map fun r => ⟨padding, .raster r⟩) ending tail

section
variable {version : Version} {width height rowBytes : Nat} {bands : List RasterBlock}

theorem RasterBlock.IsBand.refine {r : RasterBlock} (h : r.IsBand version width height rowBytes)
    (canvas : Info) : r.refine canvas = { canvas with width := width, height := height } := by
  have hwidth := h.spans.width_pos
  have hheight := h.spans.height_pos
  rw [RasterBlock.refine, h.spans.width_eq, h.spans.height_eq, Header.override, Header.override,
    if_pos (by omega), if_pos (by omega), Int.toNat_natCast, Int.toNat_natCast]

theorem RasterBlock.IsBand.rowBytes_lt {r : RasterBlock}
    (h : r.IsBand version width height rowBytes) : rowBytes < 0x4000 := by
  have hspans := h.spans
  have hbitmap := h.format
  rw [← hspans.rowBytes_eq]
  cases hopening : r.opening with
  | bitmap | indexed => exact Nat.mod_lt _ (by decide)
  | direct base bounds packing pixels placing =>
    -- direct pixels have sixteen or thirty-two bits
    have hvalid := hspans.valid
    rw [hopening] at hvalid hbitmap
    have hsize : pixels.format.pixelSize = 1 := congrArg Format.pixelSize hbitmap
    rcases hvalid with h16 | h32 <;> omega

variable (hbands : ∀ r ∈ bands, r.IsBand version width height rowBytes)
include hbands

theorem length_bandRows : (bands.flatMap (·.rows)).length = bands.length * height :=
  length_blocks fun r hr => (hbands r hr).count

theorem validAll_bands
    (hcomplete : ∀ row ∈ bands.flatMap (·.rows), Format.bitmap.Complete rowBytes row)
    (padding : UInt8) : ∀ canvas : Info, canvas.version = version →
      Element.ValidAll canvas (bands.map fun r => ⟨padding, .raster r⟩) := by
  induction bands with
  | nil => exact fun _ _ => trivial
  | cons r bands ih =>
    intro canvas hversion
    have hr := hbands r List.mem_cons_self
    have hrefine := hr.refine canvas
    have hrowBytes : r.rowBytes canvas = rowBytes := by
      rw [RasterBlock.rowBytes, hrefine, hr.spans.rowBytes_eq]
    have hvalid : r.Valid canvas :=
      { opening := by
          rw [hversion]
          exact hr.spans.valid
        count := by rw [hr.count, hrefine]
        rows := by
          intro row hrow
          rw [hr.format, hrowBytes]
          exact hcomplete row (List.mem_flatMap.mpr ⟨r, List.mem_cons_self, hrow⟩)
        decodable := fun _ => by
          rw [hr.format]
          exact Or.inl (by decide) }
    refine ⟨hvalid, ih (fun r hr => hbands r (List.mem_cons_of_mem _ hr)) ?_ (r.refine canvas) ?_⟩
    · intro row hrow
      rw [List.flatMap_cons] at hcomplete
      exact hcomplete row (List.mem_append_right _ hrow)
    · rw [hrefine]
      exact hversion

theorem stripsOf_bands : ∀ canvas : Info,
    RasterBlock.stripsOf canvas bands =
      (bands.flatMap (·.rows)).flatMap (Format.bitmap.rowStrips width rowBytes) := by
  induction bands with
  | nil => exact fun _ => rfl
  | cons r bands ih =>
    intro canvas
    have hr := hbands r List.mem_cons_self
    have hstrips : r.strips canvas = r.rows.flatMap (Format.bitmap.rowStrips width rowBytes) := by
      rw [RasterBlock.strips, RasterBlock.rowBytes, hr.refine canvas, hr.format,
        hr.spans.rowBytes_eq]
    rw [RasterBlock.stripsOf, hstrips, ih (fun r hr => hbands r (List.mem_cons_of_mem _ hr)),
      List.flatMap_cons, List.flatMap_append]

theorem refineAll_bands (hne : bands ≠ []) : ∀ canvas : Info,
    RasterBlock.refineAll bands canvas = { canvas with width := width, height := height } := by
  induction bands with
  | nil => exact absurd rfl hne
  | cons r bands ih =>
    intro canvas
    rw [RasterBlock.refineAll, List.foldl_cons, (hbands r List.mem_cons_self).refine canvas]
    cases bands with
    | nil => rfl
    | cons r' bands =>
      exact ih (fun r hr => hbands r (List.mem_cons_of_mem _ hr)) (List.cons_ne_nil _ _) _

theorem palettes_bands : bands.filterMap (·.opening.palette?) = [] := by
  rw [List.filterMap_eq_nil_iff]
  exact fun r hr => (hbands r hr).plain

theorem decode_writeBands (h : HeaderBlock) (hversion : h.version = version) (hne : bands ≠ [])
    (hcomplete : ∀ row ∈ bands.flatMap (·.rows), Format.bitmap.Complete rowBytes row)
    (padding ending : UInt8) (tail : List UInt8) :
    ∃ p, (decode (writeBands h bands padding ending tail).toArray .unlimited .never).result =
        .ok ⟨(writeBands h bands padding ending tail).toArray, .unlimited, p⟩ ∧
      p.width = width ∧ p.declaredHeight = height ∧ p.palette = none ∧ p.jpegOffsets = #[] ∧
      p.strips = ((bands.flatMap (·.rows)).flatMap
        (Format.bitmap.rowStrips p.width rowBytes)).toArray := by
  have hvalid := validAll_bands hbands hcomplete padding h.info hversion
  have hrasters : Element.rasters (bands.map fun r => ⟨padding, .raster r⟩) = bands := by
    rw [Element.rasters, List.filterMap_map]
    exact List.filterMap_some
  have hdecode := Decode.decode_written h _ ending tail hvalid
  rw [hrasters] at hdecode
  have hcanvas := refineAll_bands hbands hne (Picture.start h.info).canvas
  have hwidth : ((Picture.start h.info).behind bands).width = width := by
    rw [Picture.behind, hcanvas]
  refine ⟨_, hdecode, hwidth, ?_, ?_, rfl, ?_⟩
  · rw [Picture.behind, hcanvas]
  · rw [Picture.behind, palettes_bands hbands]
    rfl
  · rw [hwidth, Picture.behind, stripsOf_bands hbands]
    exact Array.empty_append

end

/-! ## What a picture of bands is taken for -/

theorem Bounds.height_lt (b : Bounds) : b.height < 0x10000 := by
  have htop := b.top.toNat_lt
  have hbottom := b.bottom.toNat_lt
  unfold Bounds.height signed
  split <;> split <;> omega

/-- How high a picture of bands is taken for. -/
def bandedHeight (bands height : Nat) : Nat :=
  if Stacks bands height then min (bands * height) 0xFFFFFFFF else height

/-- How many strips of a picture of bands are taken for one row. A number of rows beyond
what a height can be may come out as a multiple of the largest height. -/
def bandedStride (bands height : Nat) : Nat :=
  if bands = 3 ∨ Stacks bands height ∧ bands * height = 3 * 0xFFFFFFFF then 3
  else if bands = 4 ∨ Stacks bands height ∧ bands * height = 4 * 0xFFFFFFFF then 4
  else 1

theorem Stacks.ne {bands height : Nat} (h : Stacks bands height) : bands ≠ 3 ∧ bands ≠ 4 := by
  unfold Stacks at h
  omega

/-- Bands that stack are not taken for channels, unless there are more rows than a height can be. -/
theorem bandedStride_of_stacks {bands height : Nat} (h : Stacks bands height)
    (hle : bands * height ≤ 0xFFFFFFFF) : bandedStride bands height = 1 := by
  have hne := h.ne
  unfold bandedStride
  rw [if_neg (by omega), if_neg (by omega)]

section
variable {p : Picture} {bands : Nat}

theorem bandedHeight_pos (hbands : 0 < bands) (hpos : 0 < p.declaredHeight) :
    0 < bandedHeight bands p.declaredHeight := by
  have := Nat.mul_pos hbands hpos
  unfold bandedHeight
  split <;> omega

theorem height_bands (hbands : 0 < bands) (hpos : 0 < p.declaredHeight)
    (hmax : p.declaredHeight < 0x10000) (hsize : p.strips.size = bands * p.declaredHeight) :
    p.height = bandedHeight bands p.declaredHeight := by
  have hstacks := stacks_iff bands hpos
  have hmore : p.declaredHeight * 4 < bands * p.declaredHeight ↔ 4 < bands := by
    rw [Nat.mul_comm bands]
    exact Nat.mul_lt_mul_left hpos
  have hne : p.declaredHeight ≠ 0 := Nat.pos_iff_ne_zero.mp hpos
  simp only [Picture.height, hsize, hmore, hne, false_or, bandedHeight]
  by_cases hone : bands = 1
  · subst hone
    rw [if_neg fun h => absurd h.1 (by decide), if_pos (hstacks.mpr (Or.inl rfl))]
    omega
  · simp only [hone, false_or] at hstacks
    exact if_congr hstacks.symm rfl rfl

/-- Strips are taken for channels where there are three or four of them to each row. -/
theorem bandedStride_eq (hbands : 0 < bands) {height : Nat} (hpos : 0 < height) :
    bandedStride bands height =
      if bands * height = bandedHeight bands height * 3 then 3
      else if bands * height = bandedHeight bands height * 4 then 4
      else 1 := by
  have hcount := Nat.mul_pos hbands hpos
  have hsame : ∀ n, bands = n ↔ bands * height = height * n := by
    intro n
    rw [Nat.mul_comm height]
    exact (Nat.mul_left_inj (Nat.pos_iff_ne_zero.mp hpos)).symm
  unfold bandedStride bandedHeight
  by_cases hstacks : Stacks bands height
  · simp only [hstacks, hstacks.ne.1, hstacks.ne.2, true_and, false_or, if_true]
    generalize bands * height = n at hcount
    split_ifs <;> omega
  · simp only [hstacks, false_and, or_false, if_false, hsame]

/-- Without colors of their own bands are gray, unless their strips are taken for channels. -/
theorem assembly_bands (hbands : 0 < bands) (hpos : 0 < p.declaredHeight)
    (hmax : p.declaredHeight < 0x10000) (hsize : p.strips.size = bands * p.declaredHeight)
    (hpalette : p.palette = none) (hjpeg : p.jpegOffsets = #[]) {first : List UInt8}
    (hfirst : p.strips[0]? = some (.bytes first)) :
    p.assembly false =
      if bandedStride bands p.declaredHeight = 1 then .gray
      else .planar (bandedStride bands p.declaredHeight) := by
  have hheight := height_bands hbands hpos hmax hsize
  have hne := Nat.pos_iff_ne_zero.mp (bandedHeight_pos hbands hpos)
  have hstrips : p.assembly false = p.stripAssembly (.bytes first) := by
    rw [Picture.assembly, hjpeg, if_neg (by decide), hfirst]
    rfl
  rw [hstrips, Picture.stripAssembly, hpalette, hheight, hsize, bandedStride_eq hbands hpos]
  simp only [Strip.isWords, Bool.false_eq_true, if_false, Option.isSome_none, hne, ne_eq,
    not_false_eq_true, true_and]
  by_cases h3 : bands * p.declaredHeight = bandedHeight bands p.declaredHeight * 3
  · rw [if_pos (Or.inl h3), if_pos h3, h3, Nat.mul_div_cancel_left _ (Nat.pos_iff_ne_zero.mpr hne)]
    rfl
  · by_cases h4 : bands * p.declaredHeight = bandedHeight bands p.declaredHeight * 4
    · rw [if_pos (Or.inr h4), if_neg h3, if_pos h4, h4,
        Nat.mul_div_cancel_left _ (Nat.pos_iff_ne_zero.mpr hne)]
      rfl
    · rw [if_neg (not_or.mpr ⟨h3, h4⟩), if_neg h3, if_neg h4, if_pos rfl]

end

/-! ## Rows taken for channels -/

/-- The rows of an image that channel `c` is taken from, with `stride` strips to each row. -/
def channelRows (stride height c : Nat) (image : List (List UInt8)) : List (List UInt8) :=
  (List.range height).map fun r => image.getD (Picture.channelStrip stride r c) []

/-- The pixels that rows make up when they are taken for channels: the samples by channel. -/
def channelPixels (stride height width : Nat) (image : List (List UInt8)) :
    List (List (Nat → UInt8)) :=
  (List.range height).map fun r => (List.range width).map fun x c =>
    (image.getD (Picture.channelStrip stride r c) []).getD x 0

/-- The three channels of such pixels. -/
def bandChannels : List ((Nat → UInt8) → UInt8) := (List.range 3).map fun c pixel => pixel c

section
variable {stride height width : Nat} {image : List (List UInt8)}

theorem channelStrip_lt {r c : Nat} (hr : r < height) (hc : c < 3) (hstride : 3 ≤ stride) :
    Picture.channelStrip stride r c < height * stride := by
  have hle : (r + 1) * stride ≤ height * stride := Nat.mul_le_mul_right _ hr
  rw [Nat.succ_mul] at hle
  unfold Picture.channelStrip
  omega

theorem map_getD_range {row : List UInt8} (h : row.length = width) :
    ((List.range width).map fun x => row.getD x 0) = row := by
  subst h
  refine List.ext_getElem (by simp) fun i hi hi' => ?_
  rw [List.getElem_map, List.getElem_range, List.getD_eq_getElem _ _ hi']

theorem of_map {α β : Type} (win : Window) (f : α → β) (pixels : List (List α)) :
    win.of (pixels.map (List.map f)) = (win.of pixels).map (List.map f) := by
  simp only [Window.of, ← List.map_drop, ← List.map_take, List.map_map]
  exact List.map_congr_left fun row _ => by simp

theorem map_channelPixels (hwidth : ∀ row ∈ image, row.length = width)
    (hcount : image.length = height * stride) (hstride : 3 ≤ stride) {c : Nat} (hc : c < 3) :
    (channelPixels stride height width image).map (List.map fun pixel => pixel c) =
      channelRows stride height c image := by
  rw [channelPixels, channelRows, List.map_map]
  refine List.map_congr_left fun r hr => ?_
  have hlt := hcount.symm ▸ channelStrip_lt (List.mem_range.mp hr) hc hstride
  rw [Function.comp_apply, List.map_map]
  refine map_getD_range ?_
  rw [List.getD_eq_getElem _ _ hlt]
  exact hwidth _ (List.getElem_mem hlt)

theorem samples_channelPixels (hwidth : ∀ row ∈ image, row.length = width)
    (hcount : image.length = height * stride) (hstride : 3 ≤ stride) (win : Window) :
    win.samples (channelPixels stride height width image) bandChannels =
      (List.range 3).flatMap fun c => (win.of (channelRows stride height c image)).flatten := by
  rw [Window.samples, bandChannels, List.flatMap_map]
  refine List.flatMap_congr fun c hc => ?_
  rw [← map_channelPixels hwidth hcount hstride (List.mem_range.mp hc), of_map, List.map_flatten]

/-- A picture with three or four strips to each row shows the pixels that they make up. -/
theorem shows_channels {p : Picture} (hassembly : p.assembly false = .planar stride)
    (hstride : 3 ≤ stride) (hcols : ∀ row ∈ image, row.length = p.width)
    (hcount : image.length = p.height * stride)
    (hstrip : ∀ (k : Nat) (pixels : List UInt8), image[k]? = some pixels →
      ∃ strip, p.strips[k]? = some (Strip.bytes strip) ∧ pixels <+: strip) :
    p.Shows (.planar stride) (channelPixels stride p.height p.width image) bandChannels where
  assembled := hassembly
  strips := rfl
  planes := rfl
  height := by simp [channelPixels]
  width := by simp [channelPixels]
  line := by
    intro win i pixels hi hx
    have hrow : win.y + i < p.height := by
      have := (List.getElem?_eq_some_iff.mp hi).1
      simpa [channelPixels] using this
    rw [Picture.scanline?, bandChannels, List.map_map]
    refine congrArg some (List.map_congr_left fun c hc => ?_)
    have hc := List.mem_range.mp hc
    have hlt := hcount.symm ▸ channelStrip_lt hrow hc hstride
    have hget := List.getElem?_eq_getElem hlt
    obtain ⟨strip, hstrip, hstart⟩ := hstrip _ _ hget
    have hlen := hcols _ (List.getElem_mem hlt)
    have hpixels : pixels.map (fun pixel => pixel c) =
        image[Picture.channelStrip stride (win.y + i) c] := by
      have hmap := congrArg (fun rows => rows[win.y + i]?)
        (map_channelPixels hcols hcount hstride hc)
      simp only [channelRows, List.getElem?_map, hi, List.getElem?_range hrow,
        Option.map_some] at hmap
      rw [Option.some.inj hmap, List.getD_eq_getElem _ _ hlt]
    rw [Picture.byteStrip?, hstrip]
    simp only [Option.bind_some, Strip.bytes?, Option.getD_some, Function.comp_apply]
    rw [crop_front hstart (by rw [hlen]; exact hx), ← hpixels, List.map_take, List.map_drop]

end

/-- The pixels of a window onto a picture of bands. -/
def bandedPixels (bands height : Nat) (image : List (List UInt8)) (win : Window) : List UInt8 :=
  if bandedStride bands height = 1 then (win.of image).flatten
  else (List.range 3).flatMap fun c =>
    (win.of (channelRows (bandedStride bands height) (bandedHeight bands height) c image)).flatten

theorem readPlane_bands {p : Picture} {bands : Nat} {image : List (List UInt8)} (source : Source)
    (hbands : 0 < bands) (hpos : 0 < p.declaredHeight) (hmax : p.declaredHeight < 0x10000)
    (hcount : image.length = bands * p.declaredHeight) (hsize : p.strips.size = image.length)
    (hcols : ∀ row ∈ image, row.length = p.width) (hpalette : p.palette = none)
    (hjpeg : p.jpegOffsets = #[])
    (hstrip : ∀ (k : Nat) (pixels : List UInt8), image[k]? = some pixels →
      ∃ strip, p.strips[k]? = some (Strip.bytes strip) ∧ pixels <+: strip) :
    p.layout = (if bandedStride bands p.declaredHeight = 1 then .gray8 else .planarRgb8) ∧
      ∀ win : Window, win.fits p.width p.height = true →
        (Document.readPlane ⟨source, .unlimited, p⟩ win .never).report.result = .ok
          { pixels := bandedPixels bands p.declaredHeight image win
            width := win.width
            height := win.height
            layout := p.layout
            bestEffort := false } := by
  have hheight := height_bands hbands hpos hmax (hsize.trans hcount)
  have hsome : 0 < image.length := hcount ▸ Nat.mul_pos hbands hpos
  obtain ⟨first, hfirst, -⟩ := hstrip 0 _ (List.getElem?_eq_getElem hsome)
  have hassembly := assembly_bands hbands hpos hmax (hsize.trans hcount) hpalette hjpeg hfirst
  by_cases hone : bandedStride bands p.declaredHeight = 1
  · rw [if_pos hone] at hassembly
    have hlayout : p.layout = .gray8 := by
      rw [Picture.layout, hassembly]
      rfl
    have hle : bandedHeight bands p.declaredHeight ≤ image.length := by
      have : 1 * p.declaredHeight ≤ bands * p.declaredHeight := Nat.mul_le_mul_right _ hbands
      rw [hcount, bandedHeight]
      split <;> omega
    have hshows : p.Shows .gray (image.take p.height) [id] := by
      apply shows_rows hassembly (Or.inl rfl)
      · rw [List.length_take, hheight, Nat.min_eq_left hle]
      · exact fun row hrow => hcols row (List.mem_of_mem_take hrow)
      · intro k pixels hk
        rw [List.getElem?_take] at hk
        split at hk
        · exact hstrip k pixels hk
        · cases hk
    refine ⟨by rw [if_pos hone, hlayout], fun win hwin => ?_⟩
    have hread := hshows.readWith hwin Jpeg.baseline source
    simp only [Window.fits, Bool.and_eq_true, decide_eq_true_eq] at hwin
    rw [Window.samples, List.flatMap_singleton, List.map_id, Window.of_take hwin.2] at hread
    rw [bandedPixels, if_pos hone, hlayout]
    exact hread
  · rw [if_neg hone] at hassembly
    have hlayout : p.layout = .planarRgb8 := by
      rw [Picture.layout, hassembly]
      rfl
    obtain ⟨hstride, hmul⟩ : 3 ≤ bandedStride bands p.declaredHeight ∧ image.length =
        p.height * bandedStride bands p.declaredHeight := by
      rw [bandedStride_eq hbands hpos] at hone ⊢
      rw [hcount, hheight]
      split_ifs at hone ⊢ <;> omega
    refine ⟨by rw [if_neg hone, hlayout], fun win hwin => ?_⟩
    have hshows := shows_channels hassembly hstride hcols hmul hstrip
    have hread := hshows.readWith hwin Jpeg.baseline source
    rw [samples_channelPixels hcols hmul hstride, hheight] at hread
    rw [bandedPixels, if_neg hone, hlayout]
    exact hread

/-- Bitmaps of one size, however their rows are packed, decode to all their rows. They are as
high as all of them together, gray, and stacked where that many bands stack. Else a read
delivers the rows of the first band, or for three or four bands its rows by turns as channels. -/
theorem decode_bands (h : HeaderBlock) {width height rowBytes : Nat} {bands : List RasterBlock}
    (hne : bands ≠ []) (hbands : ∀ r ∈ bands, r.IsBand h.version width height rowBytes)
    {image : List (List UInt8)} (hwidth : ∀ row ∈ image, row.length = width)
    (hrows : List.Forall₂ (PixelRow 1 rowBytes) (bands.flatMap (·.rows)) image)
    (padding ending : UInt8) (tail : List UInt8) :
    ∃ doc, (decode (writeBands h bands padding ending tail).toArray .unlimited .never).result =
        .ok doc ∧
      doc.picture.width = width ∧ doc.picture.strips.size = bands.length * height ∧
      doc.picture.height = bandedHeight bands.length height ∧
      doc.picture.layout =
        (if bandedStride bands.length height = 1 then .gray8 else .planarRgb8) ∧
      (∀ win : Window, win.fits width doc.picture.height = true →
        (doc.readPlane win .never).report.result = .ok
          { pixels := bandedPixels bands.length height image win
            width := win.width
            height := win.height
            layout := doc.picture.layout
            bestEffort := false }) ∧
      (Stacks bands.length height → bands.length * height ≤ 0xFFFFFFFF →
        (doc.readPlane doc.fullWindow .never).report.result = .ok
          { pixels := image.flatten
            width
            height := bands.length * height
            layout := .gray8
            bestEffort := false }) := by
  have hpos : 0 < bands.length := List.length_pos_iff.mpr hne
  obtain ⟨r, hr⟩ := List.exists_mem_of_ne_nil bands hne
  have hspans := (hbands r hr).spans
  have hrowBytes := (hbands r hr).rowBytes_lt
  have hcomplete : ∀ row ∈ bands.flatMap (·.rows), Format.bitmap.Complete rowBytes row :=
    forall_of_forall₂ hrows fun _ _ _ hpr => PixelRow.complete (by decide) hrowBytes hpr
  obtain ⟨p, hdecode, hw, hn, hpalette, hjpeg, hstrips⟩ :=
    decode_writeBands hbands h rfl hne hcomplete padding ending tail
  have hmax : p.declaredHeight < 0x10000 := by
    have := r.opening.bounds.height_lt
    rw [hspans.height_eq] at this
    omega
  rw [← hw] at hwidth
  obtain ⟨hsingle, hstrip⟩ := strips_pixelRows (f := .bitmap) (by decide) hwidth hrows hstrips
  have hcount : image.length = bands.length * p.declaredHeight := by
    rw [← hrows.length_eq, length_bandRows hbands, hn]
  have hsize : p.strips.size = image.length := by
    rw [size_strips hrows hsingle hstrips, Nat.mul_one]
  have hheightPos : 0 < p.declaredHeight := hn ▸ hspans.height_pos
  have hheight := height_bands hpos hheightPos hmax (hsize.trans hcount)
  obtain ⟨hlayout, hread⟩ := readPlane_bands
    (writeBands h bands padding ending tail).toArray hpos hheightPos hmax hcount hsize hwidth
    hpalette hjpeg hstrip
  rw [hn] at hheight hlayout hread hcount
  rw [hw] at hread
  refine ⟨_, hdecode, hw, hsize.trans hcount, hheight, hlayout, hread, fun hstacks hle => ?_⟩
  have hall : p.height = bands.length * height := by
    rw [hheight, bandedHeight, if_pos hstacks, Nat.min_eq_left hle]
  have hone := bandedStride_of_stacks hstacks hle
  have hfull : Document.fullWindow
      ⟨(writeBands h bands padding ending tail).toArray, .unlimited, p⟩ =
        ⟨0, 0, width, bands.length * height⟩ := by
    rw [Document.fullWindow, hw, hall]
  have hwhole := hread ⟨0, 0, width, bands.length * height⟩ (by simp [Window.fits, hall])
  rw [hfull, hwhole, hlayout, bandedPixels, if_pos hone, if_pos hone,
    Window.of_whole (hw ▸ hwidth) hcount]

def bandHeader : HeaderBlock := .one (Vector.replicate 518 0) 0 0

def band (height : UInt16) (rows : List (List UInt8)) : RasterBlock :=
  ⟨.bitmap .bitsRect 2 ⟨0, 0, height, 9⟩ (Vector.replicate 18 0), rows⟩

/-- Bands of two rows, one white and one black. -/
def fiveBands : List RasterBlock := List.replicate 5 (band 2 [[0xFF, 0x80], [0x00, 0x00]])

/-- They are stacked. -/
theorem decode_fiveBands :
    ∃ doc, (decode (writeBands bandHeader fiveBands 0 0 []).toArray .unlimited .never).result =
        .ok doc ∧
      doc.picture.height = 10 ∧
      (doc.readPlane doc.fullWindow .never).report.result = .ok
        { pixels := (List.replicate 5 (List.replicate 9 1 ++ List.replicate 9 0)).flatten
          width := 9
          height := 10
          layout := .gray8
          bestEffort := false } := by
  have hband : ∀ r ∈ fiveBands, r.IsBand bandHeader.version 9 2 2 := by
    intro r hr
    obtain rfl := List.eq_of_mem_replicate hr
    exact ⟨⟨by decide, by decide, by decide, by decide, by decide, by decide⟩, rfl, rfl, rfl⟩
  have hfull : PixelRow 1 2 [0xFF, 0x80] (List.replicate 9 1) := ⟨_, rfl, by decide, rfl⟩
  have hempty : PixelRow 1 2 [0x00, 0x00] (List.replicate 9 0) := ⟨_, rfl, by decide, rfl⟩
  have hrows : List.Forall₂ (PixelRow 1 2) (fiveBands.flatMap (·.rows))
      (List.replicate 5 [List.replicate 9 1, List.replicate 9 0]).flatten :=
    .cons hfull <| .cons hempty <| .cons hfull <| .cons hempty <| .cons hfull <| .cons hempty <|
      .cons hfull <| .cons hempty <| .cons hfull <| .cons hempty .nil
  obtain ⟨doc, hdoc, -, -, hheight, -, -, hstacked⟩ := decode_bands bandHeader (by decide) hband
    (by decide) hrows 0 0 []
  exact ⟨doc, hdoc, hheight, hstacked (by decide) (by decide)⟩

/-- Bands of one row. -/
def threeBands : List RasterBlock :=
  [band 1 [[0xFF, 0x80]], band 1 [[0x00, 0x00]], band 1 [[0xFF, 0x80]]]

/-- They are taken for one row of three channels. -/
theorem decode_threeBands :
    ∃ doc, (decode (writeBands bandHeader threeBands 0 0 []).toArray .unlimited .never).result =
        .ok doc ∧
      doc.picture.strips.size = 3 ∧ doc.picture.height = 1 ∧ doc.picture.layout = .planarRgb8 := by
  have hmap : (decode (writeBands bandHeader threeBands 0 0 []).toArray .unlimited
      .never).result.toOption.map (fun doc =>
        (doc.picture.strips.size, doc.picture.height, doc.picture.layout)) =
      some (3, 1, .planarRgb8) := by decide +kernel
  cases hresult :
    (decode (writeBands bandHeader threeBands 0 0 []).toArray .unlimited .never).result with
  | error e =>
    rw [hresult] at hmap
    cases hmap
  | ok doc =>
    rw [hresult] at hmap
    have hdoc := Option.some.inj hmap
    simp only [Prod.mk.injEq] at hdoc
    exact ⟨doc, rfl, hdoc⟩

end Pict
