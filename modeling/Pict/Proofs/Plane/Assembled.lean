import Pict.Proofs.Decode.Columnless
import Pict.Proofs.Decode.Metadata
import Pict.Proofs.Plane.Crop
import Pict.Proofs.Plane.Stopped
import Pict.Proofs.RoundTrip.Direct

/-!
# Planes sample by sample

Strips may be bytes or words, of any length and in any mixture. The first of them, the palette and
the number of strips say which strip a row is taken from (`ShowsWords`, `ShowsRows`, `ShowsChannels`).
What a strip does not have is black, and so is all of a row whose strip is missing or of the other
kind. Rows that have one strip each are counted where they are missing, in a signed word that a
picture without columns can overflow; where three strips make a row no one counts.

Results:
* `toNat_five`: the samples of a word are its bits.
* `warnings_words`, `warnings_bytes`, `warnings_planar`: which rows are counted.
* `stripAssembly_words`, `stripAssembly_rows`, `stripAssembly_channels`: which strips are taken.
* `readWith_fromStrips`: what is read from strips, and what is warned of.
* `readWith_strips`: every sample of a plane that is read from strips.
* `readWith_crowdedPicture`: a picture with so many missing rows that they are not told.
-/
namespace Pict

/-- The three samples of a word are its bits from the tenth, the fifth and the first on. -/
theorem toNat_five (w : UInt16) :
    (red5 w).toNat = w.toNat / 2 ^ 10 % 2 ^ 5 ∧ (green5 w).toNat = w.toNat / 2 ^ 5 % 2 ^ 5 ∧
      (blue5 w).toNat = w.toNat % 2 ^ 5 := by
  refine ⟨?_, ?_, ?_⟩
  · exact Rgb.masked_eq w 0x7C00 10 (by decide) (by decide)
  · exact Rgb.masked_eq w 0x03E0 5 (by decide) (by decide)
  · have hmask : (0x001F : UInt16).toNat = 2 ^ 5 - 1 := rfl
    rw [blue5, UInt16.toNat_toUInt8, UInt16.toNat_and, hmask, Nat.and_two_pow_sub_one_eq_mod]
    omega

namespace Picture

variable {p : Picture} {win : Window}

/-! ## Samples of strips -/

/-- Byte `x` of strip `k`, zero where the strip is missing, has words, or ends in front of it. -/
def byteAt (p : Picture) (k x : Nat) : UInt8 :=
  match p.strips[k]? with
  | some (.bytes samples) => samples.getD x 0
  | some (.words _) | none => 0

/-- Word `x` of strip `k`, zero where the strip is missing, has bytes, or ends in front of it. -/
def wordAt (p : Picture) (k x : Nat) : UInt16 :=
  match p.strips[k]? with
  | some (.words samples) => samples.getD x 0
  | some (.bytes _) | none => 0

theorem byteAt_eq (p : Picture) (k x : Nat) :
    ((p.byteStrip? k).getD [])[x]?.getD 0 = p.byteAt k x := by
  unfold byteStrip? byteAt
  cases p.strips[k]? with
  | none => rfl
  | some strip => cases strip <;> simp [Strip.bytes?]

theorem wordAt_eq (p : Picture) (k x : Nat) :
    ((p.wordStrip? k).getD [])[x]?.getD 0 = p.wordAt k x := by
  unfold wordStrip? wordAt
  cases p.strips[k]? with
  | none => rfl
  | some strip => cases strip <;> simp [Strip.words?]

/-! ## Missing rows -/

def rowsWithoutBytes (p : Picture) (win : Window) : Nat :=
  (List.range win.height).countP fun i => (p.byteStrip? (win.y + i)).isNone

/-- How many rows of a window have no strip of words. -/
def rowsWithoutWords (p : Picture) (win : Window) : Nat :=
  (List.range win.height).countP fun i => (p.wordStrip? (win.y + i)).isNone

theorem missingRows_words (p : Picture) (win : Window) :
    p.missingRows .packed555 win = p.rowsWithoutWords win := by
  unfold missingRows missingBefore rowsWithoutWords isMissing scanline? rowsOf
  simp

theorem missingRows_bytes {assembly : Assembly} (h : assembly = .indexed ∨ assembly = .gray) :
    p.missingRows assembly win = if win.width = 0 then 0 else p.rowsWithoutBytes win := by
  have hmissing : p.isMissing assembly win = fun i => (p.byteStrip? (win.y + i)).isNone := by
    rcases h with rfl | rfl <;> simp [funext_iff, isMissing, scanline?]
  have hrows : rowsOf assembly win = if win.width = 0 then 0 else win.height := by
    rcases h with rfl | rfl <;> rfl
  rw [missingRows, missingBefore, hmissing, hrows]
  split <;> rfl

/-- Up to `2 ^ 31 - 1` rows are told as they are. One more makes the count negative, and from there
on nothing is told. -/
theorem missingWarnings_ofNat (assembly : Assembly) {rows : Nat} (h : rows < 2 ^ 32) :
    missingWarnings assembly (Int32.ofNat rows) =
      if rows = 0 ∨ 2 ^ 31 ≤ rows then [] else [missingWarning assembly rows] := by
  unfold missingWarnings
  by_cases hfew : rows < 2 ^ 31
  · have hint : (Int32.ofNat rows).toInt = rows := Int32.toInt_ofNat_of_lt hfew
    have hpos : 0 < Int32.ofNat rows ↔ 0 < rows := by
      rw [Int32.lt_iff_toInt_lt, hint, Int32.toInt_zero]
      omega
    have hsame : (Int32.ofNat rows).toNatClampNeg = rows := congrArg Int.toNat hint
    rw [hsame]
    by_cases hzero : rows = 0
    · rw [if_neg (by rw [hpos]; omega), if_pos (Or.inl hzero)]
    · rw [if_pos (by rw [hpos]; omega), if_neg (by omega)]
  · have hnegative : ¬ 0 < Int32.ofNat rows := by
      rw [Int32.lt_iff_toInt_lt, Int32.toInt_ofNat', Int32.toInt_zero, Int32.size, Int.bmod_def]
      split <;> omega
    rw [if_neg hnegative, if_pos (Or.inr (Nat.le_of_not_lt hfew))]

/-- Rows without words are told in one warning, as long as there are fewer than `2 ^ 31` of them. -/
theorem warnings_words (hheight : win.height < 2 ^ 32) :
    missingWarnings .packed555 (Int32.ofNat (p.missingRows .packed555 win)) =
      if p.rowsWithoutWords win = 0 ∨ 2 ^ 31 ≤ p.rowsWithoutWords win then []
      else [.wordRowsMissing (p.rowsWithoutWords win)] := by
  have hle : p.rowsWithoutWords win ≤ (List.range win.height).length := List.countP_le_length
  rw [List.length_range] at hle
  rw [missingRows_words, missingWarnings_ofNat _ (Nat.lt_of_le_of_lt hle hheight)]
  rfl

/-- So are rows without bytes, unless they have no columns. -/
theorem warnings_bytes {assembly : Assembly} (h : assembly = .indexed ∨ assembly = .gray)
    (hheight : win.height < 2 ^ 32) :
    missingWarnings assembly (Int32.ofNat (p.missingRows assembly win)) =
      if win.width = 0 ∨ p.rowsWithoutBytes win = 0 ∨ 2 ^ 31 ≤ p.rowsWithoutBytes win then []
      else [.byteRowsMissing (p.rowsWithoutBytes win)] := by
  have hwarning (rows : Nat) : missingWarning assembly rows = .byteRowsMissing rows := by
    rcases h with rfl | rfl <;> rfl
  have hle : p.rowsWithoutBytes win ≤ (List.range win.height).length := List.countP_le_length
  rw [List.length_range] at hle
  rw [missingRows_bytes h]
  by_cases hwidth : win.width = 0
  · rw [if_pos hwidth, if_pos (Or.inl hwidth)]
    rfl
  · rw [if_neg hwidth, missingWarnings_ofNat _ (Nat.lt_of_le_of_lt hle hheight), hwarning]
    simp only [hwidth, false_or]

/-- Where three strips make a row, no one counts. -/
theorem warnings_planar (p : Picture) (stride : Nat) (win : Window) :
    missingWarnings (.planar stride) (Int32.ofNat (p.missingRows (.planar stride) win)) = [] := by
  have hnone : p.missingRows (.planar stride) win = 0 :=
    List.countP_eq_zero.mpr fun _ _ => Bool.false_ne_true
  rw [hnone]
  rfl

/-! ## Channels -/

/-- The strip of channel `c` of row `r`: the last three of the strips of a row, of which there are as
many as fit the height. -/
def channelOf (p : Picture) (r c : Nat) : Nat :=
  let stride := p.strips.size / p.height
  r * stride + stride - 3 + c

section
variable {r c : Nat} (hcount : p.CountsChannels)
include hcount

theorem three_le_stride : 3 ≤ p.strips.size / p.height := by
  obtain ⟨hpos, hcount⟩ := hcount
  rw [Nat.le_div_iff_mul_le (Nat.pos_of_ne_zero hpos)]
  omega

theorem channelOf_eq : channelStrip (p.strips.size / p.height) r c = p.channelOf r c := by
  have hstride := three_le_stride hcount
  unfold channelStrip channelOf
  dsimp only
  omega

theorem channelOf_lt (hr : r < p.height) (hc : c < 3) : p.channelOf r c < p.strips.size := by
  have hstride := three_le_stride hcount
  have hrow := Nat.mul_le_mul_right (p.strips.size / p.height) (Nat.succ_le_of_lt hr)
  have hall := Nat.mul_div_le p.strips.size p.height
  rw [Nat.succ_mul] at hrow
  unfold channelOf
  dsimp only
  omega

end

/-! ## Which strips are taken -/

section
variable {first : Strip}

theorem assembly_first (hjpeg : p.jpegOffsets = #[]) (hfirst : p.strips[0]? = some first) :
    p.assembly false = p.stripAssembly first := by
  rw [assembly, hjpeg, hfirst]
  rfl

theorem countsChannels_iff (hfirst : p.strips[0]? = some first) :
    p.CountsChannels ↔ p.strips.size = 3 * p.height ∨ p.strips.size = 4 * p.height := by
  have hsome := (Array.getElem?_eq_some_iff.mp hfirst).1
  unfold CountsChannels
  omega

theorem stripAssembly_words (h : first.isWords = true) : p.stripAssembly first = .packed555 := by
  simp [stripAssembly, h]

theorem stripAssembly_rows (h : first.isWords = false)
    (hrows : p.palette.isSome = true ∨ ¬ p.CountsChannels) :
    p.stripAssembly first = if p.palette.isSome then .indexed else .gray := by
  cases hpalette : p.palette.isSome with
  | true => simp [stripAssembly, h, hpalette]
  | false =>
    have hcount : ¬ p.CountsChannels := hrows.resolve_left (by simp [hpalette])
    unfold CountsChannels at hcount
    simp [stripAssembly, h, hpalette, hcount]

theorem stripAssembly_channels (h : first.isWords = false) (hpalette : p.palette = none)
    (hcount : p.CountsChannels) :
    p.stripAssembly first = .planar (p.strips.size / p.height) := by
  unfold CountsChannels at hcount
  simp [stripAssembly, h, hpalette, hcount]

end

end Picture

/-! ## Planes -/

section
variable (plane : Plane) (p : Picture) (win : Window)

/-- The three planes of a window show the colors of the words of one strip for each row. -/
structure Plane.ShowsWords : Prop where
  layout : plane.layout = .planarRgb8
  red : ∀ i < win.height, ∀ j < win.width, (plane.sample? 0 j i).map UInt8.toNat =
    some ((p.wordAt (win.y + i) (win.x + j)).toNat / 2 ^ 10 % 2 ^ 5)
  green : ∀ i < win.height, ∀ j < win.width, (plane.sample? 1 j i).map UInt8.toNat =
    some ((p.wordAt (win.y + i) (win.x + j)).toNat / 2 ^ 5 % 2 ^ 5)
  blue : ∀ i < win.height, ∀ j < win.width, (plane.sample? 2 j i).map UInt8.toNat =
    some ((p.wordAt (win.y + i) (win.x + j)).toNat % 2 ^ 5)

/-- The plane of a window shows the bytes of one strip for each row. -/
structure Plane.ShowsRows : Prop where
  layout : plane.layout = if p.palette.isSome then .indexed8 else .gray8
  sample : ∀ i < win.height, ∀ j < win.width,
    plane.sample? 0 j i = some (p.byteAt (win.y + i) (win.x + j))

/-- The three planes of a window show the bytes of the last three strips of each row. -/
structure Plane.ShowsChannels : Prop where
  layout : plane.layout = .planarRgb8
  sample : ∀ c < 3, ∀ i < win.height, ∀ j < win.width,
    p.channelOf (win.y + i) c < p.strips.size ∧
      plane.sample? c j i = some (p.byteAt (p.channelOf (win.y + i) c) (win.x + j))

end

namespace Document

variable {codec : Codec} {doc : Document} {request : Request}

/-- What is painted is what is read, with the warning for black rows. -/
theorem readWith_fromStrips (codec : Codec) (request : Request) {assembly : Assembly}
    (hassembly : doc.picture.assembly request.legacy = assembly) (hs : assembly.isStrips = true)
    (hfits : request.window.fits doc.picture.width doc.picture.height = true)
    (hmemory : Limits.allows doc.limits.memory (doc.planOf request).size) :
    (doc.readWith codec request .never).report.result =
        .ok (doc.planeOf request (doc.picture.stripPixels assembly request.window)) ∧
      (doc.readWith codec request .never).report.warnings =
        Picture.missingWarnings assembly
          (Int32.ofNat (doc.picture.missingRows assembly request.window)) := by
  obtain ⟨t, ht, hwarnings⟩ := paintStrips_run doc.picture assembly request.window
  have hpaint : (doc.paint codec request (doc.planOf request)).run .never Canvas.empty =
      .ok (doc.picture.stripPixels assembly request.window) t := by
    rw [← ht]
    unfold paint planOf
    rw [hassembly]
    cases assembly with
    | jpeg | fallback => cases hs
    | indexed | gray | planar _ | packed555 => rfl
  unfold readWith
  rw [plan_eq_ok.mpr ⟨hfits, hmemory, rfl⟩]
  dsimp only
  rw [hpaint]
  exact ⟨rfl, hwarnings⟩

section
variable {win : Window} {plane : Plane} {assembly : Assembly}
  (hviews : plane.Views win (doc.picture.stripSample assembly))
include hviews

theorem showsWords_of_views (hassembly : assembly = .packed555)
    (hlayout : plane.layout = .planarRgb8) : plane.ShowsWords doc.picture win := by
  subst hassembly
  have hthree : plane.layout.channels = 3 := congrArg Layout.channels hlayout
  have hfive (i j : Nat) := toNat_five (doc.picture.wordAt (win.y + i) (win.x + j))
  refine ⟨hlayout, fun i hi j hj => ?_, fun i hi j hj => ?_, fun i hi j hj => ?_⟩
  · rw [hviews 0 (by omega) j hj i hi, ← (hfive i j).1, ← Picture.wordAt_eq]
    rfl
  · rw [hviews 1 (by omega) j hj i hi, ← (hfive i j).2.1, ← Picture.wordAt_eq]
    rfl
  · rw [hviews 2 (by omega) j hj i hi, ← (hfive i j).2.2, ← Picture.wordAt_eq]
    rfl

theorem showsRows_of_views (hassembly : assembly = .indexed ∨ assembly = .gray)
    (hlayout : plane.layout = if doc.picture.palette.isSome then .indexed8 else .gray8) :
    plane.ShowsRows doc.picture win := by
  have hone : 0 < plane.layout.channels := by
    rw [hlayout]
    split <;> decide
  refine ⟨hlayout, fun i hi j hj => ?_⟩
  rw [hviews 0 hone j hj i hi, ← Picture.byteAt_eq]
  rcases hassembly with rfl | rfl <;> rfl

theorem showsChannels_of_views (hcount : doc.picture.CountsChannels)
    (hassembly : assembly = .planar (doc.picture.strips.size / doc.picture.height))
    (hlayout : plane.layout = .planarRgb8) (hwin : win.y + win.height ≤ doc.picture.height) :
    plane.ShowsChannels doc.picture win := by
  subst hassembly
  refine ⟨hlayout, fun c hc i hi j hj => ⟨?_, ?_⟩⟩
  · exact Picture.channelOf_lt hcount (by omega) hc
  · rw [hviews c (by rw [hlayout]; exact hc) j hj i hi, ← Picture.byteAt_eq,
      ← Picture.channelOf_eq hcount]
    rfl

end

/-- A window that is on the canvas and within the memory limit is read from the strips, if there are
any and no embedded JPEG data. If words come first, its pixels are the colors of the words of one
strip for each row. If bytes come first, they are the bytes of one strip for each row, unless there
are three or four strips for each row and no palette: then they are the bytes of the last three of
these. Rows of one strip are warned of where the strip is missing, or is of the other kind, as long as
fewer than `2 ^ 31` of them are: the count is a signed word, and where it is not positive nothing is
told. -/
theorem readWith_strips {first : Strip} {win : Window} {fallback : Option FallbackDecoder}
    (hheight : win.height < 2 ^ 32) (hjpeg : doc.picture.jpegOffsets = #[])
    (hfirst : doc.picture.strips[0]? = some first)
    (hfits : win.fits doc.picture.width doc.picture.height = true)
    (hmemory : Limits.allows doc.limits.memory
      (win.width * win.height * doc.picture.layout.bytesPerPixel)) :
    ∃ plane warnings,
      (doc.readWith codec ⟨win, false, fallback⟩ .never).report.result = .ok plane ∧
      (doc.readWith codec ⟨win, false, fallback⟩ .never).report.warnings = warnings ∧
      plane.width = win.width ∧ plane.height = win.height ∧ plane.bestEffort = false ∧
      plane.layout = doc.picture.layout ∧
      plane.pixels.length = win.width * win.height * plane.layout.bytesPerPixel ∧
      (first.isWords = true → plane.ShowsWords doc.picture win ∧
        warnings =
          if doc.picture.rowsWithoutWords win = 0 ∨
            2 ^ 31 ≤ doc.picture.rowsWithoutWords win then []
          else [.wordRowsMissing (doc.picture.rowsWithoutWords win)]) ∧
      (first.isWords = false →
        doc.picture.palette.isSome = true ∨ doc.picture.strips.size ≠ 3 * doc.picture.height ∧
          doc.picture.strips.size ≠ 4 * doc.picture.height →
        plane.ShowsRows doc.picture win ∧
          warnings =
            if win.width = 0 ∨ doc.picture.rowsWithoutBytes win = 0 ∨
              2 ^ 31 ≤ doc.picture.rowsWithoutBytes win then []
            else [.byteRowsMissing (doc.picture.rowsWithoutBytes win)]) ∧
      (first.isWords = false → doc.picture.palette = none →
        doc.picture.strips.size = 3 * doc.picture.height ∨
          doc.picture.strips.size = 4 * doc.picture.height →
        plane.ShowsChannels doc.picture win ∧ warnings = []) := by
  have hassembly := Picture.assembly_first hjpeg hfirst
  have hsome : doc.picture.strips ≠ #[] := by
    intro hnone
    rw [hnone] at hfirst
    cases hfirst
  have hs : (doc.picture.assembly false).isStrips = true :=
    (doc.picture.assembly_isStrips false).mpr ⟨hjpeg, hsome, rfl⟩
  let request : Request := ⟨win, false, fallback⟩
  let plane := doc.planeOf request (doc.picture.stripPixels (doc.picture.assembly false) win)
  obtain ⟨hread, hwarnings⟩ := readWith_fromStrips codec request rfl hs hfits hmemory
  have hviews : plane.Views win (doc.picture.stripSample (doc.picture.assembly false)) :=
    Picture.stripPixels_views hs rfl rfl rfl rfl
  have hlayout := Picture.layout_first hjpeg hfirst
  refine ⟨_, _, hread, hwarnings, rfl, rfl, ?_, rfl, Canvas.length_samples _ _ _, ?_, ?_, ?_⟩
  · show decide (doc.picture.assembly false = .fallback) = false
    rw [decide_eq_false_iff_not]
    intro hfallback
    rw [hfallback] at hs
    cases hs
  · intro hwords
    have hpacked := hassembly.trans (Picture.stripAssembly_words hwords)
    rw [if_pos hwords] at hlayout
    refine ⟨showsWords_of_views hviews hpacked hlayout, ?_⟩
    show Picture.missingWarnings (doc.picture.assembly false)
      (.ofNat (doc.picture.missingRows _ win)) = _
    rw [hpacked]
    exact Picture.warnings_words hheight
  · intro hbytes hrows
    have hrows : doc.picture.palette.isSome = true ∨ ¬ doc.picture.CountsChannels := by
      rw [Picture.countsChannels_iff hfirst, not_or]
      exact hrows
    have hsingle := hassembly.trans (Picture.stripAssembly_rows hbytes hrows)
    have hkind : doc.picture.assembly false = .indexed ∨ doc.picture.assembly false = .gray := by
      rw [hsingle]
      split
      · exact Or.inl rfl
      · exact Or.inr rfl
    have hrowLayout : doc.picture.layout =
        if doc.picture.palette.isSome then .indexed8 else .gray8 := by
      unfold Picture.layout
      rw [hsingle]
      split <;> rfl
    exact ⟨showsRows_of_views hviews hkind hrowLayout, Picture.warnings_bytes hkind hheight⟩
  · intro hbytes hpalette hchannels
    have hcount := (Picture.countsChannels_iff hfirst).mpr hchannels
    have hplanar := hassembly.trans (Picture.stripAssembly_channels hbytes hpalette hcount)
    have hthree : doc.picture.layout = .planarRgb8 := by
      unfold Picture.layout
      rw [hplanar]
      rfl
    simp only [Window.fits, Bool.and_eq_true, decide_eq_true_eq] at hfits
    refine ⟨showsChannels_of_views hviews hcount hplanar hthree hfits.2, ?_⟩
    show Picture.missingWarnings (doc.picture.assembly false)
      (.ofNat (doc.picture.missingRows _ win)) = _
    rw [hplanar]
    exact Picture.warnings_planar _ _ _

/-- A canvas of four rows of three pixels with a whole strip, one of words and a short one. -/
def raggedDocument : Document where
  source := #[]
  limits := .unlimited
  picture :=
    { Picture.start ⟨3, 4, .two, none⟩ with
      strips := #[.bytes [1, 2, 3], .words [4, 5, 6], .bytes [7, 8]] }

/-- The right half of its rows is read as far as there is one, and two rows are missing. -/
theorem readWith_raggedDocument :
    ∃ plane, (raggedDocument.readWith (fun _ => none) (.ofWindow ⟨1, 0, 2, 4⟩)
        .never).report.result = .ok plane ∧
      (raggedDocument.readWith (fun _ => none) (.ofWindow ⟨1, 0, 2, 4⟩) .never).report.warnings =
        [.byteRowsMissing 2] ∧
      plane.layout = .gray8 ∧ plane.sample? 0 0 2 = some 8 ∧ plane.sample? 0 1 2 = some 0 ∧
      plane.sample? 0 1 1 = some 0 := by
  have hfirst : raggedDocument.picture.strips[0]? = some (.bytes [1, 2, 3]) := rfl
  have hfits : (Window.mk 1 0 2 4).fits raggedDocument.picture.width
      raggedDocument.picture.height = true := rfl
  obtain ⟨plane, warnings, hread, hwarnings, -, -, -, -, -, -, hrows, -⟩ :=
    @readWith_strips (fun _ => none) raggedDocument _ _ none (by decide) rfl hfirst hfits nofun
  obtain ⟨hshows, htwo⟩ := hrows rfl (Or.inr (by decide))
  refine ⟨plane, hread, hwarnings.trans htwo, hshows.layout, ?_, ?_, ?_⟩
  · exact hshows.sample 2 (by decide) 0 (by decide)
  · exact hshows.sample 2 (by decide) 1 (by decide)
  · exact hshows.sample 1 (by decide) 1 (by decide)

/-- A picture with words for one of `2 ^ 31 + 1` rows: nothing is told of the others. -/
theorem readWith_crowdedPicture :
    ∃ doc plane, (decode Decode.crowdedPicture .unlimited .never).result = .ok doc ∧
      doc.picture.jpegOffsets = #[] ∧ doc.picture.strips[0]? = some (.words []) ∧
      doc.picture.rowsWithoutWords doc.fullWindow = 2 ^ 31 ∧
      (doc.readWith (fun _ => none) (.ofWindow doc.fullWindow) .never).report.result = .ok plane ∧
      (doc.readWith (fun _ => none) (.ofWindow doc.fullWindow) .never).report.warnings = [] := by
  obtain ⟨p, hdecode, hjpeg, hfirst, hassembly, hwidth, hheight, hmissing⟩ :=
    Decode.decode_crowdedPicture
  let doc : Document := ⟨Decode.crowdedPicture, .unlimited, p⟩
  have hfits : doc.fullWindow.fits p.width p.height = true := Window.fits_whole _ _
  have hcount : p.missingRows .packed555 doc.fullWindow = 2 ^ 31 := by
    have hrows : Picture.rowsOf .packed555 doc.fullWindow = 2 ^ 31 + 1 := hheight
    rw [Picture.missingRows, hrows, hmissing _ rfl]
  obtain ⟨hresult, hwarnings⟩ :=
    @readWith_fromStrips doc (fun _ => none) (.ofWindow doc.fullWindow) _ hassembly rfl hfits
      (Limits.allows_none _)
  refine ⟨doc, _, hdecode, hjpeg, hfirst, ?_, hresult, ?_⟩
  · exact (Picture.missingRows_words p _).symm.trans hcount
  · rw [hwarnings]
    show Picture.missingWarnings .packed555
      (.ofNat (p.missingRows .packed555 doc.fullWindow)) = _
    rw [hcount, Picture.missingWarnings_ofNat _ (by decide)]
    rfl

end Document
end Pict
