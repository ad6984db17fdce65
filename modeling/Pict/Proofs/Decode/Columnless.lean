import Pict.Proofs.Decode.Composition
import Pict.Proofs.Plane.Painted

/-!
# Pictures without columns

On a canvas without columns a row of direct pixels is written as one byte, the length of no packets,
and still has a strip for each of its components. The number of strips is not bounded by that of the
bytes then, and as the strips are empty no memory limit bounds it either.

Results:
* `strips_emptyChannels`: such a raster has an empty strip for each channel of each row.
* `decode_columnless`, `size_columnlessPicture`: what a picture of such rasters decodes to, and how
  short it is.
* `decode_crowdedPicture`: less than `2 ^ 31` bytes that decode to `2 ^ 31 + 1` strips.
-/
namespace Pict

theorem signed_ofNat {n : Nat} (h : n < 2 ^ 15) : signed (UInt16.ofNat n) = n := by
  have hn : (UInt16.ofNat n).toNat = n := by
    rw [UInt16.toNat_ofNat']
    omega
  rw [signed, hn, if_pos (by omega)]

/-! ## Rasters -/

namespace RasterBlock

def columnless (rows : Nat) (pixelSize components : UInt16) : RasterBlock where
  opening := .direct (Vector.replicate 6 0) ⟨0, 0, UInt16.ofNat rows, 0⟩ (Vector.replicate 18 0)
    ⟨pixelSize, components, Vector.replicate 14 0⟩ (Vector.replicate 18 0)
  rows := List.replicate rows []

def emptyWords : RasterBlock := columnless 1 16 3

/-- Rows of `channels` channels each. -/
def emptyChannels (rows channels : Nat) : RasterBlock :=
  columnless rows 32 (UInt16.ofNat channels)

section
variable {canvas : Info} {rows channels : Nat}

theorem height_columnless (hrows : rows < 2 ^ 15) (pixelSize components : UInt16) :
    (columnless rows pixelSize components).opening.bounds.height = rows := by
  show signed (UInt16.ofNat rows) - signed 0 = rows
  rw [signed_ofNat hrows]
  exact Int.sub_zero _

theorem refine_columnless (hpos : 0 < rows) (hrows : rows < 2 ^ 15)
    (pixelSize components : UInt16) :
    (columnless rows pixelSize components).refine canvas = { canvas with height := rows } := by
  have hheight := height_columnless hrows pixelSize components
  have hrefined : Header.override canvas.height
      (columnless rows pixelSize components).opening.bounds.height = rows := by
    rw [Header.override, hheight, if_pos (by omega), Int.toNat_natCast]
  exact congrArg (fun height => { canvas with height }) hrefined

theorem format_emptyChannels (hchannels : channels < 2 ^ 15) :
    (emptyChannels rows channels).opening.format = ⟨32, channels⟩ := by
  show (⟨(signed 32).toNat, (signed (UInt16.ofNat channels)).toNat⟩ : Format) = _
  rw [signed_ofNat hchannels]
  rfl

theorem packed_emptyChannels (rows channels rowBytes : Nat) :
    (emptyChannels rows channels).opening.format.isPacked rowBytes = true := by
  show (decide (8 ≤ rowBytes) || decide ((signed 32).toNat = 32)) = true
  exact Bool.or_true _

theorem rowBytes_emptyWords (hwidth : canvas.width = 0) : emptyWords.rowBytes canvas = 0 := by
  show canvas.width * 2 = 0
  omega

theorem rowBytes_emptyChannels (hwidth : canvas.width = 0) :
    (emptyChannels rows channels).rowBytes canvas = 0 := by
  show canvas.width * (signed (UInt16.ofNat channels)).toNat = 0
  rw [hwidth, Nat.zero_mul]

theorem strips_emptyWords (hwidth : canvas.width = 0) :
    emptyWords.strips canvas = [.words []] := by
  rw [strips, rowBytes_emptyWords hwidth]
  show [[]].flatMap ((Format.mk 16 3).rowStrips canvas.width 0) = _
  rw [hwidth]
  rfl

/-- There is an empty strip for each channel of each row. -/
theorem strips_emptyChannels (hwidth : canvas.width = 0) (hchannels : channels < 2 ^ 15) :
    (emptyChannels rows channels).strips canvas = List.replicate (rows * channels) (.bytes []) := by
  have hrow : (Format.mk 32 channels).rowStrips 0 0 [] = List.replicate channels (.bytes []) := by
    have hempty (c : Nat) : crop (c * 0) 0 (PackBits.decodeBytes (0 * 4) []) = [] :=
      List.eq_nil_of_length_eq_zero (length_crop _ _ _)
    have hmap : (List.range channels).map
        (fun c => Strip.bytes (crop (c * 0) 0 (PackBits.decodeBytes (0 * 4) []))) =
        List.replicate channels (.bytes []) := by
      simp only [hempty, List.map_const', List.length_range]
    rw [← hmap]
    rfl
  rw [strips, format_emptyChannels hchannels, rowBytes_emptyChannels hwidth]
  show (List.replicate rows []).flatMap ((Format.mk 32 channels).rowStrips canvas.width 0) = _
  rw [hwidth, List.flatMap_replicate, hrow, List.flatten_replicate_replicate]

theorem valid_emptyWords (hwidth : canvas.width = 0) : emptyWords.Valid canvas where
  opening := Or.inl rfl
  count := rfl
  rows := by
    intro row hrow
    obtain rfl := List.eq_of_mem_replicate hrow
    rw [rowBytes_emptyWords hwidth]
    decide
  decodable := fun _ => Or.inl (by decide)

theorem valid_emptyChannels (hpos : 0 < rows) (hrows : rows < 2 ^ 15)
    (hchannels : channels < 2 ^ 15) : (emptyChannels rows channels).Valid canvas := by
  have hpacked := packed_emptyChannels rows channels
    ((emptyChannels rows channels).rowBytes canvas)
  refine ⟨Or.inr rfl, ?_, ?_, fun _ => Or.inr ⟨hpacked, ?_⟩⟩
  · rw [emptyChannels, refine_columnless hpos hrows]
    exact List.length_replicate
  · intro row hrow
    obtain rfl := List.eq_of_mem_replicate hrow
    rw [Format.Complete, if_pos hpacked]
    exact ⟨Nat.zero_le _, by decide⟩
  · rw [format_emptyChannels hchannels]
    exact List.mem_cons_of_mem _ (List.mem_singleton_self 32)

theorem length_body_emptyWords (hwidth : canvas.width = 0) :
    (emptyWords.body canvas).length = 68 := by
  rw [body, rowBytes_emptyWords hwidth]
  decide

theorem length_body_emptyChannels (hwidth : canvas.width = 0) :
    ((emptyChannels rows channels).body canvas).length = 68 + rows := by
  have hrow : (emptyChannels rows channels).opening.format.writeRow 0 [] = [0] := by
    rw [Format.writeRow_packed (packed_emptyChannels rows channels 0)]
    rfl
  rw [body, rowBytes_emptyChannels hwidth, List.length_append]
  show 68 + ((List.replicate rows []).flatMap _).length = _
  rw [List.flatMap_replicate, hrow, List.length_flatten, List.map_replicate, List.sum_replicate_nat]
  exact congrArg (68 + ·) (Nat.mul_one rows)

/-- A row of words, and `n` rasters without columns behind it. -/
def columnlessAll (n rows channels : Nat) : List RasterBlock :=
  emptyWords :: List.replicate n (emptyChannels rows channels)

theorem stripsOf_replicate (hwidth : canvas.width = 0) (hchannels : channels < 2 ^ 15) (n : Nat) :
    stripsOf canvas (List.replicate n (emptyChannels rows channels)) =
      List.replicate (n * (rows * channels)) (.bytes []) := by
  induction n generalizing canvas with
  | zero => rw [Nat.zero_mul, List.replicate_zero, List.replicate_zero, stripsOf]
  | succ n ih =>
    have hbehind : ((emptyChannels rows channels).refine canvas).width = 0 := hwidth
    rw [List.replicate_succ, stripsOf, strips_emptyChannels hwidth hchannels, ih hbehind,
      List.replicate_append_replicate, Nat.succ_mul, Nat.add_comm]

theorem refineAll_replicate (hpos : 0 < rows) (hrows : rows < 2 ^ 15) (n : Nat) :
    refineAll (List.replicate (n + 1) (emptyChannels rows channels)) canvas =
      { canvas with height := rows } := by
  induction n generalizing canvas with
  | zero => exact refine_columnless hpos hrows _ _
  | succ n ih =>
    rw [List.replicate_succ]
    show refineAll _ ((emptyChannels rows channels).refine canvas) = _
    rw [ih, emptyChannels, refine_columnless hpos hrows]

end

end RasterBlock

/-! ## Pictures -/

namespace Decode

open RasterBlock

def columnlessHeader : HeaderBlock :=
  .two (Vector.replicate 518 0) 1 0 (Vector.replicate 6 0) 0x480000 0x480000
    (Vector.replicate 4 0) 0 0 (Vector.replicate 4 0)

/-- A picture of a row of words, and `n` rasters without columns behind it. -/
def columnlessPicture (n rows channels : Nat) : Source :=
  (writePicture columnlessHeader ((columnlessAll n rows channels).map (⟨0, .raster ·⟩)) 0
    []).toArray

theorem validAll_replicate {canvas : Info} {rows channels : Nat} (hpos : 0 < rows)
    (hrows : rows < 2 ^ 15) (hchannels : channels < 2 ^ 15) (n : Nat) :
    Element.ValidAll canvas
      ((List.replicate n (emptyChannels rows channels)).map (⟨0, .raster ·⟩)) := by
  induction n generalizing canvas with
  | zero => trivial
  | succ n ih => exact ⟨valid_emptyChannels hpos hrows hchannels, ih⟩

theorem rasters_map (rs : List RasterBlock) :
    Element.rasters (rs.map (⟨0, .raster ·⟩)) = rs := by
  rw [Element.rasters, List.filterMap_map]
  exact List.filterMap_some

/-- The picture has a strip without words, and a strip without bytes for each channel of each row
behind it. -/
theorem decode_columnless {rows channels : Nat} (hpos : 0 < rows) (hrows : rows < 2 ^ 15)
    (hchannels : channels < 2 ^ 15) (n : Nat) :
    ∃ p, (decode (columnlessPicture (n + 1) rows channels) .unlimited .never).result =
        .ok ⟨columnlessPicture (n + 1) rows channels, .unlimited, p⟩ ∧
      p.strips =
        (.words [] :: List.replicate ((n + 1) * (rows * channels)) (.bytes [])).toArray ∧
      p.width = 0 ∧ p.declaredHeight = rows ∧ p.jpegOffsets = #[] := by
  have hvalid : Element.ValidAll columnlessHeader.info
      ((columnlessAll (n + 1) rows channels).map (⟨0, .raster ·⟩)) :=
    ⟨valid_emptyWords rfl, validAll_replicate hpos hrows hchannels (n + 1)⟩
  have hrefine : refineAll (columnlessAll (n + 1) rows channels) columnlessHeader.info =
      { columnlessHeader.info with height := rows } := refineAll_replicate hpos hrows n
  have hdecode := decode_written columnlessHeader _ 0 [] hvalid
  rw [rasters_map] at hdecode
  refine ⟨_, hdecode, ?_, congrArg Info.width hrefine, congrArg Info.height hrefine, rfl⟩
  refine Array.empty_append.trans (congrArg List.toArray ?_)
  show emptyWords.strips columnlessHeader.info ++ stripsOf _ (List.replicate (n + 1) _) = _
  rw [strips_emptyWords rfl, stripsOf_replicate rfl hchannels]
  rfl

/-! ### Sizes -/

theorem length_pad_le (version : Version) (offset : Nat) (b : UInt8) :
    (Opcode.pad version offset b).length ≤ 1 := by
  unfold Opcode.pad
  split <;> simp

theorem length_codeBytes_le (version : Version) (code : UInt16) :
    (Opcode.codeBytes version code).length ≤ 2 := by
  cases version
  · exact Nat.le_succ 1
  · exact Nat.le_refl 2

theorem length_direct_le {r : RasterBlock} (hlead : r.opening.lead = []) (canvas : Info)
    (offset : Nat) :
    (Element.bytes ⟨0, .raster r⟩ canvas offset).length ≤ 3 + (r.body canvas).length := by
  have hpad := length_pad_le canvas.version offset 0
  have hcode := length_codeBytes_le canvas.version r.opening.kind.code
  rw [Element.bytes, List.length_append, List.length_append, List.length_append]
  show _ + (_ + r.opening.lead.length) + _ ≤ _
  rw [hlead]
  exact Nat.add_le_add_right (Nat.add_le_add hpad hcode) _

theorem length_writeAll_replicate {ending : Nat → List UInt8} {limit : Nat}
    (hending : ∀ offset, (ending offset).length ≤ limit) (rows channels n : Nat) (canvas : Info)
    (hwidth : canvas.width = 0) (offset : Nat) :
    (Element.writeAll ending canvas offset
      ((List.replicate n (emptyChannels rows channels)).map (⟨0, .raster ·⟩))).length ≤
        n * (71 + rows) + limit := by
  induction n generalizing canvas offset with
  | zero =>
    rw [Nat.zero_mul, Nat.zero_add]
    exact hending offset
  | succ n ih =>
    have hone := length_direct_le (r := emptyChannels rows channels) rfl canvas offset
    have hbehind : ((emptyChannels rows channels).refine canvas).width = 0 := hwidth
    have hmore := ih _ hbehind
      (offset + (Element.bytes ⟨0, .raster (emptyChannels rows channels)⟩ canvas offset).length)
    rw [length_body_emptyChannels hwidth] at hone
    rw [List.replicate_succ, List.map_cons, Element.writeAll, List.length_append, Nat.succ_mul]
    calc
      _ ≤ (3 + (68 + rows)) + (n * (71 + rows) + limit) := Nat.add_le_add hone hmore
      _ = n * (71 + rows) + (71 + rows) + limit := by omega

/-- A raster takes at most 71 bytes, and one more for each of its rows. -/
theorem size_columnlessPicture (n rows channels : Nat) :
    (columnlessPicture n rows channels).size ≤ 626 + n * (71 + rows) := by
  have hending (offset : Nat) :
      (terminator columnlessHeader.version 0 offset ++ []).length ≤ 3 := by
    rw [List.append_nil, terminator, List.length_append]
    exact Nat.add_le_add (length_pad_le _ _ _) (length_codeBytes_le _ _)
  have hwords := length_direct_le (r := emptyWords) rfl columnlessHeader.info
    columnlessHeader.bytes.length
  have hmore := length_writeAll_replicate hending rows channels n
    (emptyWords.refine columnlessHeader.info) rfl (columnlessHeader.bytes.length +
      (Element.bytes ⟨0, .raster emptyWords⟩ columnlessHeader.info
        columnlessHeader.bytes.length).length)
  have hheader : columnlessHeader.bytes.length = 552 := columnlessHeader.length_bytes
  rw [length_body_emptyWords rfl] at hwords
  show (columnlessHeader.bytes ++ (Element.bytes _ _ _ ++ Element.writeAll _ _ _ _)).length ≤ _
  rw [List.length_append, List.length_append]
  rw [hheader] at hwords hmore ⊢
  calc
    _ ≤ 552 + ((3 + 68) + (n * (71 + rows) + 3)) :=
      Nat.add_le_add_left (Nat.add_le_add hwords hmore) 552
    _ = 626 + n * (71 + rows) := by omega

end Decode

/-! ## Rows -/

namespace Picture

theorem isMissing_columnless {p : Picture} {n : Nat}
    (hstrips : p.strips = (.words [] :: List.replicate n (.bytes [])).toArray) {win : Window}
    (hy : win.y = 0) (i : Nat) : p.isMissing .packed555 win i = decide (i ≠ 0) := by
  have hbytes (i : Nat) : ((List.replicate n (Strip.bytes []))[i]?).bind Strip.words? = none := by
    rw [List.getElem?_replicate]
    split <;> rfl
  unfold isMissing scanline? wordStrip?
  rw [hy, hstrips, Nat.zero_add, List.getElem?_toArray]
  cases i with
  | zero => rfl
  | succ i =>
    rw [List.getElem?_cons_succ, hbytes]
    rfl

theorem missingBefore_columnless {p : Picture} {n : Nat}
    (hstrips : p.strips = (.words [] :: List.replicate n (.bytes [])).toArray) {win : Window}
    (hy : win.y = 0) (i : Nat) : p.missingBefore .packed555 win (i + 1) = i := by
  have hmissing := funext (isMissing_columnless hstrips hy)
  rw [missingBefore, hmissing, List.range_succ_eq_map, List.countP_cons, List.countP_map]
  refine (List.countP_eq_length.mpr ?_).trans List.length_range
  exact fun _ _ => rfl

theorem first_columnless {p : Picture} {strips : List Strip}
    (hstrips : p.strips = (.words [] :: strips).toArray) : p.strips[0]? = some (.words []) := by
  rw [hstrips]
  rfl

theorem assembly_columnless {p : Picture} {strips : List Strip}
    (hstrips : p.strips = (.words [] :: strips).toArray) (hjpeg : p.jpegOffsets = #[]) :
    p.assembly false = .packed555 := by
  rw [assembly, hjpeg, hstrips]
  rfl

end Picture

namespace Decode

/-- Eight rasters of as many rows and channels. -/
def crowdedPicture : Source := columnlessPicture 8 16384 16384

theorem size_crowdedPicture : crowdedPicture.size < 2 ^ 31 :=
  Nat.lt_of_le_of_lt (size_columnlessPicture 8 16384 16384) (by decide)

/-- The strips behind the first one are a height of their own, and no row but the first has words. -/
theorem decode_crowdedPicture :
    ∃ p, (decode crowdedPicture .unlimited .never).result = .ok ⟨crowdedPicture, .unlimited, p⟩ ∧
      p.jpegOffsets = #[] ∧ p.strips[0]? = some (.words []) ∧ p.assembly false = .packed555 ∧
      p.width = 0 ∧ p.height = 2 ^ 31 + 1 ∧
      ∀ win : Window, win.y = 0 → p.missingBefore .packed555 win (2 ^ 31 + 1) = 2 ^ 31 := by
  obtain ⟨p, hdecode, hstrips, hwidth, hdeclared, hjpeg⟩ :=
    @decode_columnless 16384 16384 (by decide) (by decide) (by decide) 7
  rw [show (7 + 1) * (16384 * 16384) = 2 ^ 31 from rfl] at hstrips
  have hsize : p.strips.size = 2 ^ 31 + 1 := by
    rw [hstrips, List.size_toArray, List.length_cons, List.length_replicate]
  have hheight : p.height = 2 ^ 31 + 1 := by
    unfold Picture.height
    rw [hsize, hdeclared]
    rfl
  exact ⟨p, hdecode, hjpeg, Picture.first_columnless hstrips,
    Picture.assembly_columnless hstrips hjpeg, hwidth, hheight,
    fun win hy => Picture.missingBefore_columnless hstrips hy (2 ^ 31)⟩

end Decode

end Pict
