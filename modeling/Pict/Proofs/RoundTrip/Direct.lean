import Pict.Proofs.PackBits.Packets
import Pict.Proofs.Plane.Painted
import Pict.Proofs.RoundTrip.Single

/-!
# Direct pixmaps come back as they were written

A row of 32-bit pixels is written channel by channel, behind a channel that no
one looks at when there are four (`PlanarRow`); a row of 16-bit pixels is
written as words of three times five bits (`WordRow`).

Results:
* `rowStrips_planarRow`, `rowStrips_wordRow`: the strips of such rows.
* `shows_planar`, `shows_words`: the picture shows the image.
* `decode_direct`: every window onto the picture is that window onto the image,
  all red samples first, then all green and all blue ones.
-/
namespace Pict

open PackBits

/-! ## Colors in a word -/

namespace Rgb

/-- The word of a color of three times five bits, with any top bit. -/
def word (top : Bool) (c : Rgb) : UInt16 :=
  UInt16.ofNat ((if top then 0x8000 else 0) + c.red.toNat * 0x400 + c.green.toNat * 0x20 +
    c.blue.toNat)

def IsFiveBit (c : Rgb) : Prop := c.red.toNat < 32 ∧ c.green.toNat < 32 ∧ c.blue.toNat < 32

instance (c : Rgb) : Decidable c.IsFiveBit := inferInstanceAs (Decidable (_ ∧ _ ∧ _))

/-- A word stands for a color of three times five bits. -/
def InWord (w : UInt16) (c : Rgb) : Prop := c.IsFiveBit ∧ ∃ top, w = c.word top

theorem toNat_word {c : Rgb} (h : c.IsFiveBit) (top : Bool) :
    (c.word top).toNat = (if top then 0x8000 else 0) + c.red.toNat * 0x400 +
      c.green.toNat * 0x20 + c.blue.toNat := by
  obtain ⟨hr, hg, hb⟩ := h
  rw [word, UInt16.toNat_ofNat', Nat.mod_eq_of_lt]
  split <;> omega

/-- A mask of five bits, `shift` bits up, takes the five bits there. -/
theorem masked_eq (w mask shift : UInt16) (hs : shift.toNat < 16)
    (hm : mask.toNat = 31 <<< shift.toNat) :
    ((w &&& mask) >>> shift).toUInt8.toNat = w.toNat / 2 ^ shift.toNat % 32 := by
  have h31 : (31 : Nat) = 2 ^ 5 - 1 := rfl
  rw [UInt16.toNat_toUInt8, UInt16.toNat_shiftRight, UInt16.toNat_and, Nat.mod_eq_of_lt hs, hm,
    Nat.shiftRight_and_distrib, Nat.shiftLeft_shiftRight, h31, Nat.and_two_pow_sub_one_eq_mod,
    Nat.shiftRight_eq_div_pow]
  omega

variable {w : UInt16} {c : Rgb}

theorem red5_eq (h : InWord w c) : red5 w = c.red := by
  obtain ⟨hc, top, rfl⟩ := h
  have hmask := masked_eq (c.word top) 0x7C00 10 (by decide) (by decide)
  apply UInt8.toNat_inj.mp
  rw [red5, hmask, toNat_word hc]
  obtain ⟨hr, hg, hb⟩ := hc
  show _ / 1024 % 32 = _
  split <;> omega

theorem green5_eq (h : InWord w c) : green5 w = c.green := by
  obtain ⟨hc, top, rfl⟩ := h
  have hmask := masked_eq (c.word top) 0x03E0 5 (by decide) (by decide)
  apply UInt8.toNat_inj.mp
  rw [green5, hmask, toNat_word hc]
  obtain ⟨hr, hg, hb⟩ := hc
  show _ / 32 % 32 = _
  split <;> omega

theorem blue5_eq (h : InWord w c) : blue5 w = c.blue := by
  obtain ⟨hc, top, rfl⟩ := h
  have h31 : (0x001F : UInt16).toNat = 2 ^ 5 - 1 := rfl
  apply UInt8.toNat_inj.mp
  rw [blue5, UInt16.toNat_toUInt8, UInt16.toNat_and, h31, Nat.and_two_pow_sub_one_eq_mod,
    toNat_word hc]
  obtain ⟨hr, hg, hb⟩ := hc
  split <;> omega

theorem map_words {words : List UInt16} {colors : List Rgb} {five : UInt16 → UInt8}
    {channel : Rgb → UInt8} (hfive : ∀ {w c}, InWord w c → five w = channel c)
    (h : List.Forall₂ InWord words colors) : words.map five = colors.map channel := by
  induction h with
  | nil => rfl
  | cons hw _ ih => rw [List.map_cons, List.map_cons, hfive hw, ih]

end Rgb

/-! ## Rows -/

/-- `written` stands for a row of 32-bit pixels: a first channel if there are four, then the
red, green and blue samples of the colors, packed in any way that packets allow. -/
def PlanarRow (components width : Nat) (written : List UInt8) (colors : List Rgb) : Prop :=
  ∃ (first : List UInt8) (packets : List (Packet UInt8)),
    first.length = (components - 3) * width ∧ (∀ packet ∈ packets, packet.Valid) ∧
    expandAll packets =
      first ++ (colors.map Rgb.red ++ (colors.map Rgb.green ++ colors.map Rgb.blue)) ∧
    written = bytesOf (fun b => [b]) packets ∧
    written.length ≤ min (components * width + 1 + components * width / 128) 32767

/-- `written` stands for a row of 16-bit pixels: less than four words as they are, more of
them packed in any way that packets of words allow. -/
def WordRow (width : Nat) (written : List UInt8) (colors : List Rgb) : Prop :=
  ∃ words : List UInt16, List.Forall₂ Rgb.InWord words colors ∧
    if width < 4 then written = words.flatMap writeWord
    else ∃ packets : List (Packet UInt16), (∀ packet ∈ packets, packet.Valid) ∧
      expandAll packets = words ∧ written = bytesOf writeWord packets ∧
      written.length ≤ min (2 * width + 1 + 2 * width / 128) 32767

theorem crop_between (xs ys zs : List UInt8) : crop xs.length ys.length (xs ++ (ys ++ zs)) = ys := by
  rw [crop, List.drop_left, fit, List.take_left, List.length_append,
    Nat.sub_eq_zero_of_le (Nat.le_add_right _ _), List.replicate_zero, List.append_nil]

section PlanarRow

variable {f : Format} {width : Nat} {written : List UInt8} {colors : List Rgb}

theorem isPacked_planar (h32 : f.pixelSize = 32) (rowBytes : Nat) :
    f.isPacked rowBytes = true := by
  rw [Format.isPacked, decide_eq_true h32, Bool.or_true]

theorem PlanarRow.complete (h32 : f.pixelSize = 32)
    (h : PlanarRow f.components width written colors) :
    f.Complete (width * f.components) written := by
  obtain ⟨-, packets, -, -, -, -, hcap⟩ := h
  rw [Nat.mul_comm f.components, Nat.le_min] at hcap
  rw [Format.Complete, if_pos (isPacked_planar h32 _)]
  exact ⟨hcap.1, by omega⟩

/-- A row of 32-bit pixels has one strip of bytes for each channel, and the last three of
them are those of its colors. -/
theorem rowStrips_planarRow (h32 : f.pixelSize = 32)
    (hc : f.components = 3 ∨ f.components = 4)
    (h : PlanarRow f.components width written colors) (hw : colors.length = width) :
    let strips := f.rowStrips width (width * f.components) written
    strips.length = f.components ∧ (∃ first, strips[0]? = some (.bytes first)) ∧
      strips[f.components - 3]? = some (.bytes (colors.map Rgb.red)) ∧
      strips[f.components - 3 + 1]? = some (.bytes (colors.map Rgb.green)) ∧
      strips[f.components - 3 + 2]? = some (.bytes (colors.map Rgb.blue)) := by
  obtain ⟨first, packets, hfirst, hv, hrow, rfl, -⟩ := h
  have hall : decodeBytes (width * 4) (bytesOf (fun b => [b]) packets) =
      first ++ (colors.map Rgb.red ++ (colors.map Rgb.green ++ colors.map Rgb.blue)) := by
    rw [decodeBytes_packets hv, hrow, List.take_of_length_le]
    simp only [List.length_append, List.length_map, hfirst, hw]
    rcases hc with hc | hc <;> rw [hc] <;> omega
  have hstrips : f.rowStrips width (width * f.components) (bytesOf (fun b => [b]) packets) =
      (List.range f.components).map fun c => .bytes (crop (c * width) width
        (first ++ (colors.map Rgb.red ++ (colors.map Rgb.green ++ colors.map Rgb.blue)))) := by
    unfold Format.rowStrips Format.rowStrips? Format.packedStrips
    rw [if_pos (isPacked_planar h32 _), hall, h32]
    rfl
  have hred := crop_between first (colors.map Rgb.red) (colors.map Rgb.green ++ colors.map Rgb.blue)
  have hgreen := crop_between (first ++ colors.map Rgb.red) (colors.map Rgb.green)
    (colors.map Rgb.blue)
  have hblue := crop_between (first ++ (colors.map Rgb.red ++ colors.map Rgb.green))
    (colors.map Rgb.blue) []
  simp only [List.append_assoc, List.append_nil, List.length_append, List.length_map, hfirst, hw]
    at hred hgreen hblue
  have hget : ∀ k < f.components,
      (f.rowStrips width (width * f.components) (bytesOf (fun b => [b]) packets))[k]? =
        some (.bytes (crop (k * width) width
          (first ++ (colors.map Rgb.red ++ (colors.map Rgb.green ++ colors.map Rgb.blue))))) := by
    intro k hk
    rw [hstrips, List.getElem?_map, List.getElem?_range hk, Option.map_some]
  refine ⟨by rw [hstrips, List.length_map, List.length_range], ⟨_, hget 0 (by omega)⟩, ?_, ?_, ?_⟩
  · rw [hget _ (by omega), hred]
  · rw [hget _ (by omega), Nat.succ_mul, hgreen]
  · rw [hget _ (by omega), Nat.add_mul, Nat.two_mul, hblue]

end PlanarRow

section WordRow

variable {f : Format} {width : Nat} {written : List UInt8} {colors : List Rgb}

theorem isPacked_words (h16 : f.pixelSize = 16) :
    f.isPacked (width * 2) = decide (4 ≤ width) := by
  have h32 : f.pixelSize ≠ 32 := by omega
  rw [Format.isPacked, decide_eq_false h32, Bool.or_false, decide_eq_decide]
  omega

theorem WordRow.complete (h16 : f.pixelSize = 16) (h : WordRow width written colors)
    (hw : colors.length = width) : f.Complete (width * 2) written := by
  obtain ⟨words, hwords, hwritten⟩ := h
  unfold Format.Complete
  rw [isPacked_words h16]
  by_cases hr : width < 4
  · rw [if_pos hr] at hwritten
    rw [if_neg (by simpa using hr), hwritten, length_blocks fun w _ => length_writeWord w,
      hwords.length_eq, hw]
  · rw [if_neg hr] at hwritten
    obtain ⟨packets, -, -, -, hcap⟩ := hwritten
    rw [Nat.mul_comm 2, Nat.le_min] at hcap
    rw [if_pos (by simpa using hr)]
    exact ⟨hcap.1, by omega⟩

/-- A row of 16-bit pixels has one strip, of words that stand for its colors. -/
theorem rowStrips_wordRow (h16 : f.pixelSize = 16) (h : WordRow width written colors)
    (hw : colors.length = width) :
    ∃ words, f.rowStrips width (width * 2) written = [.words words] ∧
      List.Forall₂ Rgb.InWord words colors := by
  obtain ⟨words, hwords, hwritten⟩ := h
  have hfit : fit width words = words := fit_of_length (hwords.length_eq.trans hw)
  refine ⟨words, ?_, hwords⟩
  unfold Format.rowStrips Format.rowStrips?
  rw [isPacked_words h16]
  by_cases hr : width < 4
  · rw [if_pos hr] at hwritten
    have hback : Format.wordsOf (words.flatMap writeWord) = words :=
      wordUnits.read_flatMap_write words
    rw [if_neg (by simpa using hr), Format.rawStrip, if_pos h16, hwritten, hback, hfit]
    rfl
  · rw [if_neg hr] at hwritten
    obtain ⟨packets, hv, hex, rfl, -⟩ := hwritten
    rw [if_pos (by simpa using hr), Format.packedStrips, if_pos h16, decodeWords_packets hv, hex,
      hfit]

end WordRow

/-! ## Pictures -/

def Rgb.channels : List (Rgb → UInt8) := [Rgb.red, Rgb.green, Rgb.blue]

section
variable {f : Format} {p : Picture} {image : List (List Rgb)} {rows : List (List UInt8)}

/-- A picture with a strip for each channel of each row of an image shows the image. -/
theorem shows_planar (h32 : f.pixelSize = 32) (hc : f.components = 3 ∨ f.components = 4)
    (hne : image ≠ []) (hwidth : ∀ row ∈ image, row.length = p.width)
    (hheight : image.length = p.declaredHeight)
    (hrows : List.Forall₂ (PlanarRow f.components p.width) rows image)
    (hpalette : p.palette = none) (hjpeg : p.jpegOffsets = #[])
    (hstrips : p.strips = (rows.flatMap (f.rowStrips p.width (p.width * f.components))).toArray) :
    p.Shows (.planar f.components) image Rgb.channels := by
  have hcount : ∀ row, ∀ colors ∈ image, PlanarRow f.components p.width row colors →
      (f.rowStrips p.width (p.width * f.components) row).length = f.components :=
    fun row colors hcolors hpr => (rowStrips_planarRow h32 hc hpr (hwidth colors hcolors)).1
  have hsize := size_strips hrows hcount hstrips
  have hpos : 0 < image.length := List.length_pos_iff.mpr hne
  have hp : p.height = p.declaredHeight := height_rows hrows hcount hstrips hheight (by omega)
  have hfirst : ∃ first, p.strips[0]? = some (.bytes first) := by
    have hzero := List.getElem?_eq_getElem hpos
    obtain ⟨written, hpr, hget⟩ := strip_of_row hrows hcount hstrips hzero
    obtain ⟨-, ⟨first, hfirst⟩, -⟩ :=
      rowStrips_planarRow h32 hc hpr (hwidth _ (List.mem_of_getElem? hzero))
    have hget := hget 0 (by omega)
    rw [Nat.zero_mul] at hget
    exact ⟨first, hget.trans hfirst⟩
  have hassembly : p.assembly false = .planar f.components := by
    obtain ⟨first, hfirst⟩ := hfirst
    have hdiv : p.strips.size / p.height = f.components := by
      rw [hsize, hp, ← hheight, Nat.mul_div_cancel_left _ hpos]
    have hthree : p.height ≠ 0 ∧
        (p.strips.size = p.height * 3 ∨ p.strips.size = p.height * 4) := by
      rw [hsize, hp, ← hheight]
      refine ⟨by omega, ?_⟩
      rcases hc with hc | hc <;> rw [hc]
      · exact Or.inl rfl
      · exact Or.inr rfl
    unfold Picture.assembly
    rw [hjpeg, if_neg (by decide), hfirst]
    show p.stripAssembly (.bytes first) = _
    unfold Picture.stripAssembly
    simp only [Strip.isWords, Bool.false_eq_true, if_false, hpalette, Option.isSome_none,
      if_pos hthree, hdiv]
  refine ⟨hassembly, rfl, rfl, by rw [hp, hheight], hwidth, fun win i colors hi hx => ?_⟩
  obtain ⟨written, hpr, hget⟩ := strip_of_row hrows hcount hstrips hi
  obtain ⟨-, -, hr, hg, hb⟩ :=
    rowStrips_planarRow h32 hc hpr (hwidth _ (List.mem_of_getElem? hi))
  have hred := (hget _ (by omega)).trans hr
  have hgreen := (hget _ (by omega)).trans hg
  have hblue := (hget _ (by omega)).trans hb
  rw [← hwidth colors (List.mem_of_getElem? hi)] at hx
  have hcrop : ∀ channel : Rgb → UInt8, crop win.x win.width (colors.map channel) =
      ((colors.drop win.x).take win.width).map channel := by
    intro channel
    rw [crop_front List.prefix_rfl (by rwa [List.length_map]), ← List.map_drop, ← List.map_take]
  show some [_, _, _] = some [_, _, _]
  simp only [Picture.channelStrip, Picture.byteStrip?, Nat.add_zero, Nat.add_assoc]
    at hred hgreen hblue ⊢
  rw [hred, hgreen, hblue]
  simp only [Option.bind_some, Strip.bytes?, Option.getD_some, hcrop]

/-- A picture with a strip of words for each row of an image shows the image. -/
theorem shows_words (h16 : f.pixelSize = 16) (hne : image ≠ [])
    (hwidth : ∀ row ∈ image, row.length = p.width) (hheight : image.length = p.declaredHeight)
    (hrows : List.Forall₂ (WordRow p.width) rows image) (hjpeg : p.jpegOffsets = #[])
    (hstrips : p.strips = (rows.flatMap (f.rowStrips p.width (p.width * 2))).toArray) :
    p.Shows .packed555 image Rgb.channels := by
  have hone : ∀ row, ∀ colors ∈ image, WordRow p.width row colors →
      (f.rowStrips p.width (p.width * 2) row).length = 1 := by
    intro row colors hcolors hpr
    obtain ⟨words, hwords, -⟩ := rowStrips_wordRow h16 hpr (hwidth colors hcolors)
    rw [hwords]
    rfl
  have hp : p.height = p.declaredHeight := height_rows hrows hone hstrips hheight (by decide)
  have hstrip : ∀ (k : Nat) (colors : List Rgb), image[k]? = some colors →
      ∃ words, p.strips[k]? = some (Strip.words words) ∧ List.Forall₂ Rgb.InWord words colors := by
    intro k colors hk
    obtain ⟨row, hpr, hget⟩ := strip_of_row hrows hone hstrips hk
    obtain ⟨words, hwords, hin⟩ :=
      rowStrips_wordRow h16 hpr (hwidth colors (List.mem_of_getElem? hk))
    have hget := hget 0 Nat.zero_lt_one
    rw [Nat.mul_one, Nat.add_zero, hwords] at hget
    exact ⟨words, hget, hin⟩
  have hassembly : p.assembly false = .packed555 := by
    obtain ⟨first, hfirst, -⟩ := hstrip 0 _
      (List.getElem?_eq_getElem (List.length_pos_iff.mpr hne))
    unfold Picture.assembly
    rw [hjpeg, if_neg (by decide), hfirst]
    rfl
  refine ⟨hassembly, rfl, rfl, by rw [hp, hheight], hwidth, fun win i colors hi hx => ?_⟩
  obtain ⟨words, hwords, hin⟩ := hstrip _ _ hi
  rw [← hwidth colors (List.mem_of_getElem? hi), ← hin.length_eq] at hx
  have hchannel : ∀ {five : UInt16 → UInt8} {channel : Rgb → UInt8},
      (∀ {w c}, Rgb.InWord w c → five w = channel c) →
      ((words.drop win.x).take win.width).map five =
        ((colors.drop win.x).take win.width).map channel := by
    intro five channel hfive
    rw [List.map_take, List.map_drop, Rgb.map_words hfive hin, ← List.map_drop, ← List.map_take]
  show (p.wordStrip? (win.y + i)).map _ = some [_, _, _]
  rw [Picture.wordStrip?, hwords]
  simp only [Option.bind_some, Strip.words?, Option.map_some, Scanline.ofWords,
    crop_front List.prefix_rfl hx, hchannel Rgb.red5_eq, hchannel Rgb.green5_eq,
    hchannel Rgb.blue5_eq]

end

/-- The rows of a direct pixmap of some format stand for the rows of an image. -/
def DirectRows (f : Format) (width : Nat) (rows : List (List UInt8)) (image : List (List Rgb)) :
    Prop :=
  f.pixelSize = 32 ∧ (f.components = 3 ∨ f.components = 4) ∧
      List.Forall₂ (PlanarRow f.components width) rows image ∨
    f.pixelSize = 16 ∧ List.Forall₂ (WordRow width) rows image

/-- What both formats have in common: the rows are complete for the row bytes of the format,
and a picture with their strips shows the image. -/
theorem DirectRows.shows {f : Format} {width : Nat} {rows : List (List UInt8)}
    {image : List (List Rgb)} (h : DirectRows f width rows image) (hne : image ≠ [])
    (hwidth : ∀ row ∈ image, row.length = width) :
    ∃ rowBytes, f.directRowBytes? width = some rowBytes ∧ rows.length = image.length ∧
      (∀ row ∈ rows, f.Complete rowBytes row) ∧ f.Decodable rowBytes ∧
      ∀ p : Picture, p.width = width → p.declaredHeight = image.length → p.palette = none →
        p.jpegOffsets = #[] → p.strips = (rows.flatMap (f.rowStrips width rowBytes)).toArray →
        ∃ assembly, p.Shows assembly image Rgb.channels ∧ p.layoutOf assembly = .planarRgb8 := by
  rcases h with ⟨h32, hc, hrows⟩ | ⟨h16, hrows⟩
  · refine ⟨width * f.components, ?_, hrows.length_eq, ?_, ?_, ?_⟩
    · rw [Format.directRowBytes?, if_pos h32]
    · exact forall_of_forall₂ hrows fun _ _ _ hpr => hpr.complete h32
    · exact Or.inr ⟨isPacked_planar h32 _, by rw [h32]; decide⟩
    · rintro p rfl hheight hpalette hjpeg hstrips
      have hshows := shows_planar h32 hc hne hwidth hheight.symm hrows hpalette hjpeg hstrips
      exact ⟨_, hshows, rfl⟩
  · refine ⟨width * 2, ?_, hrows.length_eq, ?_, ?_, ?_⟩
    · rw [Format.directRowBytes?, if_neg (by omega), if_pos h16]
    · exact forall_of_forall₂ hrows fun _ colors hcolors hpr =>
        hpr.complete h16 (hwidth colors hcolors)
    · exact Or.inl (by rw [h16]; decide)
    · rintro p rfl hheight - hjpeg hstrips
      have hshows := shows_words h16 hne hwidth hheight.symm hrows hjpeg hstrips
      exact ⟨_, hshows, rfl⟩

/-- A direct pixmap of any size and of both formats, however its rows are packed, decodes to
its canvas, and every window onto it is read as that window onto the image: all red samples,
then all green ones, then all blue ones. -/
theorem decode_direct (h : HeaderBlock) (base : Vector UInt8 6) (bounds : Bounds)
    (packing placing : Vector UInt8 18) (pixels : PixelBlock) {width height : Nat}
    (hw : 0 < width) (hh : 0 < height) (hbw : bounds.width = width) (hbh : bounds.height = height)
    {image : List (List Rgb)} {rows : List (List UInt8)} (hheight : image.length = height)
    (hwidth : ∀ row ∈ image, row.length = width)
    (hrows : DirectRows pixels.format width rows image) (padding ending : UInt8)
    (tail : List UInt8) :
    ∃ doc, (decode (writeSingle h (.direct base bounds packing pixels placing) rows padding ending
        tail).toArray .unlimited .never).result = .ok doc ∧
      doc.picture.width = width ∧ doc.picture.height = height ∧ doc.picture.palette = none ∧
      ∀ win : Window, win.fits width height = true →
        (doc.readPlane win .never).report.result = .ok
          { pixels := (win.of image).flatten.map Rgb.red ++
              ((win.of image).flatten.map Rgb.green ++ (win.of image).flatten.map Rgb.blue)
            width := win.width
            height := win.height
            layout := .planarRgb8
            bestEffort := false } := by
  have hne : image ≠ [] := by
    rintro rfl
    exact absurd hheight (Nat.ne_of_lt hh)
  obtain ⟨rowBytes, hdirect, hcount, hcomplete, hdecodable, hshows⟩ := hrows.shows hne hwidth
  have hspans : (Opening.direct base bounds packing pixels placing).Spans h.version width height
      rowBytes :=
    { valid := hrows.elim (fun h32 => Or.inr h32.1) fun h16 => Or.inl h16.1
      width_pos := hw
      height_pos := hh
      width_eq := hbw
      height_eq := hbh
      rowBytes_eq := by
        rw [Opening.rowBytes, hdirect, Option.getD_some] }
  obtain ⟨p, hdecode, hpw, hpn, hpalette, hjpeg, hstrips⟩ := hspans.decode_single
    (hcount.trans hheight) hcomplete hdecodable padding ending tail
  obtain ⟨assembly, hshown, hlayout⟩ :=
    hshows p hpw (hpn.trans hheight.symm) hpalette hjpeg hstrips
  have hph : p.height = height := hshown.height.symm.trans hheight
  refine ⟨_, hdecode, hpw, hph, hpalette, fun win hwin => ?_⟩
  rw [← hpw, ← hph] at hwin
  have hread := hshown.readWith hwin Jpeg.baseline
    (writeSingle h (.direct base bounds packing pixels placing) rows padding ending tail).toArray
  rw [hlayout, Window.samples, Rgb.channels, List.flatMap_cons, List.flatMap_cons,
    List.flatMap_singleton] at hread
  exact hread

/-- Two rows of five 16-bit pixels, packed as a run of words, and as a literal and a run with
a packet for nothing between them; and two rows of three 32-bit pixels of four channels, packed as a
literal between two runs, and as one run. -/
theorem decode_direct_formats :
    (∃ doc, (decode (writeSingle Decode.sampleHeader
        (.direct (Vector.replicate 6 0) ⟨0, 0, 2, 5⟩ (Vector.replicate 18 0)
          ⟨16, 3, Vector.replicate 14 0⟩ (Vector.replicate 18 0))
        [[0xFC, 0x84, 0x43], [1, 0x7C, 0x00, 0x83, 0xE0, 0x80, 0xFE, 0x00, 0x1F]]
        0 0 [1, 2, 3]).toArray .unlimited .never).result = .ok doc ∧
      doc.picture.height = 2 ∧
      (doc.readPlane ⟨1, 0, 2, 2⟩ .never).report.result = .ok
        { pixels := [1, 1, 0, 0, 2, 2, 31, 0, 3, 3, 0, 31], width := 2, height := 2
          layout := .planarRgb8, bestEffort := false }) ∧
    ∃ doc, (decode (writeSingle Decode.sampleHeader
        (.direct (Vector.replicate 6 0) ⟨0, 0, 2, 3⟩ (Vector.replicate 18 0)
          ⟨32, 4, Vector.replicate 14 0⟩ (Vector.replicate 18 0))
        [[0xFE, 9, 5, 1, 2, 3, 4, 5, 6, 0xFE, 7], [0xF5, 8]]
        0 0 [1, 2, 3]).toArray .unlimited .never).result = .ok doc ∧
      doc.picture.height = 2 ∧
      (doc.readPlane ⟨1, 0, 2, 2⟩ .never).report.result = .ok
        { pixels := [2, 3, 8, 8, 5, 6, 8, 8, 7, 7, 8, 8], width := 2, height := 2
          layout := .planarRgb8, bestEffort := false } := by
  have hrun : WordRow 5 [0xFC, 0x84, 0x43] (List.replicate 5 ⟨1, 2, 3⟩) := by
    have hword : Rgb.InWord 0x8443 ⟨1, 2, 3⟩ := ⟨by decide, true, by decide⟩
    refine ⟨List.replicate 5 0x8443, ?_, [.run 5 0x8443], by decide, rfl, rfl, by decide⟩
    exact .cons hword (.cons hword (.cons hword (.cons hword (.cons hword .nil))))
  have hmixed : WordRow 5 [1, 0x7C, 0x00, 0x83, 0xE0, 0x80, 0xFE, 0x00, 0x1F]
      [⟨31, 0, 0⟩, ⟨0, 31, 0⟩, ⟨0, 0, 31⟩, ⟨0, 0, 31⟩, ⟨0, 0, 31⟩] := by
    have hred : Rgb.InWord 0x7C00 ⟨31, 0, 0⟩ := ⟨by decide, false, by decide⟩
    have hgreen : Rgb.InWord 0x83E0 ⟨0, 31, 0⟩ := ⟨by decide, true, by decide⟩
    have hblue : Rgb.InWord 0x001F ⟨0, 0, 31⟩ := ⟨by decide, false, by decide⟩
    refine ⟨[0x7C00, 0x83E0, 0x001F, 0x001F, 0x001F], ?_,
      [.literal [0x7C00, 0x83E0], .skip, .run 3 0x001F], by decide, rfl, rfl, by decide⟩
    exact .cons hred (.cons hgreen (.cons hblue (.cons hblue (.cons hblue .nil))))
  have hfourth : PlanarRow 4 3 [0xFE, 9, 5, 1, 2, 3, 4, 5, 6, 0xFE, 7]
      [⟨1, 4, 7⟩, ⟨2, 5, 7⟩, ⟨3, 6, 7⟩] :=
    ⟨[9, 9, 9], [.run 3 9, .literal [1, 2, 3, 4, 5, 6], .run 3 7], rfl, by decide, rfl, rfl,
      by decide⟩
  have hgray : PlanarRow 4 3 [0xF5, 8] (List.replicate 3 ⟨8, 8, 8⟩) :=
    ⟨[8, 8, 8], [.run 12 8], rfl, by decide, rfl, rfl, by decide⟩
  obtain ⟨doc, hdoc, -, hheight, -, hread⟩ := decode_direct Decode.sampleHeader
    (Vector.replicate 6 0) ⟨0, 0, 2, 5⟩ (Vector.replicate 18 0) (Vector.replicate 18 0)
    ⟨16, 3, Vector.replicate 14 0⟩ (by decide : 0 < 5) (by decide : 0 < 2) (by decide) (by decide)
    rfl (by decide) (Or.inr ⟨by decide, .cons hrun (.cons hmixed .nil)⟩) 0 0 [1, 2, 3]
  obtain ⟨doc', hdoc', -, hheight', -, hread'⟩ := decode_direct Decode.sampleHeader
    (Vector.replicate 6 0) ⟨0, 0, 2, 3⟩ (Vector.replicate 18 0) (Vector.replicate 18 0)
    ⟨32, 4, Vector.replicate 14 0⟩ (by decide : 0 < 3) (by decide : 0 < 2) (by decide) (by decide)
    rfl (by decide) (Or.inl ⟨by decide, Or.inr (by decide), .cons hfourth (.cons hgray .nil)⟩)
    0 0 [1, 2, 3]
  exact ⟨⟨doc, hdoc, hheight, hread ⟨1, 0, 2, 2⟩ (by decide)⟩,
    doc', hdoc', hheight', hread' ⟨1, 0, 2, 2⟩ (by decide)⟩

end Pict
