import Pict.Proofs.PackBits.Packets
import Pict.Proofs.Plane.Painted
import Pict.Proofs.RoundTrip.Single
import Pict.Proofs.Samples.PixelRow

/-!
# Bitmaps and indexed pixmaps come back as they were written

An image of up to eight bits per pixel is written row by row: the pixels stand
in the bytes of a row, and a row of eight bytes or more is packed in any way
that packets allow (`PixelRow`).

Results:
* `exists_pixelRows`: every image that fits its row bytes can be written so.
* `rowStrips_pixelRow`: such a row decodes to one strip that starts with its pixels.
* `shows_indexed`: the picture shows the image.
* `decode_indexed`: every window onto the picture is that window onto the image.
-/
namespace Pict

open PackBits

/-- `written` stands for a row of `rowBytes` bytes that holds the pixels: a short row is
written as it is, a longer one as packets that expand to it. -/
def PixelRow (depth rowBytes : Nat) (written pixels : List UInt8) : Prop :=
  ∃ row, row.length = rowBytes ∧ Depth.Holds depth row pixels ∧
    if rowBytes < 8 then written = row
    else ∃ packets : List (Packet UInt8), (∀ packet ∈ packets, packet.Valid) ∧
      expandAll packets = row ∧ written = bytesOf (fun b => [b]) packets ∧
      written.length ≤ rowBytes + 1 + rowBytes / 128

theorem Depth.Holds.take {depth : Nat} {row pixels : List UInt8} (h : Holds depth row pixels)
    {n : Nat} (hn : pixels.length ≤ n * (8 / depth)) : Holds depth (row.take n) pixels := by
  by_cases hlen : row.length ≤ n
  · rwa [List.take_of_length_le hlen]
  · have hsplit : (row.take n).flatMap (samplesOf depth) <+: row.flatMap (samplesOf depth) := by
      nth_rewrite 2 [← List.take_append_drop n row]
      rw [List.flatMap_append]
      exact List.prefix_append _ _
    refine List.prefix_of_prefix_length_le h hsplit ?_
    rw [length_blocks fun b _ => length_samplesOf depth b, List.length_take_of_le (by omega)]
    exact hn

namespace PixelRow

variable {f : Format} {rowBytes width : Nat} {written pixels : List UInt8}

/-- Depths of up to eight bits are packed by the size of the row alone. -/
theorem isPacked_eq (hd : f.pixelSize ∈ [1, 2, 4, 8]) :
    f.isPacked rowBytes = decide (8 ≤ rowBytes) := by
  have h32 : f.pixelSize ≠ 32 := ne_of_mem_of_not_mem hd (by decide)
  rw [Format.isPacked, decide_eq_false h32, Bool.or_false]

theorem complete (hd : f.pixelSize ∈ [1, 2, 4, 8]) (hb : rowBytes < 0x4000)
    (h : PixelRow f.pixelSize rowBytes written pixels) : f.Complete rowBytes written := by
  obtain ⟨row, hlen, -, hw⟩ := h
  unfold Format.Complete
  rw [isPacked_eq hd]
  by_cases hr : rowBytes < 8
  · rw [if_pos hr] at hw
    rw [if_neg (by simpa using hr), hw, hlen]
  · rw [if_neg hr] at hw
    obtain ⟨packets, -, -, -, hcap⟩ := hw
    rw [if_pos (by simpa using hr)]
    exact ⟨hcap, by omega⟩

theorem rawStrip_holds (hd : f.pixelSize ∈ [1, 2, 4, 8]) {row : List UInt8}
    (h : Depth.Holds f.pixelSize row pixels) (hw : pixels.length = width) :
    ∃ strip, f.rawStrip width row = .ok (.bytes strip) ∧ pixels <+: strip := by
  have h16 : f.pixelSize ≠ 16 := ne_of_mem_of_not_mem hd (by decide)
  unfold Format.rawStrip
  rw [if_neg h16]
  by_cases h8 : f.pixelSize = 8
  · rw [h8] at h
    rw [if_pos h8]
    exact ⟨row, rfl, Depth.holds_eight.mp h⟩
  · have hd : f.pixelSize = 1 ∨ f.pixelSize = 2 ∨ f.pixelSize = 4 := by simpa [h8] using hd
    rw [if_neg h8, ← hw, Depth.expandRow_holds hd h]
    exact ⟨pixels, rfl, List.prefix_rfl⟩

theorem packedStrips_holds (hd : f.pixelSize ∈ [1, 2, 4, 8]) {packets : List (Packet UInt8)}
    (hv : ∀ packet ∈ packets, packet.Valid)
    (h : Depth.Holds f.pixelSize (expandAll packets) pixels) (hw : pixels.length = width) :
    ∃ strip, f.packedStrips width (bytesOf (fun b => [b]) packets) = .ok [.bytes strip] ∧
      pixels <+: strip := by
  have hroom : pixels.length ≤ width * 4 * (8 / f.pixelSize) := by
    have hpos : 1 ≤ 8 / f.pixelSize := by
      simp only [List.mem_cons, List.not_mem_nil, or_false] at hd
      rcases hd with hd | hd | hd | hd <;> rw [hd] <;> decide
    calc pixels.length ≤ width * 4 * 1 := by omega
      _ ≤ width * 4 * (8 / f.pixelSize) := Nat.mul_le_mul_left _ hpos
  have hcut := h.take hroom
  have h16 : f.pixelSize ≠ 16 := ne_of_mem_of_not_mem hd (by decide)
  unfold Format.packedStrips
  rw [if_neg h16, decodeBytes_packets hv]
  by_cases h8 : f.pixelSize = 8
  · rw [h8] at hcut
    simp only [h8, Nat.lt_irrefl, if_false, if_true]
    exact ⟨_, rfl, Depth.holds_eight.mp hcut⟩
  · have hd : f.pixelSize = 1 ∨ f.pixelSize = 2 ∨ f.pixelSize = 4 := by simpa [h8] using hd
    have hlt : f.pixelSize < 8 := by omega
    have hrow := Depth.expandRow_holds hd hcut
    rw [hw] at hrow
    simp only [hlt, if_true, hrow]
    exact ⟨pixels, rfl, List.prefix_rfl⟩

/-- A row decodes to one strip that starts with its pixels. -/
theorem rowStrips_pixelRow (hd : f.pixelSize ∈ [1, 2, 4, 8])
    (h : PixelRow f.pixelSize rowBytes written pixels) (hw : pixels.length = width) :
    ∃ strip, f.rowStrips width rowBytes written = [.bytes strip] ∧ pixels <+: strip := by
  obtain ⟨row, -, hrow, hwritten⟩ := h
  unfold Format.rowStrips Format.rowStrips?
  rw [isPacked_eq hd]
  by_cases hr : rowBytes < 8
  · rw [if_pos hr] at hwritten
    obtain ⟨strip, hstrip, hstart⟩ := rawStrip_holds hd hrow hw
    rw [if_neg (by simpa using hr), hwritten, hstrip]
    exact ⟨strip, rfl, hstart⟩
  · rw [if_neg hr] at hwritten
    obtain ⟨packets, hv, rfl, rfl, -⟩ := hwritten
    obtain ⟨strip, hstrip, hstart⟩ := packedStrips_holds hd hv hrow hw
    rw [if_pos (by simpa using hr), hstrip]
    exact ⟨strip, rfl, hstart⟩

end PixelRow

/-- How a picture without direct colors is assembled. -/
def Opening.plainAssembly (o : Opening) : Assembly := if o.palette?.isSome then .indexed else .gray

theorem strips_pixelRows {f : Format} {p : Picture} {image rows : List (List UInt8)}
    {rowBytes : Nat} (hd : f.pixelSize ∈ [1, 2, 4, 8]) (hcols : ∀ row ∈ image, row.length = p.width)
    (hrows : List.Forall₂ (PixelRow f.pixelSize rowBytes) rows image)
    (hstrips : p.strips = (rows.flatMap (f.rowStrips p.width rowBytes)).toArray) :
    (∀ row, ∀ pixels ∈ image, PixelRow f.pixelSize rowBytes row pixels →
        (f.rowStrips p.width rowBytes row).length = 1) ∧
      ∀ (k : Nat) (pixels : List UInt8), image[k]? = some pixels →
        ∃ strip, p.strips[k]? = some (Strip.bytes strip) ∧ pixels <+: strip := by
  have hone : ∀ row, ∀ pixels ∈ image, PixelRow f.pixelSize rowBytes row pixels →
      (f.rowStrips p.width rowBytes row).length = 1 := by
    intro row pixels hpixels hpr
    obtain ⟨strip, hstrip, -⟩ := PixelRow.rowStrips_pixelRow hd hpr (hcols pixels hpixels)
    rw [hstrip]
    rfl
  refine ⟨hone, fun k pixels hk => ?_⟩
  obtain ⟨row, hpr, hget⟩ := strip_of_row hrows hone hstrips hk
  obtain ⟨strip, hstrip, hstart⟩ :=
    PixelRow.rowStrips_pixelRow hd hpr (hcols pixels (List.mem_of_getElem? hk))
  have hget := hget 0 Nat.zero_lt_one
  rw [Nat.mul_one, Nat.add_zero, hstrip] at hget
  exact ⟨strip, hget, hstart⟩

theorem shows_rows {p : Picture} {assembly : Assembly} {image : List (List UInt8)}
    (hassembly : p.assembly false = assembly) (hplane : assembly = .gray ∨ assembly = .indexed)
    (hheight : image.length = p.height) (hcols : ∀ row ∈ image, row.length = p.width)
    (hstrip : ∀ (k : Nat) (pixels : List UInt8), image[k]? = some pixels →
      ∃ strip, p.strips[k]? = some (Strip.bytes strip) ∧ pixels <+: strip) :
    p.Shows assembly image [id] := by
  have hcrop : ∀ (win : Window) (i : Nat) (pixels : List UInt8), image[win.y + i]? = some pixels →
      win.x + win.width ≤ p.width →
      ((p.byteStrip? (win.y + i)).map fun row => [crop win.x win.width row]) =
        some [((pixels.drop win.x).take win.width).map id] := by
    intro win i pixels hi hx
    obtain ⟨strip, hstrip, hstart⟩ := hstrip _ _ hi
    rw [← hcols pixels (List.mem_of_getElem? hi)] at hx
    rw [Picture.byteStrip?, hstrip, List.map_id]
    simp only [Option.bind_some, Strip.bytes?, Option.map_some, crop_front hstart hx]
  rcases hplane with rfl | rfl <;> exact ⟨hassembly, rfl, rfl, hheight, hcols, hcrop⟩

/-- A picture with one strip for each row of an image shows the image. -/
theorem shows_indexed {o : Opening} {p : Picture} {image rows : List (List UInt8)} {rowBytes : Nat}
    (hd : o.format.pixelSize ∈ [1, 2, 4, 8]) (hne : image ≠ [])
    (hcols : ∀ row ∈ image, row.length = p.width) (hheight : image.length = p.declaredHeight)
    (hrows : List.Forall₂ (PixelRow o.format.pixelSize rowBytes) rows image)
    (hpalette : p.palette = o.palette?) (hjpeg : p.jpegOffsets = #[])
    (hstrips : p.strips = (rows.flatMap (o.format.rowStrips p.width rowBytes)).toArray) :
    p.Shows o.plainAssembly image [id] := by
  obtain ⟨hone, hstrip⟩ := strips_pixelRows hd hcols hrows hstrips
  have hsize := size_strips hrows hone hstrips
  have hp : p.height = p.declaredHeight := height_rows hrows hone hstrips hheight (by decide)
  have hpos : 0 < image.length := List.length_pos_iff.mpr hne
  have hassembly : p.assembly false = o.plainAssembly := by
    obtain ⟨first, hfirst, -⟩ := hstrip 0 _ (List.getElem?_eq_getElem hpos)
    have hthree : ¬ (p.height ≠ 0 ∧
        (p.strips.size = p.height * 3 ∨ p.strips.size = p.height * 4)) := by
      omega
    unfold Picture.assembly Opening.plainAssembly
    rw [hjpeg, if_neg (by decide), hfirst]
    show p.stripAssembly (.bytes first) = _
    unfold Picture.stripAssembly
    simp only [Strip.isWords, Bool.false_eq_true, if_false, if_neg hthree, hpalette]
  have hplane : o.plainAssembly = .gray ∨ o.plainAssembly = .indexed := by
    unfold Opening.plainAssembly
    split
    · exact Or.inr rfl
    · exact Or.inl rfl
  exact shows_rows hassembly hplane (hheight.trans hp.symm) hcols hstrip

/-- Any pixels of the right depth can be written as a row that has enough bytes for them. -/
theorem exists_pixelRow {depth rowBytes : Nat} (hd : depth ∈ [1, 2, 4, 8]) {pixels : List UInt8}
    (hlt : ∀ x ∈ pixels, x.toNat < 2 ^ depth) (hlen : pixels.length * depth ≤ rowBytes * 8) :
    ∃ written, PixelRow depth rowBytes written pixels := by
  have hfull : depth * (8 / depth) = 8 := by
    simp only [List.mem_cons, List.not_mem_nil, or_false] at hd
    rcases hd with rfl | rfl | rfl | rfl <;> rfl
  have hpos : 0 < depth := Nat.pos_of_ne_zero fun h => by simp [h] at hfull
  have hfits : pixels.length ≤ rowBytes * (8 / depth) := by
    refine Nat.le_of_mul_le_mul_right ?_ hpos
    rw [Nat.mul_assoc, Nat.mul_comm (8 / depth), hfull]
    exact hlen
  have hholds := Depth.holds_packRow hfull rowBytes pixels hfits hlt
  have hrow := Depth.length_packRow depth rowBytes pixels
  by_cases hr : rowBytes < 8
  · refine ⟨Depth.packRow depth rowBytes pixels, _, hrow, hholds, ?_⟩
    rw [if_pos hr]
  · obtain ⟨packets, hv, hex, hcap⟩ := exists_packets (Depth.packRow depth rowBytes pixels)
    refine ⟨bytesOf (fun b => [b]) packets, _, hrow, hholds, ?_⟩
    rw [if_neg hr]
    refine ⟨packets, hv, hex, rfl, ?_⟩
    omega

/-- So can the rows of any image. -/
theorem exists_pixelRows {depth rowBytes : Nat} (hd : depth ∈ [1, 2, 4, 8])
    {image : List (List UInt8)} (hlt : ∀ pixels ∈ image, ∀ x ∈ pixels, x.toNat < 2 ^ depth)
    (hlen : ∀ pixels ∈ image, pixels.length * depth ≤ rowBytes * 8) :
    ∃ rows, List.Forall₂ (PixelRow depth rowBytes) rows image := by
  induction image with
  | nil => exact ⟨[], .nil⟩
  | cons pixels image ih =>
    obtain ⟨hlt, hlts⟩ := List.forall_mem_cons.mp hlt
    obtain ⟨hlen, hlens⟩ := List.forall_mem_cons.mp hlen
    obtain ⟨written, hwritten⟩ := exists_pixelRow hd hlt hlen
    obtain ⟨rows, hrows⟩ := ih hlts hlens
    exact ⟨written :: rows, .cons hwritten hrows⟩

/-- Two bits of the row bytes are flags. -/
theorem Opening.Spans.rowBytes_lt {o : Opening} {version : Version} {width height rowBytes : Nat}
    (ho : o.Spans version width height rowBytes) (hd : o.format.pixelSize ∈ [1, 2, 4, 8]) :
    rowBytes < 0x4000 := by
  have hvalid := ho.valid
  rw [← ho.rowBytes_eq]
  cases o with
  | bitmap | indexed => exact Nat.mod_lt _ (by decide)
  | direct =>
    -- direct pixels have sixteen or thirty-two bits
    rcases hvalid with h16 | h32
    · exact absurd (h16 ▸ hd) (by decide)
    · exact absurd (h32 ▸ hd) (by decide)

/-- A bitmap or an indexed pixmap of any size, however its rows are packed, decodes to its
canvas and its palette, and every window onto it is read as that window onto the image. -/
theorem decode_indexed (h : HeaderBlock) (o : Opening) {width height rowBytes : Nat}
    (hd : o.format.pixelSize ∈ [1, 2, 4, 8]) (ho : o.Spans h.version width height rowBytes)
    {image rows : List (List UInt8)} (hheight : image.length = height)
    (hwidth : ∀ row ∈ image, row.length = width)
    (hrows : List.Forall₂ (PixelRow o.format.pixelSize rowBytes) rows image)
    (padding ending : UInt8) (tail : List UInt8) :
    ∃ doc, (decode (writeSingle h o rows padding ending tail).toArray .unlimited .never).result =
        .ok doc ∧
      doc.picture.width = width ∧ doc.picture.height = height ∧
      doc.picture.palette = o.palette? ∧
      ∀ win : Window, win.fits width height = true →
        (doc.readPlane win .never).report.result = .ok
          { pixels := (win.of image).flatten
            width := win.width
            height := win.height
            layout := if o.palette?.isSome then .indexed8 else .gray8
            bestEffort := false } := by
  have hb : rowBytes < 0x4000 := ho.rowBytes_lt hd
  have hcomplete : ∀ row ∈ rows, o.format.Complete rowBytes row :=
    forall_of_forall₂ hrows fun _ _ _ hpr => PixelRow.complete hd hb hpr
  have hdecodable : o.format.Decodable rowBytes := by
    refine Or.inl ?_
    simp only [List.mem_cons, List.not_mem_nil, or_false] at hd ⊢
    omega
  obtain ⟨p, hdecode, hw, hn, hpalette, hjpeg, hstrips⟩ := ho.decode_single
    (hrows.length_eq.trans hheight) hcomplete hdecodable padding ending tail
  rw [← hw] at hwidth hstrips
  rw [← hn] at hheight
  have hne : image ≠ [] := by
    rintro rfl
    exact absurd (hheight.trans hn) (Nat.ne_of_lt ho.height_pos)
  have hshows := shows_indexed hd hne hwidth hheight hrows hpalette hjpeg hstrips
  have hph : p.height = height := hshows.height.symm.trans (hheight.trans hn)
  have hlayout : p.layoutOf o.plainAssembly = if o.palette?.isSome then .indexed8 else .gray8 := by
    unfold Opening.plainAssembly
    split <;> rfl
  refine ⟨_, hdecode, hw, hph, hpalette, fun win hwin => ?_⟩
  rw [← hw, ← hph] at hwin
  have hread := hshows.readWith hwin Jpeg.baseline
    (writeSingle h o rows padding ending tail).toArray
  rw [hlayout, Window.samples, List.flatMap_singleton, List.map_id] at hread
  exact hread

/-- A pixmap of 17 by 2 pixels of four bits, with nine bytes to each row. -/
def nibbleOpening : Opening :=
  .indexed .packBitsRegion 0x8009 ⟨0xFFFF, 3, 1, 20⟩ (Vector.replicate 18 0)
    ⟨4, 1, Vector.replicate 14 0⟩
    ⟨Vector.replicate 4 0, 0, 0, [⟨Vector.replicate 2 0, ⟨10, 20, 30⟩, 1, 2, 3⟩], rfl⟩
    (Vector.replicate 18 0) (Vector.replicate 2 0)

/-- One row is packed as a run, the other one as a literal and a run with a packet for
nothing between them. -/
theorem decode_nibbles :
    ∃ doc, (decode (writeSingle Decode.sampleHeader nibbleOpening
        [[0xF8, 0x12], [3, 0x01, 0x23, 0x45, 0x67, 0x80, 0xFC, 0xF7]] 0 0 [1, 2, 3]).toArray
        .unlimited .never).result = .ok doc ∧
      doc.picture.height = 2 ∧ doc.picture.palette = some ⟨0, [⟨10, 20, 30⟩]⟩ ∧
      (doc.readPlane ⟨15, 0, 2, 2⟩ .never).report.result = .ok
        { pixels := [2, 1, 7, 15], width := 2, height := 2, layout := .indexed8
          bestEffort := false } := by
  have hspans : nibbleOpening.Spans Decode.sampleHeader.version 17 2 9 :=
    ⟨by decide, by decide, by decide, by decide, by decide, by decide⟩
  have hrun : PixelRow 4 9 [0xF8, 0x12] [1, 2, 1, 2, 1, 2, 1, 2, 1, 2, 1, 2, 1, 2, 1, 2, 1] :=
    ⟨List.replicate 9 0x12, rfl, by decide, [.run 9 0x12], by decide, rfl, rfl, by decide⟩
  have hmixed : PixelRow 4 9 [3, 0x01, 0x23, 0x45, 0x67, 0x80, 0xFC, 0xF7]
      [0, 1, 2, 3, 4, 5, 6, 7, 15, 7, 15, 7, 15, 7, 15, 7, 15] :=
    ⟨[0x01, 0x23, 0x45, 0x67, 0xF7, 0xF7, 0xF7, 0xF7, 0xF7], rfl, by decide,
      [.literal [0x01, 0x23, 0x45, 0x67], .skip, .run 5 0xF7], by decide, rfl, rfl, by decide⟩
  obtain ⟨doc, hdoc, -, hheight, hpalette, hread⟩ := decode_indexed Decode.sampleHeader
    nibbleOpening (by decide) hspans rfl (by decide) (.cons hrun (.cons hmixed .nil)) 0 0 [1, 2, 3]
  exact ⟨doc, hdoc, hheight, hpalette, hread ⟨15, 0, 2, 2⟩ (by decide)⟩

end Pict
