import Pict.Proofs.Decode.Bitmaps
import Pict.Proofs.PackBits.Encoding
import Pict.Proofs.Plane.Assembled
import Pict.Proofs.Raster.Appended
import Pict.Proofs.RoundTrip.Indexed

/-!
# Pixmaps whose rows are packed by the encoder

The packets of the encoder stand for the row they were made of, but a row is read with no more bytes
than one header for each 128 bytes of it. The encoder takes more headers where short runs break up
the literals, and a row that is packed in too many bytes loses its end.

Results:
* `Decode.turn_opened`, `Decode.decode_first`: what a picture decodes to starts with the rows of the
  raster that comes first.
* `Opening.Spans.decode_longRow`: a row that is too long is stored as far as the capacity reaches.
* `PackBits.exists_not_fits`: every width from eight on has rows that are too long.
* `Document.byteAt_of_plane`: where an image is read, the strips hold its pixels.
* `decode_encoded`: an image comes back if all its rows fit, and only if what is lost of the first
  one that does not is black.
-/
namespace Pict

open Job

namespace Decode

/-- A turn in front of a raster reads its rows, from behind its opening on. -/
theorem turn_opened {o : Opening} {p : Picture} (ho : o.Valid p.version) (padding : UInt8)
    {front rest : List UInt8} {s t : Session Walk} {more : Bool}
    (hs : Stands s front (Opcode.pad p.version front.length padding ++
      (Opcode.codeBytes p.version o.kind.code ++ o.lead) ++ (o.body ++ rest)) p)
    (h : turn .unlimited .never s = .ok more t) :
    ∃ u before, Stands u before rest (o.onto p) ∧
      Raster.readRows o.format .never u = .ok () t := by
  have hbody : p.version = .two → o.lead ++ (o.body ++ rest) ≠ [] := by
    intro _
    cases o <;> simp [Opening.lead, Opening.body, Bounds.bytes, PackBits.writeWord]
  have hop := Opcode.read_opcode (kind_inVersion p.version o.kind) front padding
    (o.takes_ofCode ho) hbody
  obtain ⟨u, hu, hsu⟩ := Passes.read hop p s hs
  obtain ⟨v, hv, hsv⟩ := Passes.check _ _ _ u hsu
  rw [List.append_nil] at hsv
  obtain ⟨w, hw, hsw⟩ := o.passes ho _ rest p v hsv
  have hallow : allow .unlimited o.op .never v = .ok (some o.format) w :=
    bind_eq_ok.mpr ⟨some o.format, w, hw, rfl⟩
  refine ⟨w, _, hsw, ?_⟩
  rw [← hs.picture] at hu
  rcases turn_eq_ok h with ⟨-, hnone⟩ | ⟨opcode, s₁, s₂, goesOn, hread, hcheck, hdispatch, -⟩
  · cases (Job.ok_unique hu hnone).1
  · obtain ⟨hopcode, rfl⟩ := Job.ok_unique hu hread
    obtain rfl := Option.some.inj hopcode
    obtain ⟨-, rfl⟩ := Job.ok_unique hv hcheck
    rcases dispatch_raster_eq_ok hdispatch with hnone | ⟨f, x, hsome, hrows⟩
    · cases (Job.ok_unique hallow hnone).1
    · obtain ⟨hformat, rfl⟩ := Job.ok_unique hallow hsome
      obtain rfl := Option.some.inj hformat
      exact hrows

/-- A picture that decodes takes a first turn, and strips are only appended behind it. -/
theorem decode_first {h : HeaderBlock} {rest : List UInt8} {limits : Limits} {stop : Stop}
    {doc : Document} (hdoc : (decode (h.bytes ++ rest).toArray limits stop).result = .ok doc) :
    ∃ more u k, turn limits stop (entered h.info (.between h.bytes rest)) = .ok more u ∧
      u.work.picture.GrowsBy k doc.picture := by
  obtain ⟨t, hturns, rfl⟩ := turns_of_decode (Header.parse_header h rest) hdoc
  obtain ⟨n, hn⟩ : ∃ n, (Cursor.between h.bytes rest).source.size = n + 1 := by
    have hlength := h.length_bytes
    refine ⟨(Cursor.between h.bytes rest).source.size - 1, ?_⟩
    simp only [Cursor.between, List.size_toArray, List.length_append]
    split at hlength <;> omega
  rw [hn] at hturns
  rcases turns_succ_eq_ok hturns with hlast | ⟨u, hfirst, hrest⟩
  · exact ⟨false, t, 0, hlast, .refl _⟩
  · obtain ⟨k, hgrows⟩ := turns_grow n hrest
    exact ⟨true, u, k, hfirst, hgrows⟩

end Decode

namespace Opening.Spans

variable {o : Opening} {h : HeaderBlock} {width height rowBytes : Nat}

theorem writeSingle_eq (ho : o.Spans h.version width height rowBytes) (rows : List (List UInt8))
    (padding ending : UInt8) (tail : List UInt8) :
    ∃ behind, writeSingle h o rows padding ending tail =
      h.bytes ++ (Opcode.pad h.version h.bytes.length padding ++
        (Opcode.codeBytes h.version o.kind.code ++ o.lead) ++
          (o.body ++ (rows.flatMap (o.format.writeRow rowBytes) ++ behind))) := by
  have hbytes : RasterBlock.rowBytes ⟨o, rows⟩ h.info = rowBytes :=
    (congrArg o.rowBytes (ho.override_width h.info.width)).trans ho.rowBytes_eq
  let e : Element := ⟨padding, .raster ⟨o, rows⟩⟩
  refine ⟨Decode.terminator h.version ending (h.bytes.length + (e.bytes h.info h.bytes.length).length)
    ++ tail, ?_⟩
  show h.bytes ++ (e.bytes h.info h.bytes.length ++ _) = _
  rw [Element.bytes]
  show h.bytes ++ (_ ++ RasterBlock.body ⟨o, rows⟩ h.info ++ _) = _
  rw [RasterBlock.body, hbytes]
  simp only [List.append_assoc]
  rfl

/-- What is decoded of a picture with a row that exceeds the capacity: the strips of the rows in
front of it, then those of what the capacity leaves of it. -/
theorem decode_longRow (ho : o.Spans h.version width height rowBytes)
    (hp : o.format.isPacked rowBytes = true) (hf : o.format.Decodable rowBytes)
    {init more : List (List UInt8)} {long : List UInt8}
    (hcount : (init ++ long :: more).length = height)
    (hinit : ∀ row ∈ init, o.format.Complete rowBytes row)
    (hlength : Raster.FitsLength rowBytes long.length)
    (hlong : Raster.packedCapacity rowBytes < long.length) {padding ending : UInt8}
    {tail : List UInt8} {doc : Document}
    (hdoc : (decode (writeSingle h o (init ++ long :: more) padding ending tail).toArray .unlimited
      .never).result = .ok doc) :
    ∃ strips, doc.picture.strips.toList =
      (init ++ [long.take (Raster.packedCapacity rowBytes)]).flatMap
        (o.format.rowStrips width rowBytes) ++ strips := by
  -- the canvas is that of the raster
  let p : Picture := o.onto (Picture.start h.info)
  have hwidth : p.width = width := ho.override_width h.info.width
  have hheight : p.declaredHeight = height := ho.override_height h.info.height
  have hbytes : p.rowBytes = rowBytes := (congrArg o.rowBytes hwidth).trans ho.rowBytes_eq
  -- the first turn reads its rows
  obtain ⟨behind, hwritten⟩ := ho.writeSingle_eq (init ++ long :: more) padding ending tail
  rw [hwritten] at hdoc
  obtain ⟨goesOn, t, k, hturn, hgrows⟩ := Decode.decode_first hdoc
  obtain ⟨u, before, hu, hrows⟩ :=
    Decode.turn_opened (p := Picture.start h.info) ho.valid padding ⟨rfl, rfl⟩ hturn
  rw [List.flatMap_append, List.flatMap_cons, List.append_assoc, List.append_assoc] at hu
  rw [← hbytes] at hp hf hinit hlength hlong hu
  rw [List.length_append, List.length_cons, Nat.add_comm more.length, ← hheight] at hcount
  obtain ⟨rows, hpicture⟩ := Raster.readRows_cut hp hf hinit hlength hlong hcount.symm hu
  rw [hrows] at hpicture
  have ht : t.work.picture = p.withRows o.format p.width p.rowBytes
    (init ++ long.take (Raster.packedCapacity p.rowBytes) :: rows) := hpicture
  have hnone : p.strips = #[] := rfl
  obtain ⟨strips, hstrips, -⟩ := hgrows
  refine ⟨rows.flatMap (o.format.rowStrips width rowBytes) ++ strips, ?_⟩
  rw [hstrips, ht, Picture.withRows, Picture.extend, hwidth, hbytes, hnone]
  simp

end Opening.Spans

/-! ## Rows that are too long -/

namespace PackBits

/-- The packed bytes of a row are no more than a packed row is read with. -/
def Fits (row : List UInt8) : Prop := (encodeBytes row).length ≤ Raster.packedCapacity row.length

instance (row : List UInt8) : Decidable (Fits row) := inferInstanceAs (Decidable (_ ≤ _))

/-- Of every width from eight on there is a row that does not fit, by one byte or two. -/
theorem exists_not_fits {width : Nat} (hwidth : 8 ≤ width) (hmost : width < 0x4000) :
    ∃ row : List UInt8, row.length = width ∧
      Raster.FitsLength width (encodeBytes row).length ∧ ¬ Fits row ∧
      ∀ x, row.getLast? = some x → x ≠ 0 := by
  obtain ⟨n, rfl⟩ : ∃ n, width = n + 6 := ⟨width - 6, by omega⟩
  obtain ⟨m, rfl⟩ : ∃ m, n = m + 1 := ⟨n - 1, by omega⟩
  let behind := alternating 2 3 (m + 1)
  have hbehind : (encodeBytes behind).length = m + 1 + (m + 1 + 127) / 128 := by
    rw [length_encodeBytes_distinct _ (isChain_alternating (by decide) _), length_alternating]
  have hpacked : (encodeBytes (0 :: 1 :: 1 :: 0 :: 1 :: 1 :: behind)).length =
      8 + (encodeBytes behind).length := by
    have hsecond : encode (0 :: 1 :: 1 :: behind) = .literal [0] :: .run 2 1 :: encode behind :=
      encode_triple (by decide) (by simp [behind, alternating])
    rw [encodeBytes, encode_triple (by decide) (by simp), hsecond]
    simp only [bytesOf_cons, List.length_append, Packet.length_bytes_literal,
      Packet.length_bytes_run, List.length_singleton, encodeBytes]
    omega
  have hlength : (0 :: 1 :: 1 :: 0 :: 1 :: 1 :: behind).length = m + 1 + 6 := by
    simp [behind, length_alternating]
  refine ⟨_, hlength, ?_, ?_, ?_⟩
  · rw [hpacked, hbehind, Raster.FitsLength]
    split <;> omega
  · rw [Fits, hpacked, hbehind, hlength, Raster.packedCapacity]
    omega
  · intro x hx
    have hlast : (0 :: 1 :: 1 :: 0 :: 1 :: 1 :: behind).getLast? = behind.getLast? := rfl
    rw [hlast] at hx
    rcases mem_alternating (List.mem_of_getLast? hx) with rfl | rfl <;> decide

end PackBits

/-! ## Whole pictures -/

theorem Format.rowStrips_eight {f : Format} {rowBytes : Nat} (hd : f.pixelSize = 8)
    (hb : 8 ≤ rowBytes) (width : Nat) (packed : List UInt8) :
    f.rowStrips width rowBytes packed = [.bytes (PackBits.decodeBytes (width * 4) packed)] := by
  have hp : f.isPacked rowBytes = true := by simp [Format.isPacked, hb]
  simp [rowStrips, rowStrips?, hp, packedStrips, hd]

def Opening.plane (o : Opening) (image : List (List UInt8)) (width height : Nat) : Plane :=
  { pixels := image.flatten
    width := width
    height := height
    layout := if o.palette?.isSome then .indexed8 else .gray8
    bestEffort := false }

theorem Opening.sample?_plane (o : Opening) {image : List (List UInt8)} {width height : Nat}
    (hrows : ∀ row ∈ image, row.length = width) {k j : Nat} {row : List UInt8}
    (hk : image[k]? = some row) (hj : j < width) :
    (o.plane image width height).sample? 0 j k = row[j]? := by
  have hoffset : (o.plane image width height).layout.offset width height 0 j k = k * width + j := by
    unfold plane
    split <;> simp [Layout.offset]
  have hblocks := getElem?_blocks (f := fun row : List UInt8 => row) hrows (i := k) hj
  rw [List.flatMap_id', hk] at hblocks
  show image.flatten[(o.plane image width height).layout.offset width height 0 j k]? = row[j]?
  rw [hoffset, hblocks, Option.bind_some]

theorem Document.assembly_of_plane {doc : Document} {o : Opening} {image : List (List UInt8)}
    {width height : Nat} {pixels : List UInt8} {request : Request}
    (h : o.plane image width height = doc.planeOf request pixels) :
    doc.picture.assembly request.legacy = .indexed ∨
      doc.picture.assembly request.legacy = .gray := by
  have hlayout : (if o.palette?.isSome then Layout.indexed8 else .gray8) =
      doc.picture.layoutOf (doc.picture.assembly request.legacy) := congrArg Plane.layout h
  have hanswer : false = decide (doc.picture.assembly request.legacy = .fallback) :=
    congrArg Plane.bestEffort h
  cases hassembly : doc.picture.assembly request.legacy with
  | indexed => exact Or.inl rfl
  | gray => exact Or.inr rfl
  | fallback => simp [hassembly] at hanswer
  | jpeg | planar | packed555 =>
    rw [hassembly] at hlayout
    split at hlayout <;> cases hlayout

/-- Where the whole canvas is read as an image, the bytes of the strips are its pixels. -/
theorem Document.byteAt_of_plane {doc : Document} {o : Opening} {image : List (List UInt8)}
    {width height : Nat} (hrows : ∀ row ∈ image, row.length = width)
    (hread : (doc.readPlane doc.fullWindow .never).report.result =
      .ok (o.plane image width height)) {k j : Nat} {row : List UInt8} {x : UInt8}
    (hk : image[k]? = some row) (hkh : k < height) (hx : row[j]? = some x) :
    doc.picture.byteAt k j = x := by
  obtain ⟨-, -, pixels, hpainted, hplane⟩ := Document.readWith_eq_ok.mp hread
  have hwidth : width = doc.fullWindow.width := congrArg Plane.width hplane
  have hheight : height = doc.fullWindow.height := congrArg Plane.height hplane
  have hj : j < width := by
    rw [← hrows row (List.mem_of_getElem? hk)]
    exact (List.getElem?_eq_some_iff.mp hx).1
  obtain ⟨assembly, hassembly, hrowwise⟩ : ∃ assembly, doc.picture.assembly false = assembly ∧
      (assembly = .indexed ∨ assembly = .gray) :=
    ⟨_, rfl, Document.assembly_of_plane hplane⟩
  have hstrips : assembly.isStrips = true := by
    rcases hrowwise with rfl | rfl <;> rfl
  have hpixels : pixels = doc.picture.stripPixels assembly doc.fullWindow :=
    Except.ok.inj (hpainted.symm.trans (Document.painted_strips hassembly hstrips))
  have hlayout : (o.plane image width height).layout = doc.picture.layoutOf assembly := by
    rw [← hassembly]
    exact congrArg Plane.layout hplane
  have hchannel : 0 < (o.plane image width height).layout.channels := by
    rw [hlayout]
    rcases hrowwise with rfl | rfl <;> exact Nat.zero_lt_one
  have hsample := Picture.stripPixels_views hstrips ((congrArg Plane.pixels hplane).trans hpixels)
    hlayout hwidth hheight 0 hchannel j (hwidth ▸ hj) k (hheight ▸ hkh)
  rw [o.sample?_plane hrows hk hj, hx] at hsample
  rw [← Picture.byteAt_eq, Option.some.inj hsample]
  rcases hrowwise with rfl | rfl <;> simp [Picture.stripSample, Document.fullWindow]

theorem PixelRow.encode {width : Nat} (hwidth : 8 ≤ width) {row : List UInt8}
    (hrow : row.length = width) (hfits : PackBits.Fits row) :
    PixelRow 8 width (PackBits.encodeBytes row) row := by
  refine ⟨row, hrow, Depth.holds_eight.mpr List.prefix_rfl, ?_⟩
  rw [if_neg (by omega)]
  refine ⟨PackBits.encode row, fun packet hp => (PackBits.valid_encode row packet hp).1,
    PackBits.expandAll_encode row, rfl, ?_⟩
  rwa [PackBits.Fits, hrow] at hfits

section
variable {h : HeaderBlock} {o : Opening} {width height : Nat} {image : List (List UInt8)}
  (hd : o.format.pixelSize = 8) (hwidth : 8 ≤ width)
  (ho : o.Spans h.version width height width) (hcount : image.length = height)
  (hrows : ∀ row ∈ image, row.length = width)
include hd hwidth ho hcount hrows

theorem decode_fits (hfits : ∀ row ∈ image, PackBits.Fits row) (padding ending : UInt8)
    (tail : List UInt8) :
    ∃ doc, (decode (writeSingle h o (image.map PackBits.encodeBytes) padding ending tail).toArray
        .unlimited .never).result = .ok doc ∧ doc.picture.palette = o.palette? ∧
      (doc.readPlane doc.fullWindow .never).report.result = .ok (o.plane image width height) := by
  have hpacked : List.Forall₂ (PixelRow o.format.pixelSize width)
      (image.map PackBits.encodeBytes) image := by
    rw [hd, List.forall₂_map_left_iff, List.forall₂_same]
    intro row hrow
    exact PixelRow.encode hwidth (hrows row hrow) (hfits row hrow)
  obtain ⟨doc, hdoc, hw, hh, hpalette, hread⟩ := decode_indexed h o (by rw [hd]; decide) ho hcount
    hrows hpacked padding ending tail
  have hfull : doc.fullWindow = ⟨0, 0, width, height⟩ := by
    rw [Document.fullWindow, hw, hh]
  refine ⟨doc, hdoc, hpalette, ?_⟩
  rw [hfull, hread _ (by simp [Window.fits]), Window.of_whole hrows hcount]
  rfl

/-- A row that does not fit loses its end, and what is lost is black where the canvas is read. -/
theorem decode_not_fits
    (hlengths : ∀ row ∈ image, Raster.FitsLength width (PackBits.encodeBytes row).length)
    {padding ending : UInt8} {tail : List UInt8} {doc : Document}
    (hdoc : (decode (writeSingle h o (image.map PackBits.encodeBytes) padding ending tail).toArray
        .unlimited .never).result = .ok doc) {init more : List (List UInt8)} {long : List UInt8}
    (himage : image = init ++ long :: more) (hfits : ∀ row ∈ init, PackBits.Fits row)
    (hlong : ¬ PackBits.Fits long) :
    ∃ front lost strips, long = front ++ lost ∧ lost ≠ [] ∧
      doc.picture.strips.toList = init.map .bytes ++ .bytes front :: strips ∧
      ((doc.readPlane doc.fullWindow .never).report.result = .ok (o.plane image width height) →
        ∀ x ∈ lost, x = 0) := by
  have hp : o.format.isPacked width = true := by simp [Format.isPacked, hwidth]
  have hbits : o.format.pixelSize ∈ [1, 2, 4, 8] := by simp [hd]
  have hf : o.format.Decodable width := Or.inl (by simp [hd])
  have hinit : ∀ row ∈ init, row.length = width := fun row hrow =>
    hrows row (himage ▸ List.mem_append_left _ hrow)
  have hmem : long ∈ image := himage ▸ List.mem_append_right init List.mem_cons_self
  rw [PackBits.Fits, hrows long hmem, Nat.not_le] at hlong
  have hcomplete : ∀ row ∈ init.map PackBits.encodeBytes, o.format.Complete width row := by
    intro row hrow
    obtain ⟨pixels, hpixels, rfl⟩ := List.mem_map.mp hrow
    have hpixelRow := PixelRow.encode hwidth (hinit pixels hpixels) (hfits pixels hpixels)
    rw [← hd] at hpixelRow
    exact PixelRow.complete hbits (ho.rowBytes_lt hbits) hpixelRow
  -- the strips of the rows in front are their pixels
  have hstrip : ∀ packed, o.format.rowStrips width width packed =
      [.bytes (PackBits.decodeBytes (width * 4) packed)] :=
    Format.rowStrips_eight hd hwidth width
  have hback : ∀ row ∈ init, PackBits.decodeBytes (width * 4) (PackBits.encodeBytes row) = row :=
    fun row hrow => PackBits.decodeBytes_encode (by rw [hinit row hrow]; omega)
  obtain ⟨front, lost, hsplit, hlost, hdecode⟩ := PackBits.decodeBytes_encode_cut long hlong
  have hfront : front.length ≤ width * 4 := by
    have hlen := hrows long hmem
    rw [hsplit, List.length_append] at hlen
    omega
  have hcount' : (init.map PackBits.encodeBytes ++
      PackBits.encodeBytes long :: more.map PackBits.encodeBytes).length = height := by
    rw [← hcount, himage]
    simp
  rw [himage, List.map_append, List.map_cons] at hdoc
  obtain ⟨strips, hstrips⟩ :=
    ho.decode_longRow hp hf hcount' hcomplete (hlengths long hmem) hlong hdoc
  have hall : doc.picture.strips.toList = init.map .bytes ++ .bytes front :: strips := by
    rw [hstrips, funext hstrip, ← List.map_eq_flatMap, List.map_append, List.map_map,
      List.map_singleton, hdecode, List.take_of_length_le hfront, List.append_assoc,
      List.singleton_append]
    congr 1
    exact List.map_congr_left fun row hrow => congrArg Strip.bytes (hback row hrow)
  refine ⟨front, lost, strips, hsplit, hlost, hall, fun hread x hx => ?_⟩
  -- the strip has no byte where the row has the one that is lost
  obtain ⟨i, hi⟩ := List.mem_iff_getElem?.mp hx
  have hk : image[init.length]? = some long := by
    rw [himage, List.getElem?_append_right (Nat.le_refl _), Nat.sub_self, List.getElem?_cons_zero]
  have hj : long[front.length + i]? = some x := by
    rw [hsplit, List.getElem?_append_right (Nat.le_add_right _ _), Nat.add_sub_cancel_left, hi]
  have hkh : init.length < height := by
    rw [← hcount]
    exact (List.getElem?_eq_some_iff.mp hk).1
  have hsome : doc.picture.strips[init.length]? = some (.bytes front) := by
    rw [← Array.getElem?_toList, hall]
    simp
  rw [← Document.byteAt_of_plane hrows hread hk hkh hj, Picture.byteAt, hsome]
  simp [List.getD_eq_getElem?_getD]

end

/-- A pixmap of bytes whose rows are packed by the encoder is read back if they all fit. If one does
not, the first of these loses its end, and what is read of the canvas is the image only if all that is
lost is black. Of every width from eight on there is a row that does not fit and does not end in black.
No row takes more than four bytes for three, and two thirds of one. -/
theorem decode_encoded (h : HeaderBlock) (o : Opening) {width height : Nat}
    (hd : o.format.pixelSize = 8) (hwidth : 8 ≤ width) (ho : o.Spans h.version width height width)
    {image : List (List UInt8)} (hcount : image.length = height)
    (hrows : ∀ row ∈ image, row.length = width)
    (hlengths : ∀ row ∈ image, Raster.FitsLength width (PackBits.encodeBytes row).length)
    (padding ending : UInt8) (tail : List UInt8) :
    ((∀ row ∈ image, PackBits.Fits row) →
      ∃ doc, (decode (writeSingle h o (image.map PackBits.encodeBytes) padding ending tail).toArray
          .unlimited .never).result = .ok doc ∧ doc.picture.palette = o.palette? ∧
        (doc.readPlane doc.fullWindow .never).report.result = .ok (o.plane image width height)) ∧
    (∀ init long more doc, image = init ++ long :: more → (∀ row ∈ init, PackBits.Fits row) →
      ¬ PackBits.Fits long →
      (decode (writeSingle h o (image.map PackBits.encodeBytes) padding ending tail).toArray
          .unlimited .never).result = .ok doc →
      ∃ front lost strips, long = front ++ lost ∧ lost ≠ [] ∧
        doc.picture.strips.toList = init.map .bytes ++ .bytes front :: strips ∧
        ((doc.readPlane doc.fullWindow .never).report.result = .ok (o.plane image width height) →
          ∀ x ∈ lost, x = 0)) ∧
    (∃ row : List UInt8, row.length = width ∧
      Raster.FitsLength width (PackBits.encodeBytes row).length ∧ ¬ PackBits.Fits row ∧
      ∀ x, row.getLast? = some x → x ≠ 0) ∧
    ∀ row : List UInt8, row.length = width →
      3 * (PackBits.encodeBytes row).length ≤ 4 * width + 2 := by
  refine ⟨fun hfits => decode_fits hd hwidth ho hcount hrows hfits padding ending tail, ?_, ?_, ?_⟩
  · intro init long more doc himage hfits hlong hdoc
    exact decode_not_fits hd hwidth ho hcount hrows hlengths hdoc himage hfits hlong
  · exact PackBits.exists_not_fits hwidth (ho.rowBytes_lt (by simp [hd]))
  · intro row hrow
    rw [← hrow]
    exact PackBits.length_encodeBytes_le row

/-- A pixmap of bytes, eight to a row, without colors. -/
def eightOpening (rows : UInt16) : Opening :=
  .indexed .packBitsRect 0x8008 ⟨0, 0, rows, 8⟩ (Vector.replicate 18 0)
    ⟨8, 1, Vector.replicate 14 0⟩ ⟨Vector.replicate 4 0, 0, 0xFFFF, [], rfl⟩
    (Vector.replicate 18 0) (Vector.replicate 2 0)

/-- Two pairs of equal bytes in a row of eight take eleven bytes, where nine are read. -/
theorem encodeBytes_pairs :
    PackBits.encodeBytes [1, 2, 2, 3, 4, 4, 5, 6] = [0, 1, 0xFF, 2, 0, 3, 0xFF, 4, 1, 5, 6] := by
  decide +kernel

/-- A row that does not fit is not read back behind one that does. -/
theorem decode_eights :
    (∃ doc, (decode (writeSingle Decode.sampleHeader (eightOpening 2)
        ([[5, 5, 5, 5, 5, 5, 5, 5], [1, 2, 3, 4, 5, 6, 7, 8]].map PackBits.encodeBytes)
        0 0 [1, 2, 3]).toArray .unlimited .never).result = .ok doc ∧
      (doc.readPlane doc.fullWindow .never).report.result = .ok
        { pixels := [5, 5, 5, 5, 5, 5, 5, 5, 1, 2, 3, 4, 5, 6, 7, 8], width := 8, height := 2
          layout := .indexed8, bestEffort := false }) ∧
    ∀ doc, (decode (writeSingle Decode.sampleHeader (eightOpening 2)
        ([[5, 5, 5, 5, 5, 5, 5, 5], [1, 2, 2, 3, 4, 4, 5, 6]].map PackBits.encodeBytes)
        0 0 [1, 2, 3]).toArray .unlimited .never).result = .ok doc →
      (doc.readPlane doc.fullWindow .never).report.result ≠ .ok
        { pixels := [5, 5, 5, 5, 5, 5, 5, 5, 1, 2, 2, 3, 4, 4, 5, 6], width := 8, height := 2
          layout := .indexed8, bestEffort := false } := by
  have hspans : (eightOpening 2).Spans Decode.sampleHeader.version 8 2 8 :=
    ⟨by decide, by decide, by decide, by decide, by decide, by decide⟩
  have hd : (eightOpening 2).format.pixelSize = 8 := rfl
  constructor
  · let image : List (List UInt8) := [[5, 5, 5, 5, 5, 5, 5, 5], [1, 2, 3, 4, 5, 6, 7, 8]]
    have hcount : image.length = 2 := rfl
    obtain ⟨hreads, -⟩ := decode_encoded Decode.sampleHeader (eightOpening 2) hd (Nat.le_refl 8)
      hspans hcount (by decide) (by decide +kernel) 0 0 [1, 2, 3]
    obtain ⟨doc, hdoc, -, hread⟩ := hreads (by decide +kernel)
    exact ⟨doc, hdoc, hread⟩
  · intro doc hdoc hread
    let image : List (List UInt8) := [[5, 5, 5, 5, 5, 5, 5, 5], [1, 2, 2, 3, 4, 4, 5, 6]]
    have hcount : image.length = 2 := rfl
    obtain ⟨-, hloses, -⟩ := decode_encoded Decode.sampleHeader (eightOpening 2) hd (Nat.le_refl 8)
      hspans hcount (by decide) (by decide +kernel) 0 0 [1, 2, 3]
    obtain ⟨front, lost, strips, hsplit, hlost, -, hblack⟩ :=
      hloses [[5, 5, 5, 5, 5, 5, 5, 5]] _ [] doc rfl (by decide +kernel) (by decide +kernel) hdoc
    -- the row ends in 6, and so does what is lost of it
    have hlast : lost.getLast hlost = 6 := by
      have hsome := congrArg List.getLast? hsplit
      rw [List.getLast?_append_of_ne_nil front hlost, List.getLast?_eq_some_getLast hlost] at hsome
      exact (Option.some.inj hsome).symm
    exact absurd (hlast.symm.trans (hblack hread _ (List.getLast_mem hlost))) (by decide)

/-- Pixmaps of bytes with colors whose rows are packed by the encoder are not always read back. -/
theorem encoded_not_read :
    ¬ ∀ (h : HeaderBlock) (o : Opening) (width height : Nat) (image : List (List UInt8)),
      h.version = .two → o.kind = .packBitsRect → o.palette?.isSome →
      o.format.pixelSize = 8 → 8 ≤ width → o.Spans h.version width height width →
      image.length = height → (∀ row ∈ image, row.length = width) →
      (∀ row ∈ image, Raster.FitsLength width (PackBits.encodeBytes row).length) →
      ∃ doc, (decode (writeSingle h o (image.map PackBits.encodeBytes) 0 0 []).toArray
          .unlimited .never).result = .ok doc ∧
        (doc.readPlane doc.fullWindow .never).report.result = .ok (o.plane image width height) := by
  intro hall
  obtain ⟨doc, hdoc, hread⟩ := hall Decode.sampleHeader (eightOpening 1) 8 1
    [[1, 2, 2, 3, 4, 4, 5, 6]] rfl rfl rfl rfl (Nat.le_refl 8)
    ⟨by decide, by decide, by decide, by decide, by decide, by decide⟩ rfl (by decide)
    (by decide +kernel)
  have hmap : (decode (writeSingle Decode.sampleHeader (eightOpening 1)
      [[0, 1, 0xFF, 2, 0, 3, 0xFF, 4, 1, 5, 6]] 0 0 []).toArray .unlimited .never).result.toOption.map
      (fun doc => (doc.readPlane doc.fullWindow .never).report.result.toOption.map Plane.pixels) =
        some (some [1, 2, 2, 3, 4, 4, 0, 0]) := by decide +kernel
  rw [List.map_singleton, encodeBytes_pairs] at hdoc
  rw [hdoc] at hmap
  have hpixels : (doc.readPlane doc.fullWindow .never).report.result.toOption.map Plane.pixels =
      some [1, 2, 2, 3, 4, 4, 0, 0] := Option.some.inj hmap
  rw [hread] at hpixels
  exact absurd (Option.some.inj hpixels) (by decide)

end Pict
