import Pict.Proofs.Decode.Canvas
import Pict.Proofs.Decode.Changes
import Pict.Proofs.Samples.PixelRow

/-!
# The strips of a raster

Planes are assembled from strips by their number and their lengths, and the limits count their
bytes. All of that goes back to what one row of a raster stores: how many strips it has depends on
its format alone, and how long they are on its format, the width of the canvas and, for raw rows of
eight bits, on the row bytes.

Results:
* `shaped_raw`, `shaped_packed`: the strips of one row.
* `Picture.withRows_appends`: the strips of the rows that a raster has read.
* `raster_appends`: whatever becomes of a raster, it only adds such strips to the picture.
-/
namespace Pict

/-! ## The strips of one row -/

namespace Format

def stripsPerRow (f : Format) (rowBytes : Nat) : Nat :=
  if f.isPacked rowBytes then
    if f.pixelSize = 24 ∨ f.pixelSize = 32 then f.components
    else if 8 < f.pixelSize ∧ f.pixelSize ≠ 16 then 0
    else 1
  else 1

/-- The strips that a raster can have on a canvas of this width. -/
inductive Shaped (f : Format) (width rowBytes : Nat) : Strip → Prop where
  | words {samples : List UInt16} (hsize : f.pixelSize = 16) (hlength : samples.length = width) :
    Shaped f width rowBytes (.words samples)
  /-- Pixels of less than a byte are expanded. -/
  | expanded {samples : List UInt8} (hsize : f.pixelSize = 1 ∨ f.pixelSize = 2 ∨ f.pixelSize = 4)
    (hlength : samples.length = width) (hbits : ∀ x ∈ samples, x.toNat < 2 ^ f.pixelSize) :
    Shaped f width rowBytes (.bytes samples)
  /-- Bytes that stand as they are have nothing to do with the canvas. -/
  | raw {samples : List UInt8} (hsize : f.pixelSize = 8) (hraw : f.isPacked rowBytes = false)
    (hlength : samples.length = rowBytes) (hshort : rowBytes < 8) :
    Shaped f width rowBytes (.bytes samples)
  /-- Packed bytes are what they expand to. -/
  | packed {samples : List UInt8} (hsize : f.pixelSize = 8) (hpacked : f.isPacked rowBytes = true)
    (hlength : samples.length ≤ 4 * width) : Shaped f width rowBytes (.bytes samples)
  /-- One component of pixels that keep them apart. -/
  | plane {samples : List UInt8} (hsize : f.pixelSize = 24 ∨ f.pixelSize = 32)
    (hpacked : f.isPacked rowBytes = true) (hlength : samples.length = width) :
    Shaped f width rowBytes (.bytes samples)

variable {f : Format} {width rowBytes : Nat} {row : List UInt8} {strip : Strip}

theorem lt_of_not_isPacked (h : f.isPacked rowBytes = false) : rowBytes < 8 ∧ f.pixelSize ≠ 32 := by
  simpa [isPacked] using h

theorem shaped_expanded {out : List UInt8} (h : Depth.expandRow f.pixelSize width row = .ok out) :
    f.Shaped width rowBytes (.bytes out) := by
  have hsize := (Depth.expandInto_eq_ok.mp h).1
  exact .expanded hsize (Depth.length_expandRow h) fun _ hx => Depth.lt_of_mem_expandRow h hx

/-- A row that stands as it is has one strip. -/
theorem shaped_raw (hraw : f.isPacked rowBytes = false) (hrow : row.length = rowBytes)
    (h : f.rawStrip width row = .ok strip) : f.Shaped width rowBytes strip := by
  unfold rawStrip at h
  split at h
  · rename_i hsize
    obtain rfl := Except.ok.inj h
    exact .words hsize (length_fit _ _)
  · split at h
    · rename_i hsize
      obtain rfl := Except.ok.inj h
      exact .raw hsize hraw hrow (lt_of_not_isPacked hraw).1
    · obtain ⟨samples, hexpanded, rfl⟩ := map_eq_ok.mp h
      exact shaped_expanded hexpanded

/-- A packed row has as many strips as its format says. -/
theorem shaped_packed (hpacked : f.isPacked rowBytes = true) {strips : List Strip}
    (h : f.packedStrips width row = .ok strips) :
    strips.length = f.stripsPerRow rowBytes ∧ ∀ strip ∈ strips, f.Shaped width rowBytes strip := by
  have hsingle {strip : Strip} (hstrip : f.Shaped width rowBytes strip) :
      ∀ x ∈ [strip], f.Shaped width rowBytes x := List.forall_mem_singleton.mpr hstrip
  rw [stripsPerRow, if_pos hpacked]
  unfold packedStrips at h
  by_cases h16 : f.pixelSize = 16
  · rw [if_pos h16] at h
    obtain rfl := Except.ok.inj h
    rw [if_neg (by omega), if_neg (by omega)]
    exact ⟨rfl, hsingle (.words h16 (PackBits.length_decodeWords _ _))⟩
  rw [if_neg h16] at h
  dsimp only at h
  by_cases hsmall : f.pixelSize < 8
  · rw [if_pos hsmall] at h
    obtain ⟨samples, hexpanded, rfl⟩ := map_eq_ok.mp h
    rw [if_neg (by omega), if_neg (by omega)]
    exact ⟨rfl, hsingle (shaped_expanded hexpanded)⟩
  rw [if_neg hsmall] at h
  by_cases h8 : f.pixelSize = 8
  · rw [if_pos h8] at h
    obtain rfl := Except.ok.inj h
    have hlength : (PackBits.decodeBytes (width * 4) row).length ≤ 4 * width :=
      (PackBits.length_decodeBytes_le _ row).trans (Nat.le_of_eq (Nat.mul_comm width 4))
    rw [if_neg (by omega), if_neg (by omega)]
    exact ⟨rfl, hsingle (.packed h8 hpacked hlength)⟩
  rw [if_neg h8] at h
  by_cases hplanes : f.pixelSize = 24 ∨ f.pixelSize = 32
  · rw [if_pos hplanes] at h
    obtain rfl := Except.ok.inj h
    rw [if_pos hplanes]
    refine ⟨by rw [List.length_map, List.length_range], fun strip hmem => ?_⟩
    obtain ⟨c, -, rfl⟩ := List.mem_map.mp hmem
    exact .plane hplanes hpacked (length_crop _ _ _)
  · rw [if_neg hplanes] at h
    obtain rfl := Except.ok.inj h
    rw [if_neg hplanes, if_pos (by omega)]
    exact ⟨rfl, nofun⟩

theorem Decodes.shaped (h : f.Decodes width rowBytes row) :
    (f.rowStrips width rowBytes row).length = f.stripsPerRow rowBytes ∧
      ∀ strip ∈ f.rowStrips width rowBytes row, f.Shaped width rowBytes strip := by
  obtain ⟨hbytes, strips, hstrips⟩ := h
  rw [rowStrips, hstrips]
  dsimp only
  unfold rowStrips? at hstrips
  cases hpacked : f.isPacked rowBytes with
  | true =>
    rw [hpacked, if_pos rfl] at hstrips
    exact shaped_packed hpacked hstrips
  | false =>
    rw [hpacked, if_neg Bool.false_ne_true] at hstrips
    obtain ⟨strip, hstrip, rfl⟩ := map_eq_ok.mp hstrips
    rw [stripsPerRow, hpacked, if_neg Bool.false_ne_true]
    exact ⟨rfl, List.forall_mem_singleton.mpr (shaped_raw hpacked (hbytes hpacked) hstrip)⟩

end Format

/-! ## The strips of all rows -/

/-- `q` is `p` with more strips behind its own, which are those of some rows of a raster on the
canvas of `q`. -/
structure Picture.Appends (f : Format) (p q : Picture) (more : List Strip) : Prop where
  strips : q.strips.toList = p.strips.toList ++ more
  stripBytes : q.stripBytes = p.stripBytes + (more.map Strip.byteSize).sum
  rows : ∃ rows ≤ q.declaredHeight, more.length = rows * f.stripsPerRow q.rowBytes
  shaped : ∀ strip ∈ more, f.Shaped q.width q.rowBytes strip

namespace Picture

variable {f : Format} {p q : Picture}

theorem Appends.refl (f : Format) (p : Picture) : p.Appends f p [] where
  strips := (List.append_nil _).symm
  stripBytes := rfl
  rows := ⟨0, Nat.zero_le _, (Nat.zero_mul _).symm⟩
  shaped := nofun

/-- Rows that can be decoded add the strips of each. -/
theorem withRows_appends {rows : List (List UInt8)} (hcount : rows.length ≤ p.declaredHeight)
    (hdecodes : ∀ row ∈ rows, f.Decodes p.width p.rowBytes row) :
    p.Appends f (p.withRows f p.width p.rowBytes rows)
      (rows.flatMap (f.rowStrips p.width p.rowBytes)) where
  strips := by
    rw [withRows, extend, Array.toList_append]
  stripBytes := rfl
  rows := by
    refine ⟨rows.length, hcount, ?_⟩
    rw [List.length_flatMap, List.map_congr_left fun row hrow => (hdecodes row hrow).shaped.1,
      List.map_const', List.sum_replicate_nat]
    rfl
  shaped := by
    intro strip hstrip
    obtain ⟨row, hrow, hmem⟩ := List.mem_flatMap.mp hstrip
    exact (hdecodes row hrow).shaped.2 strip hmem

end Picture

def RasterOp.boundsAt (op : RasterOp) (c : Cursor) : Cursor :=
  match op.rowBytes with
  | none => c.skip 6
  | some _ => c

open Job

theorem Raster.readOpening_canvas {op : RasterOp} {f : Format} {stop : Stop} {s t : Session Walk}
    (h : readOpening op stop s = .ok (some f) t) :
    ∃ width height, (readBounds (op.boundsAt s.work.cursor)).1 = some (width, height) ∧
      t.work.picture.width = Header.override s.work.picture.width width ∧
      t.work.picture.declaredHeight = Header.override s.work.picture.declaredHeight height := by
  obtain ⟨u, v, bounds, hrowBytes, hbounds, hrest⟩ := readOpening_eq_ok h
  have hsame := unbounded_sameCanvas hrowBytes hbounds
  have hcursor : u.work.cursor = op.boundsAt s.work.cursor := by
    unfold RasterOp.boundsAt
    cases hop : op.rowBytes with
    | none =>
      rw [hop] at hrowBytes
      obtain ⟨-, rfl⟩ := EStateM.Result.ok.inj hrowBytes
      rfl
    | some n =>
      rw [hop] at hrowBytes
      obtain ⟨-, rfl⟩ := EStateM.Result.ok.inj hrowBytes
      rfl
  cases bounds with
  | none => cases hrest.1
  | some bounds =>
    obtain ⟨width, height⟩ := bounds
    have hread := (Walk.read_eq_ok.mp hbounds).1
    rw [hcursor] at hread
    dsimp only at hrest
    have hopened : (v.work.picture.resize width height).SameCanvas t.work.picture := by
      split at hrest
      · exact (sameCanvas_opens.openPixmap op.kind).ok hrest
      · obtain ⟨-, rfl⟩ := pure_eq_ok.mp hrest
        exact .refl _
    refine ⟨width, height, hread, ?_, ?_⟩
    · rw [hopened.width, Picture.resize, hsame.width]
    · rw [hopened.height, Picture.resize, hsame.height]

namespace Decode

/-- The limits refuse a raster behind its opening, or its rows are read. -/
theorem limitedRows_cases (limits : Limits) (f : Format) (stop : Stop) (s : Session Walk) :
    (∃ e, limitedRows limits (some f) stop s = .error e s) ∨
      limitedRows limits (some f) stop s = Raster.readRows f stop s := by
  have hparts : limitedRows limits (some f) = Walk.getPicture >>= fun p =>
      enforce (limits.check p.width p.declaredHeight) >>= fun _ =>
        enforce (limits.checkMemory (p.stripBytes + f.expectedBytes p.width p.declaredHeight)) >>=
          fun _ => Raster.readRows f := rfl
  rw [hparts, bind_apply, Walk.getPicture_apply]
  dsimp only
  cases limits.check s.work.picture.width s.work.picture.declaredHeight with
  | error breach => exact Or.inl ⟨_, rfl⟩
  | ok _ =>
    cases limits.checkMemory (s.work.picture.stripBytes +
        f.expectedBytes s.work.picture.width s.work.picture.declaredHeight) with
    | error breach => exact Or.inl ⟨_, rfl⟩
    | ok _ => exact Or.inr rfl

theorem limitedRows_appends (limits : Limits) (f : Format) (stop : Stop) (s : Session Walk) :
    s.work.picture.SameCanvas (sessionOf (limitedRows limits (some f) stop s)).work.picture ∧
      ∃ more, s.work.picture.Appends f
        (sessionOf (limitedRows limits (some f) stop s)).work.picture more := by
  rcases limitedRows_cases limits f stop s with ⟨e, hrefused⟩ | hrows
  · rw [hrefused]
    exact ⟨.refl _, [], .refl f _⟩
  · obtain ⟨rows, hcount, hdecodes, hpicture⟩ := Raster.readRows_extends f stop s
    rw [hrows, hpicture]
    exact ⟨⟨rfl, rfl⟩, _, Picture.withRows_appends hcount hdecodes⟩

/-- A raster leaves the strips of the picture in place and adds those of some rows of its canvas,
which is the one that its bounds leave, and counts their bytes. That is all that becomes of the
strips, also where the limits or the stop end the raster, where its pixels cannot be decoded, and
where the data ends; if the data ends in front of its rows there are none. -/
theorem raster_appends (limits : Limits) (op : RasterOp) (stop : Stop) (s : Session Walk) :
    match resultOf (Raster.readOpening op stop s) with
    | .ok (some f) =>
      (∃ width height,
        (Raster.readBounds (op.boundsAt s.work.cursor)).1 = some (width, height) ∧
        (sessionOf (raster limits op stop s)).work.picture.width =
          Header.override s.work.picture.width width ∧
        (sessionOf (raster limits op stop s)).work.picture.declaredHeight =
          Header.override s.work.picture.declaredHeight height) ∧
      ∃ more, s.work.picture.Appends f (sessionOf (raster limits op stop s)).work.picture more
    | _ =>
      (sessionOf (raster limits op stop s)).work.picture.strips = s.work.picture.strips ∧
      (sessionOf (raster limits op stop s)).work.picture.stripBytes =
        s.work.picture.stripBytes := by
  have hwithin := Raster.reopened_readOpening op
  rw [raster_eq_limitedRows, bind_apply]
  cases hopening : Raster.readOpening op stop s with
  | error e t =>
    have hreopened := hwithin stop s
    rw [hopening] at hreopened
    exact ⟨hreopened.strips, hreopened.stripBytes⟩
  | ok opened t =>
    have hreopened : s.work.picture.Reopened t.work.picture := hwithin.ok hopening
    cases opened with
    | none => exact ⟨hreopened.strips, hreopened.stripBytes⟩
    | some f =>
      obtain ⟨width, height, hbounds, hwidth, hheight⟩ := Raster.readOpening_canvas hopening
      obtain ⟨hsame, more, hmore⟩ := limitedRows_appends limits f stop t
      refine ⟨⟨width, height, hbounds, hsame.width.trans hwidth, hsame.height.trans hheight⟩,
        more, ?_⟩
      have hstrips := hmore.strips
      have hbytes := hmore.stripBytes
      rw [hreopened.strips] at hstrips
      rw [hreopened.stripBytes] at hbytes
      exact ⟨hstrips, hbytes, hmore.rows, hmore.shaped⟩

end Decode
end Pict
