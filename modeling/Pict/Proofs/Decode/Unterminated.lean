import Pict.Proofs.Decode.Composition
import Pict.Proofs.Decode.LastByte
import Pict.Proofs.Raster.LastRow

/-!
# Pictures without a terminator

A picture may end with its last element, without a terminator behind it. What the walk makes of
the last element then may differ from what it makes of it in front of a terminator: the rows of
a raster end with the data (`Format.endStrips`), and the byte that is left of packed rows is
taken for an opcode in version 1.

Results:
* `RasterBlock.last_sameContent_iff`: when a raster that ends the data shows the same as in front
  of something.
* `turns_lastRaster`, `turn_lastElement`, `turns_unterminated`: what the walk makes of elements
  that end the data.
* `decode_unterminated`: when a picture without a terminator is the same as with one.
-/
namespace Pict

open Job

namespace Picture

/-- What a caller sees of a picture is the same. -/
structure SameContent (p q : Picture) : Prop where
  strips : p.strips = q.strips
  palette : p.palette = q.palette
  width : p.width = q.width
  declaredHeight : p.declaredHeight = q.declaredHeight
  height : p.height = q.height
  channels : p.channels = q.channels

end Picture

/-! ## The last raster -/

namespace Format

/-- Whether rows decode to the same at the end of the data as in front of something. -/
def KeepsStrips (f : Format) (width rowBytes : Nat) (rows : List (List UInt8)) : Prop :=
  if f.isPacked rowBytes then
    ∀ row ∈ rows.getLast?, f.rowStrips width rowBytes row.dropLast = f.rowStrips width rowBytes row
  else rows = [] ∨ rowBytes ≠ 0

instance (f : Format) (width rowBytes : Nat) (rows : List (List UInt8)) :
    Decidable (f.KeepsStrips width rowBytes rows) :=
  inferInstanceAs (Decidable (if f.isPacked rowBytes then _ else _))

theorem rowStrips_ne_nil {f : Format} {rowBytes : Nat} (hf : f.Decodable rowBytes)
    (hp : f.isPacked rowBytes = false) (width : Nat) (row : List UInt8) :
    f.rowStrips width rowBytes row ≠ [] := by
  have hstrips := rowStrips?_eq_ok hf width row
  rw [rowStrips?, if_neg (by simp [hp])] at hstrips
  intro hnil
  rw [hnil] at hstrips
  cases hs : f.rawStrip width row with
  | error e =>
    rw [hs] at hstrips
    cases hstrips
  | ok strip =>
    rw [hs] at hstrips
    cases hstrips

theorem endStrips_eq_iff {f : Format} {rowBytes : Nat} {rows : List (List UInt8)} (width : Nat)
    (hf : rows ≠ [] → f.Decodable rowBytes) :
    f.endStrips width rowBytes rows = rows.flatMap (f.rowStrips width rowBytes) ↔
      f.KeepsStrips width rowBytes rows := by
  unfold endStrips KeepsStrips
  cases hp : f.isPacked rowBytes with
  | true =>
    rcases rows.eq_nil_or_concat' with rfl | ⟨init, last, rfl⟩
    · simp
    · simp
  | false =>
    simp only [Bool.false_eq_true, if_false]
    by_cases hbytes : rowBytes = 0
    · cases rows with
      | nil => simp
      | cons row rows =>
        have hrow := rowStrips_ne_nil (hf (List.cons_ne_nil _ _)) hp width row
        subst hbytes
        simp [hrow]
    · simp [hbytes]

end Format

namespace RasterBlock

/-- What is left of the data behind a raster that ends it. -/
def leftOver (r : RasterBlock) (canvas : Info) : List UInt8 :=
  r.opening.format.leftOver (r.rowBytes canvas) r.rows

theorem leftOver_nil_or_singleton (r : RasterBlock) (canvas : Info) :
    r.leftOver canvas = [] ∨ ∃ b, r.leftOver canvas = [b] := by
  unfold leftOver Format.leftOver
  cases r.opening.format.isPacked (r.rowBytes canvas) with
  | false => exact Or.inl rfl
  | true =>
    cases r.rows.getLast? with
    | none => exact Or.inl rfl
    | some row => exact Or.inr ⟨_, rfl⟩

/-- What the rows of a raster decode to that ends the data. -/
def endStrips (r : RasterBlock) (canvas : Info) : List Strip :=
  r.opening.format.endStrips (r.refine canvas).width (r.rowBytes canvas) r.rows

/-- The picture behind a raster that ends the data, whatever becomes of the byte that is left. -/
def endingWith (r : RasterBlock) (p : Picture) : Picture :=
  (r.opening.onto p).extend (r.endStrips p.canvas)
    (r.opening.format.endColored (r.rowBytes p.canvas) r.rows)

/-- Whether the byte that is left behind a raster is taken for the opcode of embedded JPEG data. -/
def LeavesJpeg (r : RasterBlock) (canvas : Info) : Prop :=
  canvas.version = .one ∧ r.leftOver canvas = [0x18]

instance (r : RasterBlock) (canvas : Info) : Decidable (r.LeavesJpeg canvas) :=
  inferInstanceAs (Decidable (_ ∧ _))

/-- Whether a raster is the same at the end of the data as in front of something. -/
def StandsLast (r : RasterBlock) (p : Picture) : Prop :=
  r.opening.format.KeepsStrips (r.refine p.canvas).width (r.rowBytes p.canvas) r.rows ∧
    (r.LeavesJpeg p.canvas → (r.onto p p.canvas).channels = 3)

instance (r : RasterBlock) (p : Picture) : Decidable (r.StandsLast p) :=
  inferInstanceAs (Decidable (_ ∧ (_ → _)))

/-- The picture behind a raster that ends the data, with the offsets of embedded JPEG data if what
is left is taken for that. -/
def last (r : RasterBlock) (p : Picture) (offsets : List Nat) : Picture :=
  if r.LeavesJpeg p.canvas then (r.endingWith p).withJpeg offsets else r.endingWith p

/-- Rows that keep their strips keep their color. -/
theorem endColored_eq {r : RasterBlock} {canvas : Info}
    (h : r.opening.format.KeepsStrips (r.refine canvas).width (r.rowBytes canvas) r.rows) :
    r.opening.format.endColored (r.rowBytes canvas) r.rows = r.isColored := by
  unfold Format.KeepsStrips at h
  unfold Format.endColored isColored
  cases hp : r.opening.format.isPacked (r.rowBytes canvas) with
  | true => simp
  | false =>
    rw [hp] at h
    rcases h with hrows | hbytes
    · simp [hrows]
    · simp [hbytes]

theorem last_canvas (r : RasterBlock) (p : Picture) (offsets : List Nat) :
    (r.last p offsets).palette = (r.onto p p.canvas).palette ∧
      (r.last p offsets).width = (r.onto p p.canvas).width ∧
      (r.last p offsets).declaredHeight = (r.onto p p.canvas).declaredHeight := by
  unfold last
  split <;> exact ⟨rfl, rfl, rfl⟩

theorem last_strips (r : RasterBlock) (p : Picture) (offsets : List Nat) :
    (r.last p offsets).strips = p.strips ++ (r.endStrips p.canvas).toArray := by
  unfold last
  split <;> rfl

theorem last_strips_eq_iff {r : RasterBlock} {p : Picture} (offsets : List Nat)
    (hr : r.rows ≠ [] → r.opening.format.Decodable (r.rowBytes p.canvas)) :
    (r.last p offsets).strips = (r.onto p p.canvas).strips ↔
      r.opening.format.KeepsStrips (r.refine p.canvas).width (r.rowBytes p.canvas) r.rows := by
  rw [last_strips, ← Format.endStrips_eq_iff _ hr]
  show _ = p.strips ++ (r.strips p.canvas).toArray ↔ _
  rw [Array.append_right_inj]
  exact ⟨List.toArray_inj, congrArg List.toArray⟩

/-- A last raster shows the same as with something behind it exactly if it stands. -/
theorem last_sameContent_iff {r : RasterBlock} {p : Picture} (offsets : List Nat)
    (hr : r.rows ≠ [] → r.opening.format.Decodable (r.rowBytes p.canvas)) :
    (r.last p offsets).SameContent (r.onto p p.canvas) ↔ r.StandsLast p := by
  have hstrips := last_strips_eq_iff offsets hr
  obtain ⟨hpalette, hwidth, hheight⟩ := r.last_canvas p offsets
  constructor
  · intro h
    refine ⟨hstrips.mp h.strips, fun hjpeg => ?_⟩
    rw [← h.channels, last, if_pos hjpeg]
    rfl
  · rintro ⟨hkeep, hjpeg⟩
    have hsame := hstrips.mpr hkeep
    refine ⟨hsame, hpalette, hwidth, hheight, ?_, ?_⟩
    · unfold Picture.height
      rw [hsame, hheight]
    · unfold last
      split
      · next hleft => exact (hjpeg hleft).symm
      · show (if r.opening.format.endColored _ _ then _ else _) = _
        rw [endColored_eq hkeep]
        rfl

end RasterBlock

namespace Decode

variable {s : Session Walk} {front : List UInt8} {p : Picture}

/-! ## The last element -/

theorem body_ne_nil (r : RasterBlock) (canvas : Info) : r.body canvas ≠ [] := by
  apply List.append_ne_nil_of_left_ne_nil
  cases r.opening <;> simp [Opening.body, Bounds.bytes, PackBits.writeWord]

theorem raster_last {r : RasterBlock} (h : r.Valid p.canvas)
    (hs : Stands s front (r.body p.canvas) p) :
    ∃ t before, raster .unlimited r.opening.op .never s = .ok () t ∧
      Stands t before (r.leftOver p.canvas) (r.endingWith p) := by
  obtain ⟨u, hu, hsu⟩ := r.opening.passes h.opening front _ p s hs
  obtain ⟨t, before, ht, hst⟩ :=
    Raster.readRows_last (p := r.opening.onto p) r.opening.format h.decodable h.rows h.count hsu
  refine ⟨t, before, ?_, hst⟩
  exact bind_eq_ok.mpr ⟨_, u, hu, bind_eq_ok.mpr ⟨_, u, rfl, bind_eq_ok.mpr ⟨(), u, rfl,
    bind_eq_ok.mpr ⟨(), u, rfl, ht⟩⟩⟩⟩

/-- A raster that ends the data takes a turn, and what is left of it another one. -/
theorem turns_lastRaster {r : RasterBlock} (h : r.Valid p.canvas) (padding : UInt8) (n : Nat)
    (hs : Stands s front ((Element.mk padding (.raster r)).bytes p.canvas front.length) p) :
    ∃ t offsets, turns .unlimited (n + 2) .never s = .ok () t ∧
      t.work.picture = r.last p offsets := by
  have hv : (Content.raster r).Valid p.canvas := h
  have hmore : p.version = .two → r.opening.lead ++ r.body p.canvas ≠ [] := fun _ =>
    List.append_ne_nil_of_right_ne_nil _ (body_ne_nil r _)
  have hop := Opcode.read_opcode (code_inVersion hv) front padding (takes_ofCode hv) hmore
  obtain ⟨u, hu, hsu⟩ := Passes.read hop p s hs
  obtain ⟨v, hcheck, hsv⟩ := Passes.check _ _ _ u hsu
  rw [List.append_nil] at hsv
  obtain ⟨w, before, hraster, hsw⟩ := raster_last h hsv
  rw [← hs.picture] at hu
  have hturn := turn_raster_eq hu hcheck hraster
  rcases r.leftOver_nil_or_singleton p.canvas with hleft | ⟨b, hleft⟩ <;> rw [hleft] at hsw
  · have hend : w.work.cursor.atEnd = true := by
      rw [hsw.cursor]
      exact (Cursor.atEnd_between _ _).mpr rfl
    have hjpeg : ¬ r.LeavesJpeg p.canvas := by
      rintro ⟨-, hcode⟩
      rw [hleft] at hcode
      cases hcode
    rw [hend] at hturn
    refine ⟨w, [], bind_eq_ok.mpr ⟨false, w, hturn, rfl⟩, ?_⟩
    rw [RasterBlock.last, if_neg hjpeg]
    exact hsw.picture
  · have hend : w.work.cursor.atEnd = false := by
      rw [hsw.cursor, Bool.eq_false_iff, ne_eq, Cursor.atEnd_between]
      exact List.cons_ne_nil _ _
    have hjpeg : r.LeavesJpeg p.canvas ↔ (r.endingWith p).version = .one ∧ b = 0x18 := by
      rw [RasterBlock.LeavesJpeg, hleft, List.singleton_inj]
      rfl
    have hleft : w.work.cursor.Inside ∧ w.work.cursor.remaining ≤ 1 := by
      rw [hsw.cursor, Cursor.remaining_between, List.length_singleton]
      exact ⟨by simp [Cursor.Inside, Cursor.between], Nat.le_refl 1⟩
    rw [hend] at hturn
    obtain ⟨t, ht, -⟩ := turn_late .unlimited hleft.1 hleft.2
    refine ⟨t, [before.length + 3], ?_, ?_⟩
    · exact bind_eq_ok.mpr ⟨true, w, hturn, bind_eq_ok.mpr ⟨false, t, ht, rfl⟩⟩
    · simp only [turn_lastByte hsw ht, RasterBlock.last, hjpeg]

/-- An element other than a raster that ends the data leaves the picture alone. -/
theorem turn_lastElement {e : Element} (hr : e.content.raster? = none)
    (h : e.content.Valid p.canvas) (hs : Stands s front (e.bytes p.canvas front.length) p) :
    ∃ t, turn .unlimited .never s = .ok false t ∧ t.work.picture = p := by
  by_cases hmore : p.version = .two → e.content.lead ++ e.content.body p.canvas ≠ []
  · have hop := Opcode.read_opcode (code_inVersion h) front e.padding (takes_ofCode h) hmore
    rw [← List.append_nil (e.content.body p.canvas)] at hop
    have hdispatch : ∀ front, Passes (dispatch .unlimited e.content.opcode) front
        (e.content.body p.canvas) [] p true (p.behind []) := by
      intro front
      rw [show [] = e.content.raster?.toList by rw [hr]; rfl]
      exact passes_dispatch h front fun r hc => by rw [hc] at hr; cases hr
    have hpass : Passes (turn .unlimited) front (e.bytes p.canvas front.length) [] p false
        (p.behind []) := by
      refine Passes.bind_nil (Passes.getPicture _ _ p) ?_
      refine Passes.bind (Passes.read hop p) ?_
      refine Passes.bind_nil (Passes.check _ _ p) ?_
      refine Passes.bind_last (hdispatch _) ?_
      refine Passes.bind_nil (Passes.getCursor _ _ _) ?_
      rw [List.nil_append, (Cursor.atEnd_between _ _).mpr rfl]
      exact Passes.pure _ _ _ false
    rw [← List.append_nil (e.bytes _ _)] at hs
    obtain ⟨t, ht, hst⟩ := hpass s hs
    exact ⟨t, ht, hst.picture.trans p.behind_nil⟩
  · -- version 2 reads no code that ends the data
    obtain ⟨hversion, hempty⟩ := Classical.not_imp.mp hmore
    have hread : (Opcode.read s.work.picture.version s.work.cursor).1 = none := by
      have hlast := Opcode.read_last front e.padding e.content.code
      obtain ⟨hlead, hbody⟩ := List.append_eq_nil_iff.mp (not_not.mp hempty)
      have hbytes : e.bytes p.canvas front.length =
          Opcode.pad .two front.length e.padding ++ Opcode.codeBytes .two e.content.code := by
        unfold Element.bytes
        rw [hlead, hbody, List.append_nil, List.append_nil, show p.canvas.version = _ from hversion]
      rw [hs.picture, hversion, hs.cursor, hbytes, hlast]
    have hnone := Walk.read_eq .never s hread
    exact ⟨_, bind_eq_ok.mpr ⟨_, s, rfl, bind_eq_ok.mpr ⟨none, _, hnone, rfl⟩⟩, hs.picture⟩

/-- What the walk makes of elements that end the data. -/
theorem turns_unterminated (es : List Element) :
    ∀ (n : Nat) (p : Picture) (front : List UInt8) (s : Session Walk),
      Element.ValidAll p.canvas es → es.length < n →
      Stands s front (Element.writeAll (fun _ => []) p.canvas front.length es) p →
      ∃ t offsets, turns .unlimited n .never s = .ok () t ∧
        t.work.picture =
          (es.getLast?.bind (·.content.raster?)).elim (p.behind (Element.rasters es.dropLast))
            fun r => r.last (p.behind (Element.rasters es.dropLast)) offsets := by
  induction es with
  | nil =>
    intro n p front s _ hn hs
    obtain ⟨n, rfl⟩ : ∃ m, n = m + 1 := ⟨n - 1, by simp at hn; omega⟩
    have hend : s.work.cursor.remaining = 0 := by
      rw [hs.cursor]
      exact Cursor.remaining_between _ _
    have hread := Walk.read_eq .never s (read_end s.work.picture.version hend)
    refine ⟨_, [], bind_eq_ok.mpr ⟨false, _, bind_eq_ok.mpr ⟨_, s, rfl,
      bind_eq_ok.mpr ⟨none, _, hread, rfl⟩⟩, rfl⟩, ?_⟩
    exact hs.picture.trans p.behind_nil.symm
  | cons e es ih =>
    intro n p front s ⟨hv, hvs⟩ hn hs
    obtain ⟨n, rfl⟩ : ∃ m, n = m + 2 := ⟨n - 2, by simp at hn; omega⟩
    cases es with
    | nil =>
      rw [Element.writeAll, Element.writeAll, List.append_nil] at hs
      obtain ⟨padding, c⟩ := e
      cases hr : c.raster? with
      | some r =>
        obtain rfl : c = .raster r := by
          cases c <;> cases hr
          rfl
        obtain ⟨t, offsets, ht, hp⟩ := turns_lastRaster hv padding n hs
        refine ⟨t, offsets, ht, hp.trans ?_⟩
        exact congrArg (fun q => r.last q offsets) p.behind_nil.symm
      | none =>
        obtain ⟨t, ht, hp⟩ := turn_lastElement hr hv hs
        refine ⟨t, [], bind_eq_ok.mpr ⟨false, t, ht, rfl⟩, ?_⟩
        rw [List.getLast?_singleton, Option.bind_some, hr]
        exact hp.trans p.behind_nil.symm
    | cons e' es =>
      have hmore : ∀ canvas offset, Element.writeAll (fun _ => []) canvas offset (e' :: es) ≠ [] :=
        fun canvas offset => List.append_ne_nil_of_left_ne_nil (e'.bytes_ne_nil canvas offset) _
      obtain ⟨t, ht, hst⟩ := passes_turn hv front (hmore _ _) s hs
      have hcanvas : (p.behind e.content.raster?.toList).canvas = e.refine p.canvas :=
        p.canvas_behind _
      rw [← hcanvas] at hvs hst
      rw [← List.length_append] at hst
      obtain ⟨u, offsets, hu, hp⟩ := ih _ _ _ t hvs (Nat.lt_of_succ_lt_succ hn) hst
      refine ⟨u, offsets, bind_eq_ok.mpr ⟨true, t, ht, hu⟩, ?_⟩
      rw [hp, List.getLast?_cons_cons, List.dropLast_cons_cons, Element.rasters_cons,
        Picture.behind_append]

/-! ## Pictures without a terminator -/

/-- A picture without a terminator: its header and some elements. -/
def writeUnterminated (h : HeaderBlock) (es : List Element) : List UInt8 :=
  h.bytes ++ Element.writeAll (fun _ => []) h.info h.bytes.length es

/-- The raster that elements end with, if they end with one. -/
def lastRaster? (es : List Element) : Option RasterBlock := es.getLast?.bind (·.content.raster?)

def inFront (h : HeaderBlock) (es : List Element) : Picture :=
  (Picture.start h.info).behind (Element.rasters es.dropLast)

theorem behind_all (h : HeaderBlock) (es : List Element) :
    (Picture.start h.info).behind (Element.rasters es) =
      (lastRaster? es).elim (inFront h es)
        fun r => r.onto (inFront h es) (inFront h es).canvas := by
  rcases es.eq_nil_or_concat' with rfl | ⟨init, e, rfl⟩
  · rfl
  · have hlast : lastRaster? (init ++ [e]) = e.content.raster? := by simp [lastRaster?]
    have hrasters : Element.rasters (init ++ [e]) =
        Element.rasters init ++ e.content.raster?.toList := by
      rw [Element.rasters, List.filterMap_append]
      cases hr : e.content.raster? <;> simp [hr, Element.rasters]
    rw [hrasters, Picture.behind_append, hlast, inFront, List.dropLast_concat]
    cases e.content.raster? with
    | none => exact Picture.behind_nil _
    | some r => exact behind_raster _ r

theorem decodable_last {es : List Element} :
    ∀ {p : Picture} {r : RasterBlock}, Element.ValidAll p.canvas es → lastRaster? es = some r →
      r.rows ≠ [] →
      r.opening.format.Decodable
        (r.rowBytes (p.behind (Element.rasters es.dropLast)).canvas) := by
  induction es with
  | nil => exact fun _ h => nomatch h
  | cons e es ih =>
    intro p r ⟨hv, hvs⟩ hlast
    cases es with
    | nil =>
      obtain ⟨padding, c⟩ := e
      obtain rfl : c = .raster r := by
        cases c <;> cases hlast
        rfl
      intro hrows
      rw [List.dropLast_singleton]
      show r.opening.format.Decodable (r.rowBytes (p.behind []).canvas)
      rw [p.behind_nil]
      exact hv.decodable hrows
    | cons e' es =>
      have hcanvas : (p.behind e.content.raster?.toList).canvas = e.refine p.canvas :=
        p.canvas_behind _
      rw [List.dropLast_cons_cons, Element.rasters_cons, Picture.behind_append]
      exact ih (hcanvas ▸ hvs) hlast

/-- A picture decodes without a terminator as well. Its palette, its width and its declared height
are the same, and its strips are those of the rows in front of the end of the data. All of its
content is the same exactly if the raster it ends with, if any, is: its rows keep their strips, and
the byte that is left of them is not taken for the opcode of embedded JPEG data where the picture
is not colored anyway. -/
theorem decode_unterminated (h : HeaderBlock) (es : List Element) (padding : UInt8)
    (tail : List UInt8) (hv : Element.ValidAll h.info es) :
    ∃ p q,
      (decode (writePicture h es padding tail).toArray .unlimited .never).result =
        .ok ⟨(writePicture h es padding tail).toArray, .unlimited, p⟩ ∧
      (decode (writeUnterminated h es).toArray .unlimited .never).result =
        .ok ⟨(writeUnterminated h es).toArray, .unlimited, q⟩ ∧
      q.palette = p.palette ∧ q.width = p.width ∧ q.declaredHeight = p.declaredHeight ∧
      (∀ r, lastRaster? es = some r → q.strips = (inFront h es).strips ++
        (r.endStrips (inFront h es).canvas).toArray) ∧
      (q.SameContent p ↔ ∀ r, lastRaster? es = some r → r.StandsLast (inFront h es)) := by
  obtain ⟨t, offsets, ht, hq⟩ := turns_unterminated es _ (Picture.start h.info) h.bytes
    (entered h.info (.between h.bytes _)) hv (length_lt_length_written h _ es) ⟨rfl, rfl⟩
  have hp := behind_all h es
  change t.work.picture =
    (lastRaster? es).elim (inFront h es) fun r => r.last (inFront h es) offsets at hq
  refine ⟨_, _, decode_written h es padding tail hv,
    decode_of_turns (Header.parse_header h _) ht, ?_⟩
  cases hlast : lastRaster? es with
  | none =>
    rw [hlast] at hp hq
    rw [hp, hq]
    exact ⟨rfl, rfl, rfl, nofun, fun _ => nofun, fun _ => ⟨rfl, rfl, rfl, rfl, rfl, rfl⟩⟩
  | some r =>
    rw [hlast] at hp hq
    rw [hp, hq]
    obtain ⟨hpalette, hwidth, hheight⟩ := r.last_canvas (inFront h es) offsets
    have hsame := RasterBlock.last_sameContent_iff offsets
      (decodable_last (p := Picture.start h.info) hv hlast)
    refine ⟨hpalette, hwidth, hheight, ?_, ?_⟩
    · rintro r' ⟨⟩
      exact r.last_strips _ offsets
    · refine hsame.trans ⟨?_, fun h => h r rfl⟩
      rintro h r' ⟨⟩
      exact h

/-- The last of these elements is a bitmap of rows that stand as they are. -/
theorem decode_unterminated_sample :
    Element.ValidAll sampleHeader.info sampleElements ∧
      ∃ p q,
        (decode (writePicture sampleHeader sampleElements 3 [1, 2, 3]).toArray .unlimited
          .never).result =
            .ok ⟨(writePicture sampleHeader sampleElements 3 [1, 2, 3]).toArray, .unlimited, p⟩ ∧
        (decode (writeUnterminated sampleHeader sampleElements).toArray .unlimited .never).result =
          .ok ⟨(writeUnterminated sampleHeader sampleElements).toArray, .unlimited, q⟩ ∧
        q.SameContent p := by
  have hvalid : Element.ValidAll sampleHeader.info sampleElements := by decide +kernel
  obtain ⟨p, q, hp, hq, -, -, -, -, hsame⟩ :=
    decode_unterminated sampleHeader sampleElements 3 [1, 2, 3] hvalid
  refine ⟨hvalid, p, q, hp, hq, hsame.mpr ?_⟩
  rintro r ⟨⟩
  decide +kernel

/-- A pixmap of one row of eight pixels of one color, packed into two bytes. -/
def packedElement : Element :=
  ⟨0, .raster
    { opening := .indexed .packBitsRect 0x8008 ⟨0, 0, 1, 8⟩ (Vector.replicate 18 0)
        ⟨8, 1, Vector.replicate 14 0⟩ ⟨Vector.replicate 4 0, 0, 0xFFFF, [], by decide⟩
        (Vector.replicate 18 0) (Vector.replicate 2 0)
      rows := [[0xF9, 5]] }⟩

/-- Without a terminator the row is read without its last byte. -/
theorem decode_unterminated_packed :
    Element.ValidAll sampleHeader.info [packedElement] ∧
      (fun doc => doc.picture.strips) <$> (decode (writePicture sampleHeader [packedElement] 0
        []).toArray .unlimited .never).result = .ok #[.bytes (List.replicate 8 5)] ∧
      (fun doc => doc.picture.strips) <$> (decode (writeUnterminated sampleHeader
        [packedElement]).toArray .unlimited .never).result = .ok #[.bytes []] := by
  decide +kernel

end Decode
end Pict
