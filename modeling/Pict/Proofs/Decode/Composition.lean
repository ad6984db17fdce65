import Pict.Proofs.Decode.Elements
import Pict.Proofs.Decode.Turns

/-!
# The walk through a written picture

A picture is written as a header, some elements, the terminator and whatever
comes behind it (`writePicture`).

Results:
* `passes_turn`: one turn of the walk passes over one element.
* `turns_writeAll`: the turns pass over all elements and end at the terminator.
* `decode_writePicture`: a written picture decodes to the picture behind its
  rasters.
-/
namespace Pict

open PackBits (writeWord)

namespace Decode

/-! ## What is passed over -/

theorem passes_skipPayload (payload : Payload) {length : Int} {bytes : List UInt8}
    (h : bytes.length = length.toNat) (front rest : List UInt8) (p : Picture) :
    Passes (skipPayload payload length) front bytes rest p () p := by
  have henough : ¬ ((bytes ++ rest).length : Int) < length := by
    rw [List.length_append]
    omega
  refine Passes.bind_nil (Passes.getCursor _ _ p) ?_
  rw [Cursor.remaining_between, if_neg henough]
  exact Passes.skip h _ _ p

theorem passes_clipRegion (size : UInt16) (payload : Vector UInt8 (signed size - 2).toNat)
    (front rest : List UInt8) (p : Picture) :
    Passes clipRegion front (writeWord size ++ payload.toList) rest p () p :=
  Passes.bind (Passes.read (Reader.Takes.i16 size _ _) p)
    (passes_skipPayload .clipRegion Vector.length_toList _ _ p)

theorem passes_longComment (kind : Vector UInt8 2) (size : UInt16)
    (payload : Vector UInt8 (signed size).toNat) (front rest : List UInt8) (p : Picture) :
    Passes longComment front (kind.toList ++ (writeWord size ++ payload.toList)) rest p () p :=
  Passes.bind (Passes.skip Vector.length_toList _ _ p) <|
    Passes.bind (Passes.read (Reader.Takes.i16 size _ _) p)
      (passes_skipPayload .longComment Vector.length_toList _ _ p)

theorem passes_shortSkip (size : UInt8) (payload : Vector UInt8 size.toNat)
    (front rest : List UInt8) (p : Picture) :
    Passes shortSkip front ([size] ++ payload.toList) rest p () p :=
  Passes.bind (Passes.read (Reader.Takes.u8 size _ _) p)
    (passes_skipPayload .shortSkip (by simp) _ _ p)

theorem passes_raster {r : RasterBlock} {p : Picture} (h : r.Valid p.canvas) (front : List UInt8)
    {rest : List UInt8} (hrest : rest ≠ []) :
    Passes (raster .unlimited r.opening.op) front (r.body p.canvas) rest p ()
      (r.onto p p.canvas) := by
  refine Passes.bind (r.opening.passes h.opening _ _ p) ?_
  refine Passes.bind_nil (Passes.getPicture _ _ _) ?_
  refine Passes.bind_nil (Passes.pure _ _ _ ()) ?_
  refine Passes.bind_nil (Passes.pure _ _ _ ()) ?_
  exact Raster.passes_readRows (p := r.opening.onto p) r.opening.format h.decodable h.rows h.count
    (front ++ r.opening.body) hrest

/-! ## Turns -/

theorem behind_raster (p : Picture) (r : RasterBlock) : p.behind [r] = r.onto p p.canvas := by
  rw [Picture.behind_cons, Picture.behind_nil]

theorem passes_dispatch {c : Content} {p : Picture} (h : c.Valid p.canvas) (front : List UInt8)
    {rest : List UInt8} (hrest : ∀ r, c = .raster r → rest ≠ []) :
    Passes (dispatch .unlimited c.opcode) front (c.body p.canvas) rest p true
      (p.behind c.raster?.toList) := by
  -- content without a raster leaves the picture as it is
  have skipped : ∀ {job : Job Walk Bool} {body : List UInt8},
      Passes job front body rest p true p → Passes job front body rest p true (p.behind []) := by
    intro job body hpass
    rwa [p.behind_nil]
  cases c with
  | clipRegion size payload =>
    exact skipped (Passes.bind_last (passes_clipRegion size payload _ _ p) (Passes.pure _ _ p true))
  | longComment kind size payload =>
    exact skipped
      (Passes.bind_last (passes_longComment kind size payload _ _ p) (Passes.pure _ _ p true))
  | shortSkip code size payload =>
    exact skipped (Passes.bind_last (passes_shortSkip size payload _ _ p) (Passes.pure _ _ p true))
  | unknown code =>
    refine skipped ?_
    exact Passes.bind_nil (Passes.getCursor _ _ p)
      (Passes.bind_nil (Passes.warn _ _ p _) (Passes.pure _ _ p true))
  | raster r =>
    show Passes _ _ _ _ _ _ (p.behind [r])
    rw [behind_raster]
    exact Passes.bind_last (passes_raster h front (hrest r rfl)) (Passes.pure _ _ _ true)

theorem ofCode_unknown {code : UInt16} (h : code ∉ Opcode.recognised) (version : Version) :
    Opcode.ofCode version code = pure (.unknown code) := by
  unfold Opcode.ofCode
  split <;> first | rfl | exact absurd (by decide) h

theorem takes_ofCode {c : Content} {canvas : Info} (h : c.Valid canvas) :
    (Opcode.ofCode canvas.version c.code).Takes c.lead c.opcode := by
  cases c with
  | clipRegion | longComment => exact Reader.Takes.pure _
  | shortSkip code =>
    obtain ⟨-, rfl | rfl⟩ := h <;> exact Reader.Takes.pure _
  | unknown code =>
    show (Opcode.ofCode canvas.version code).Takes [] (.unknown code)
    rw [ofCode_unknown h.2]
    exact Reader.Takes.pure _
  | raster r => exact r.opening.takes_ofCode h.opening

theorem kind_inVersion (version : Version) (kind : RasterKind) :
    Opcode.InVersion version kind.code := by
  intro _
  cases kind <;> decide

theorem code_inVersion {c : Content} {canvas : Info} (h : c.Valid canvas) :
    Opcode.InVersion canvas.version c.code := by
  intro hone
  cases c with
  | clipRegion => exact (by decide : (0x0001 : UInt16).toNat < 256)
  | longComment => exact (by decide : (0x00A1 : UInt16).toNat < 256)
  | shortSkip code => exact absurd (hone.symm.trans h.1) (by decide)
  | unknown code => exact h.1 hone
  | raster r => exact kind_inVersion canvas.version r.opening.kind hone

/-- One turn passes over one element, when something follows it. -/
theorem passes_turn {e : Element} {p : Picture} (h : e.content.Valid p.canvas) (front : List UInt8)
    {rest : List UInt8} (hrest : rest ≠ []) :
    Passes (turn .unlimited) front (e.bytes p.canvas front.length) rest p true
      (p.behind e.content.raster?.toList) := by
  have hmore : p.canvas.version = .two → e.content.lead ++ (e.content.body p.canvas ++ rest) ≠ [] :=
    fun _ => by simp [hrest]
  have hop := Opcode.read_opcode (code_inVersion h) front e.padding (takes_ofCode h) hmore
  refine Passes.bind_nil (Passes.getPicture _ _ p) ?_
  refine Passes.bind (Passes.read hop p) ?_
  refine Passes.bind_nil (Passes.check _ _ p) ?_
  refine Passes.bind_last (passes_dispatch h _ fun _ _ => hrest) ?_
  refine Passes.bind_nil (Passes.getCursor _ _ _) ?_
  have hmore : ∀ front : List UInt8, (Cursor.between front rest).atEnd = false := by
    intro front
    rw [Bool.eq_false_iff, ne_eq, Cursor.atEnd_between]
    exact hrest
  rw [List.nil_append, hmore]
  exact Passes.pure _ _ _ true

/-! ## The whole walk -/

def terminator (version : Version) (padding : UInt8) (offset : Nat) : List UInt8 :=
  Opcode.pad version offset padding ++ Opcode.codeBytes version 0x00FF

theorem turn_terminator (padding : UInt8) (front tail : List UInt8) (p : Picture)
    (s : Session Walk)
    (hs : Stands s front (terminator p.version padding front.length ++ tail) p) :
    ∃ t, turn .unlimited .never s = .ok false t ∧ t.work.picture = p := by
  by_cases hlast : p.version = .two ∧ tail = []
  · obtain ⟨hv, rfl⟩ := hlast
    rw [List.append_nil] at hs
    let d : Cursor := .between (front ++ Opcode.pad .two front.length padding)
      (Opcode.codeBytes .two 0x00FF)
    have hread : Opcode.read s.work.picture.version s.work.cursor = (none, d) := by
      rw [hs.picture, hs.cursor, terminator, hv]
      exact Opcode.read_last front padding 0x00FF
    refine ⟨{ s with work := { s.work with cursor := d } }, ?_, hs.picture⟩
    rw [turn, Job.bind_apply, Walk.getPicture_apply]
    dsimp only
    rw [Job.bind_apply, Walk.read_apply, hread]
    rfl
  · have hcode : Opcode.InVersion p.version 0x00FF := fun _ => by decide
    have htakes : (Opcode.ofCode p.version 0x00FF).Takes [] .terminator := Reader.Takes.pure _
    have hmore : p.version = .two → [] ++ tail ≠ [] := fun hv htail => hlast ⟨hv, htail⟩
    have hop := Opcode.read_opcode hcode front padding htakes hmore
    rw [List.append_nil] at hop
    have hpass : Passes (turn .unlimited) front (terminator p.version padding front.length) tail p
        false p := by
      refine Passes.bind_nil (Passes.getPicture _ _ p) ?_
      refine Passes.bind_last (Passes.read hop p) ?_
      refine Passes.bind_nil (Passes.check _ _ p) ?_
      refine Passes.bind_nil (Passes.pure _ _ p false) ?_
      exact Passes.bind_nil (Passes.getCursor _ _ p) (Passes.pure _ _ p false)
    obtain ⟨t, ht, hst⟩ := hpass s hs
    exact ⟨t, ht, hst.picture⟩

/-- With enough turns the walk passes over all elements and ends. -/
theorem turns_writeAll (padding : UInt8) (tail : List UInt8) (es : List Element) :
    ∀ (n : Nat) (p : Picture) (front : List UInt8) (s : Session Walk),
      Element.ValidAll p.canvas es → es.length < n →
      Stands s front
        (Element.writeAll (fun offset => terminator p.version padding offset ++ tail) p.canvas
          front.length es) p →
      ∃ t, turns .unlimited n .never s = .ok () t ∧
        t.work.picture = p.behind (Element.rasters es) := by
  induction es with
  | nil =>
    intro n p front s _ hn hs
    obtain ⟨n, rfl⟩ : ∃ m, n = m + 1 := ⟨n - 1, by simp at hn; omega⟩
    obtain ⟨t, ht, hp⟩ := turn_terminator padding front tail p s hs
    refine ⟨t, ?_, by rw [hp]; exact p.behind_nil.symm⟩
    rw [turns, Job.bind_apply, ht]
    rfl
  | cons e es ih =>
    intro n p front s ⟨hv, hvs⟩ hn hs
    obtain ⟨n, rfl⟩ : ∃ m, n = m + 1 := ⟨n - 1, by simp at hn; omega⟩
    have hending : ∀ offset, terminator p.version padding offset ++ tail ≠ [] := by
      simp [terminator, Opcode.codeBytes_ne_nil]
    obtain ⟨t, ht, hst⟩ := passes_turn hv front (Element.writeAll_ne_nil hending _ _ es) s hs
    have hcanvas : (p.behind e.content.raster?.toList).canvas = e.refine p.canvas :=
      p.canvas_behind _
    have hversion : (p.behind e.content.raster?.toList).version = p.version := rfl
    rw [← hcanvas] at hvs hst
    rw [← hversion, ← List.length_append] at hst
    obtain ⟨u, hu, hp⟩ := ih n _ _ t hvs (Nat.lt_of_succ_lt_succ hn) hst
    refine ⟨u, ?_, ?_⟩
    · rw [turns, Job.bind_apply, ht]
      exact hu
    · rw [hp, Element.rasters_cons, Picture.behind_append]

/-! ## Pictures -/

/-- A picture: its header, some elements, the terminator, and what comes behind it. -/
def writePicture (h : HeaderBlock) (es : List Element) (padding : UInt8) (tail : List UInt8) :
    List UInt8 :=
  h.bytes ++ Element.writeAll (fun offset => terminator h.version padding offset ++ tail) h.info
    h.bytes.length es

theorem length_lt_length_written (h : HeaderBlock) (ending : Nat → List UInt8) (es : List Element) :
    es.length < (h.bytes ++ Element.writeAll ending h.info h.bytes.length es).length := by
  have h1 := Element.length_le_length_writeAll ending es h.info h.bytes.length
  have h2 := h.length_bytes
  rw [List.length_append]
  split at h2 <;> omega

theorem decode_written (h : HeaderBlock) (es : List Element) (padding : UInt8)
    (tail : List UInt8) (hv : Element.ValidAll h.info es) :
    (decode (writePicture h es padding tail).toArray .unlimited .never).result =
      .ok ⟨(writePicture h es padding tail).toArray, .unlimited,
        (Picture.start h.info).behind (Element.rasters es)⟩ := by
  obtain ⟨t, ht, hp⟩ := turns_writeAll padding tail es _ (Picture.start h.info) h.bytes
    (entered h.info (.between h.bytes _)) hv (length_lt_length_written h _ es) ⟨rfl, rfl⟩
  rw [← hp]
  exact decode_of_turns (Header.parse_header h _) ht

/-- Every written picture decodes, whatever its elements are and whatever comes behind
it. Its strips are those that the rows of its rasters decode to on their own, in order;
its canvas, its row bytes, its palette and its channels are left by the rasters alone, so
that content which is passed over leaves no trace. -/
theorem decode_writePicture (h : HeaderBlock) (es : List Element) (padding : UInt8)
    (tail : List UInt8) (hv : Element.ValidAll h.info es) :
    ∃ p, (decode (writePicture h es padding tail).toArray .unlimited .never).result =
        .ok ⟨(writePicture h es padding tail).toArray, .unlimited, p⟩ ∧
      p.strips = (RasterBlock.stripsOf h.info (Element.rasters es)).toArray ∧
      p.stripBytes =
        ((RasterBlock.stripsOf h.info (Element.rasters es)).map Strip.byteSize).sum ∧
      p.width =
        RasterBlock.lastPositive h.info.width
          ((Element.rasters es).map (·.opening.bounds.width)) ∧
      p.declaredHeight =
        RasterBlock.lastPositive h.info.height
          ((Element.rasters es).map (·.opening.bounds.height)) ∧
      p.rowBytes = (Element.rasters es).getLast?.elim 0 (·.opening.rowBytes p.width) ∧
      p.palette = ((Element.rasters es).filterMap (·.opening.palette?)).getLast? ∧
      p.channels = (if (Element.rasters es).any RasterBlock.isColored then 3 else 1) ∧
      p.version = h.info.version ∧ p.resolution = h.info.resolution ∧
      p.jpegOffsets = #[] ∧ p.interleaved = false := by
  have hwidth := RasterBlock.refineAll_width (Element.rasters es) h.info
  have hheight := RasterBlock.refineAll_height (Element.rasters es) h.info
  refine ⟨_, decode_written h es padding tail hv, ?_, ?_, hwidth, hheight, ?_, ?_, rfl, rfl, rfl,
    rfl, rfl⟩
  · exact Array.empty_append
  · exact Nat.zero_add _
  · simp only [Picture.behind]
    cases (Element.rasters es).getLast? <;> rfl
  · simp only [Picture.behind, Picture.start, Option.or_none]

def sampleHeader : HeaderBlock :=
  .two (Vector.replicate 518 0) 1 2 (Vector.replicate 6 0) 0x480000 0x480000
    (Vector.replicate 4 0) 0 0 (Vector.replicate 4 0)

/-- Content that is passed over on both sides of a packed pixmap of two rows, which
changes the canvas, and of a bitmap without bounds, which does not. -/
def sampleElements : List Element :=
  [⟨0, .clipRegion 5 ⟨#[1, 2, 3], by decide⟩⟩,
   ⟨9, .unknown 0x0BAD⟩,
   ⟨0, .raster
      { opening := .indexed .packBitsRegion 0x8008 ⟨0, 0, 2, 9⟩ (Vector.replicate 18 0)
          ⟨8, 1, Vector.replicate 14 0⟩
          ⟨Vector.replicate 4 0, 7, 0, [⟨Vector.replicate 2 0, ⟨10, 20, 30⟩, 1, 2, 3⟩], by decide⟩
          (Vector.replicate 18 0) (Vector.replicate 2 0)
        rows := [[0xF9, 5], [1, 6, 7, 0x80, 0x00, 8]] }⟩,
   ⟨0, .shortSkip 0x9190 2 ⟨#[1, 2], by decide⟩⟩,
   ⟨4, .longComment (Vector.replicate 2 0) 0xFFFF ⟨#[], by decide⟩⟩,
   ⟨0, .raster
      { opening := .bitmap .bitsRect 1 ⟨3, 3, 3, 3⟩ (Vector.replicate 18 0)
        rows := [[0xA0], [0xFF]] }⟩]

theorem decode_sampleElements :
    ∃ p, (decode (writePicture sampleHeader sampleElements 3 [1, 2, 3]).toArray .unlimited
        .never).result =
        .ok ⟨(writePicture sampleHeader sampleElements 3 [1, 2, 3]).toArray, .unlimited, p⟩ ∧
      p.strips = #[.bytes [5, 5, 5, 5, 5, 5, 5, 5], .bytes [6, 7, 8],
        .bytes [1, 0, 1, 0, 0, 0, 0, 0, 0], .bytes [1, 1, 1, 1, 1, 1, 1, 1, 0]] ∧
      p.width = 9 ∧ p.declaredHeight = 2 ∧ p.palette = some ⟨7, [⟨10, 20, 30⟩]⟩ := by
  obtain ⟨p, hp, hstrips, -, hwidth, hheight, -, hpalette, -⟩ :=
    decode_writePicture sampleHeader sampleElements 3 [1, 2, 3] (by decide +kernel)
  refine ⟨p, hp, ?_, ?_, ?_, ?_⟩
  · rw [hstrips]
    decide +kernel
  · rw [hwidth]
    decide +kernel
  · rw [hheight]
    decide +kernel
  · rw [hpalette]
    decide +kernel

end Decode
end Pict
