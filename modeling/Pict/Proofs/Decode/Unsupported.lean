import Pict.Proofs.Decode.Footprint
import Pict.Proofs.Raster.Undecodable

/-!
# What a walk fails for

Without limits and without a stop a walk behind a header fails in one of two ways, both for the size
of pixels: it comes to direct bits of a size that they cannot have, or to a first row that cannot be
decoded. Whatever else is wrong with the data, or is missing from it, is passed over.

Results:
* `turn_fails_iff`: when a turn fails, and for what.
* `decode_fails_iff`: when decoding does.
-/
namespace Pict

open Job

namespace Decode

variable {limits : Limits} {s u : Session Walk} {e : Error} {n : Nat}

/-! ## Turns -/

/-- In the turn from `s` the walk comes to direct bits whose pixels have `n` bits, neither 16 nor 32:
behind the code stand 32 bytes up to the pixel size, then that and the component count. -/
def MeetsVectorData (s : Session Walk) (n : Nat) : Prop :=
  ∃ c, Opcode.readCode s.work.picture.version s.work.cursor = (some 0x009A, c) ∧
    Raster.UnsupportedSizeAt c.source (c.pos + 32) n

/-- In the turn from `s` the walk comes to the first row of a raster with `n` bits per pixel, which
cannot be decoded. The data declares them: a bitmap, whose pixels are single bits, can be decoded. -/
def MeetsBitDepth (s : Session Walk) (n : Nat) : Prop :=
  ∃ op u f v, Dispatches .never s (.raster op) u ∧ Raster.readOpening op .never u = .ok (some f) v ∧
    (u.work.cursor.source.i16? (u.work.cursor.pos + op.sizeOffset)).map Int.toNat = some n ∧
    0 < v.work.picture.declaredHeight ∧ f.RowAhead v.work.picture.rowBytes v.work.cursor ∧
    f.pixelSize = n ∧ f.Undecodable v.work.picture.rowBytes

/-- Without limits a raster fails in its opening or in its rows. -/
theorem raster_fails_iff {op : RasterOp} :
    Fails (raster .unlimited op) u e ↔
      Fails (Raster.readOpening op) u e ∨
        ∃ f v, Raster.readOpening op .never u = .ok (some f) v ∧ Fails (Raster.readRows f) v e := by
  have hrows {f : Format} {v : Session Walk} :
      Fails (limitedRows .unlimited (some f)) v e ↔ Fails (Raster.readRows f) v e := Iff.rfl
  rw [raster_eq_limitedRows, fails_bind_iff]
  refine or_congr_right ⟨?_, ?_⟩
  · rintro ⟨opened, v, hopening, hfails⟩
    cases opened with
    | none => exact absurd hfails (not_fails_of_ok rfl)
    | some f => exact ⟨f, v, hopening, hrows.mp hfails⟩
  · rintro ⟨f, v, hopening, hfails⟩
    exact ⟨some f, v, hopening, hrows.mpr hfails⟩

theorem dispatch_fails_iff {opcode : Opcode} :
    Fails (dispatch limits opcode) u e ↔
      ∃ op, opcode = .raster op ∧ Fails (raster limits op) u e := by
  constructor
  · intro hfails
    by_cases hraster : ∃ op, opcode = .raster op
    · obtain ⟨op, rfl⟩ := hraster
      exact ⟨op, rfl, (fails_bind_left fun _ => Succeeds.pure true).mp hfails⟩
    · exact absurd hfails (succeeds_dispatch limits fun op hop => hraster ⟨op, hop⟩).not_fails
  · rintro ⟨op, rfl, hfails⟩
    exact (fails_bind_left fun _ => Succeeds.pure true).mpr hfails

theorem Dispatches.fails_iff {opcode : Opcode} (h : Dispatches .never s opcode u) :
    Fails (turn limits) s e ↔ Fails (dispatch limits opcode) u e := by
  obtain ⟨s₁, hread, hcheck⟩ := h
  have hrest (goesOn : Bool) : Succeeds (do
      let c ← Walk.getCursor
      pure (goesOn && !c.atEnd)) := Succeeds.moves.getCursor.bind fun _ => Succeeds.pure _
  rw [turn_eq_obey, fails_bind_ok (Walk.getPicture_apply .never s), fails_bind_ok hread]
  unfold obey
  rw [fails_bind_ok hcheck, fails_bind_left hrest]

/-- A turn that reads no opcode does not fail. -/
theorem dispatches_of_fails (h : Fails (turn limits) s e) :
    ∃ opcode u, Dispatches .never s opcode u := by
  cases hopcode : (Opcode.read s.work.picture.version s.work.cursor).1 with
  | none =>
    rw [turn_eq_obey, fails_bind_ok (Walk.getPicture_apply .never s),
      fails_bind_ok (Walk.read_eq .never s hopcode)] at h
    exact absurd h (not_fails_of_ok rfl)
  | some opcode =>
    exact ⟨opcode, _, _, Walk.read_eq .never s hopcode, check_passes .never _ rfl⟩

theorem turn_fails_raster_iff :
    Fails (turn limits) s e ↔
      ∃ op u, Dispatches .never s (.raster op) u ∧ Fails (raster limits op) u e := by
  constructor
  · intro hfails
    obtain ⟨opcode, u, hop⟩ := dispatches_of_fails hfails
    obtain ⟨op, rfl, hraster⟩ := dispatch_fails_iff.mp (hop.fails_iff.mp hfails)
    exact ⟨op, u, hop, hraster⟩
  · rintro ⟨op, u, hop, hraster⟩
    exact hop.fails_iff.mpr (dispatch_fails_iff.mpr ⟨op, rfl, hraster⟩)

theorem opening_fails_iff :
    (∃ op u, Dispatches .never s (.raster op) u ∧ Fails (Raster.readOpening op) u e) ↔
      ∃ n, e = .unsupportedVectorData n ∧ MeetsVectorData s n := by
  constructor
  · rintro ⟨op, u, hop, hfails⟩
    have hcursor := hop.behind
    obtain ⟨s₁, hread, hcheck⟩ := hop
    obtain ⟨hopcode, -⟩ := Walk.read_eq_ok.mp hread
    rcases Opcode.read_raster (Prod.ext hopcode rfl) with ⟨hkind, -⟩ | ⟨rfl, hcode⟩
    · exact absurd hfails (Raster.succeeds_readOpening hkind).not_fails
    · obtain ⟨n, rfl, hsize⟩ := Raster.readOpening_direct_fails_iff.mp hfails
      rw [hcursor] at hsize
      exact ⟨n, rfl, _, hcode, hsize⟩
  · rintro ⟨n, rfl, c, hcode, hsize⟩
    have hread := Walk.read_apply .never s (Opcode.read s.work.picture.version)
    rw [Opcode.read_direct hcode] at hread
    refine ⟨.direct, _, ⟨_, hread, check_passes .never _ rfl⟩, ?_⟩
    exact Raster.readOpening_direct_fails_iff.mpr ⟨n, rfl, hsize⟩

theorem rows_fails_iff :
    (∃ op u f v, Dispatches .never s (.raster op) u ∧
        Raster.readOpening op .never u = .ok (some f) v ∧ Fails (Raster.readRows f) v e) ↔
      ∃ n, e = .unsupportedBitDepth n ∧ MeetsBitDepth s n := by
  constructor
  · rintro ⟨op, u, f, v, hop, hopening, hfails⟩
    obtain ⟨hheight, hrow, hundecodable, rfl⟩ := Raster.readRows_fails_iff.mp hfails
    have hbitmap : f ≠ .bitmap := by
      rintro rfl
      exact Format.bitmap_decodable hundecodable
    have hsize := (Raster.readOpening_pixelSize hopening).resolve_left hbitmap
    exact ⟨f.pixelSize, rfl, op, u, f, v, hop, hopening, hsize, hheight, hrow, rfl, hundecodable⟩
  · rintro ⟨_, rfl, op, u, f, v, hop, hopening, -, hheight, hrow, rfl, hundecodable⟩
    exact ⟨op, u, f, v, hop, hopening,
      Raster.readRows_fails_iff.mpr ⟨hheight, hrow, hundecodable, rfl⟩⟩

/-- A turn fails for direct bits of a size that they cannot have, or for a first row that cannot be
decoded, and for nothing else. -/
theorem turn_fails_iff :
    Fails (turn .unlimited) s e ↔
      (∃ n, e = .unsupportedVectorData n ∧ MeetsVectorData s n) ∨
        ∃ n, e = .unsupportedBitDepth n ∧ MeetsBitDepth s n := by
  rw [turn_fails_raster_iff, ← opening_fails_iff, ← rows_fails_iff]
  simp only [raster_fails_iff]
  constructor
  · rintro ⟨op, u, hop, hfails | ⟨f, v, hopening, hfails⟩⟩
    · exact Or.inl ⟨op, u, hop, hfails⟩
    · exact Or.inr ⟨op, u, f, v, hop, hopening, hfails⟩
  · rintro (⟨op, u, hop, hfails⟩ | ⟨op, u, f, v, hop, hopening, hfails⟩)
    · exact ⟨op, u, hop, Or.inl hfails⟩
    · exact ⟨op, u, hop, Or.inr ⟨f, v, hopening, hfails⟩⟩

/-! ## Walks -/

def Reaches (info : Info) (cursor : Cursor) (s : Session Walk) : Prop :=
  ∃ visited r, Walks .unlimited .never info cursor visited r ∧ s ∈ visited

/-- A walk fails where one of its turns does, which is the last one. -/
theorem loop_fails_iff {visited : List (Session Walk)}
    {r : EStateM.Result Error (Session Walk) Unit} (h : Loop (turnStep limits .never) s visited r) :
    resultOf r = .error e ↔ ∃ t ∈ visited, Fails (turn limits) t e := by
  induction h with
  | @done s r hstep =>
    simp only [List.mem_singleton, exists_eq_left]
    unfold turnStep at hstep
    cases hturn : turn limits .never s with
    | error e' t =>
      rw [hturn] at hstep
      obtain rfl := Sum.inr.inj hstep
      constructor
      · rintro ⟨⟩
        exact ⟨t, hturn⟩
      · intro hfails
        rw [hfails.unique ⟨t, hturn⟩]
        rfl
    | ok goesOn t =>
      rw [hturn] at hstep
      refine ⟨fun hfails => ?_, fun hfails => absurd hfails (not_fails_of_ok hturn)⟩
      cases goesOn with
      | true => cases hstep
      | false =>
        obtain rfl := Sum.inr.inj hstep
        cases hfails
  | @again s s' visited r hstep _ ih =>
    rw [ih, List.exists_mem_cons_iff]
    exact ⟨Or.inr, fun hfails => hfails.resolve_left (not_fails_of_ok (turnStep_eq_inl.mp hstep))⟩

theorem decode_fails_turn_iff {source : Source} {info : Info} {cursor : Cursor}
    (hparse : Header.parse source = .ok (info, cursor)) :
    (decode source .unlimited .never).result = .error e ↔
      ∃ s, Reaches info cursor s ∧ Fails (turn .unlimited) s e := by
  obtain ⟨⟨visited, r, hwalks, hreport, -⟩, -⟩ := decode_advances hparse .unlimited .never
  have hresult : (decode source .unlimited .never).result = .error e ↔ resultOf r = .error e := by
    rw [hreport]
    exact Report.map_result_error
  have hreaches {s : Session Walk} : Reaches info cursor s ↔ s ∈ visited := by
    constructor
    · rintro ⟨visited', r', hwalks', hs⟩
      rwa [(hwalks.unique hwalks').1]
    · exact fun hs => ⟨visited, r, hwalks, hs⟩
  rw [hresult]
  cases hwalks with
  | refused henter => cases henter
  | walked _ hloop =>
    rw [loop_fails_iff hloop]
    simp only [hreaches]

/-- Behind a header, without limits and without a stop, decoding succeeds or it fails for the size of
pixels, however the data is cut short or broken. It fails for vector data exactly when the walk comes
to direct bits whose bounds, pixel size and component count are there and whose pixels have neither
16 nor 32 bits, and for a bit depth exactly when it comes to a first row of pixels that cannot be
decoded. -/
theorem decode_fails_iff {source : Source} {info : Info} {cursor : Cursor}
    (hparse : Header.parse source = .ok (info, cursor)) :
    ((∃ doc, (decode source .unlimited .never).result = .ok doc) ∨
      ∃ n, (decode source .unlimited .never).result = .error (.unsupportedVectorData n) ∨
        (decode source .unlimited .never).result = .error (.unsupportedBitDepth n)) ∧
    ∀ n,
      ((decode source .unlimited .never).result = .error (.unsupportedVectorData n) ↔
        ∃ s, Reaches info cursor s ∧ MeetsVectorData s n) ∧
      ((decode source .unlimited .never).result = .error (.unsupportedBitDepth n) ↔
        ∃ s, Reaches info cursor s ∧ MeetsBitDepth s n) := by
  have hfails {e : Error} : (decode source .unlimited .never).result = .error e ↔
      ∃ s, Reaches info cursor s ∧ ((∃ n, e = .unsupportedVectorData n ∧ MeetsVectorData s n) ∨
        ∃ n, e = .unsupportedBitDepth n ∧ MeetsBitDepth s n) := by
    simp only [decode_fails_turn_iff hparse, turn_fails_iff]
  refine ⟨?_, fun n => ⟨?_, ?_⟩⟩
  · cases hresult : (decode source .unlimited .never).result with
    | ok doc => exact Or.inl ⟨doc, rfl⟩
    | error e =>
      obtain ⟨s, -, ⟨n, rfl, -⟩ | ⟨n, rfl, -⟩⟩ := hfails.mp hresult
      · exact Or.inr ⟨n, Or.inl rfl⟩
      · exact Or.inr ⟨n, Or.inr rfl⟩
  · simp [hfails]
  · simp [hfails]

def onePixmap (opening : Opening) : Source :=
  (writePicture sampleHeader [⟨0, .raster { opening, rows := [[0xFF]] }⟩] 0 []).toArray

/-- A pixmap of eight pixels of three bits, whose row is not packed. -/
def threeBits : Opening :=
  .indexed .bitsRect 0x8001 ⟨0, 0, 1, 8⟩ (Vector.replicate 18 0) ⟨3, 1, Vector.replicate 14 0⟩
    ⟨Vector.replicate 4 0, 0, 0xFFFE, [], by decide⟩ (Vector.replicate 18 0) (Vector.replicate 2 0)

def trueColor : Opening :=
  .direct (Vector.replicate 6 0) ⟨0, 0, 1, 8⟩ (Vector.replicate 18 0)
    ⟨24, 3, Vector.replicate 14 0⟩ (Vector.replicate 18 0)

/-- The walks through these come to what they fail for. -/
theorem meets_onePixmap :
    (∃ cursor s, Header.parse (onePixmap threeBits) = .ok (sampleHeader.info, cursor) ∧
      Reaches sampleHeader.info cursor s ∧ MeetsBitDepth s 3) ∧
    ∃ cursor s, Header.parse (onePixmap trueColor) = .ok (sampleHeader.info, cursor) ∧
      Reaches sampleHeader.info cursor s ∧ MeetsVectorData s 24 := by
  constructor
  · have hparse : Header.parse (onePixmap threeBits) = .ok (sampleHeader.info, .between _ _) :=
      Header.parse_header sampleHeader _
    obtain ⟨s, hreaches, hmeets⟩ :=
      ((decode_fails_iff hparse).2 3).2.mp (by decide +kernel)
    exact ⟨_, s, hparse, hreaches, hmeets⟩
  · have hparse : Header.parse (onePixmap trueColor) = .ok (sampleHeader.info, .between _ _) :=
      Header.parse_header sampleHeader _
    obtain ⟨s, hreaches, hmeets⟩ :=
      ((decode_fails_iff hparse).2 24).1.mp (by decide +kernel)
    exact ⟨_, s, hparse, hreaches, hmeets⟩

end Decode
end Pict
