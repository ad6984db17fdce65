import Pict.Proofs.Decode.Footprint
import Pict.Proofs.Raster.Palettes

/-!
# Rasters whose header is cut short

The header of a raster goes into the picture as it is read: the row bytes of the opcode first, then the
canvas that its bounds leave, and a palette last, once it is complete. Where the data ends in the
header the raster is given up with a warning, and what was read of it stays.

Results:
* `readColors_cut`, `openPixmap_cut`, `readOpening_cut`: how much data each part of a header needs.
* `raster_cutShort`: which headers are cut short, and all that they change.
* `cut_header_changes`: a picture that is cropped by one.
-/
namespace Pict

/-- The parts of the header of a raster in which the data can end. -/
inductive HeaderPart where
  | bounds
  | format
  | palette
  deriving DecidableEq, Repr

/-- What is told of a header that ends in the part, with the cursor at this offset. -/
def HeaderPart.warning : HeaderPart → RasterKind → Nat → Warning
  | .bounds, kind, _ => .boundsTruncated kind
  | .format, _, pos | .palette, _, pos => .pixmapTruncated pos

namespace RasterOp

def boundsOffset (op : RasterOp) : Nat := if op.rowBytes.isSome then 0 else 6

/-- A header that has so many bytes behind its opcode ends in the part: in the four edges of the bounds,
in the pixel size and the component count of a pixmap, or in what its palette says of itself, which
direct bits do not have. -/
inductive EndsIn (op : RasterOp) (left : Nat) : HeaderPart → Prop where
  | bounds : left < op.boundsOffset + 8 → EndsIn op left .bounds
  | format : op.pixmap = true → op.boundsOffset + 8 ≤ left → left < op.sizeOffset + 4 →
    EndsIn op left .format
  | palette : op.pixmap = true → op.kind ≠ .directBits → op.sizeOffset + 4 ≤ left →
    left < op.sizeOffset + 26 → EndsIn op left .palette

theorem sizeOffset_eq (op : RasterOp) : op.sizeOffset = op.boundsOffset + 26 := by
  unfold sizeOffset boundsOffset
  cases op.rowBytes <;> rfl

end RasterOp

namespace Raster

variable {op : RasterOp} {kind : RasterKind} {f : Format} {stop : Stop} {s t : Session Walk}

open Job

/-! ## Parts of a header -/

theorem readColors_cut (hkind : kind ≠ .directBits) (f : Format) (stop : Stop) :
    (s.work.cursor.remaining < 8 → ∃ d,
      readColors kind f stop s = .ok false { s with work := { s.work with cursor := d } }) ∧
    (8 ≤ s.work.cursor.remaining → ∃ t, readColors kind f stop s = .ok true t) := by
  have htable : (s.work.cursor.remaining < 8 → ∃ d,
        readColors .bitsRect f stop s = .ok false { s with work := { s.work with cursor := d } }) ∧
      (8 ≤ s.work.cursor.remaining → ∃ t, readColors .bitsRect f stop s = .ok true t) := by
    constructor
    · intro hshort
      obtain ⟨d, hpalette⟩ := readPalette_short stop hshort
      exact ⟨d, bind_eq_ok.mpr ⟨none, _, hpalette, rfl⟩⟩
    · intro hleft
      obtain ⟨last, palette, -, hpalette⟩ := readPalette_there stop hleft
      exact ⟨_, bind_eq_ok.mpr ⟨some palette, _, hpalette, rfl⟩⟩
  cases kind with
  | directBits => exact absurd rfl hkind
  | bitsRect | bitsRegion | packBitsRect | packBitsRegion => exact htable

/-- A pixmap needs four bytes, and one with a palette eight more behind the next fourteen. -/
theorem readPixmap_cut (kind : RasterKind) (stop : Stop) (hin : s.work.cursor.Inside) :
    (s.work.cursor.remaining < 4 ∨ kind ≠ .directBits ∧ s.work.cursor.remaining < 26 → ∃ d,
      readPixmap kind stop s = .ok none { s with work := { s.work with cursor := d } }) ∧
    (4 ≤ s.work.cursor.remaining → kind = .directBits ∨ 26 ≤ s.work.cursor.remaining →
      ∀ t, readPixmap kind stop s ≠ .ok none t) := by
  rw [readPixmap_eq, bind_apply, Walk.read_apply]
  by_cases hshort : s.work.cursor.remaining < 4
  · rw [Format.advances_read.short hin hshort]
    exact ⟨fun _ => ⟨_, rfl⟩, fun hleft => absurd hleft (Nat.not_le.mpr hshort)⟩
  · have hroom : s.work.cursor.pos + 4 ≤ s.work.cursor.source.size := by
      unfold Cursor.remaining at hshort
      omega
    obtain ⟨size, components, -, hread⟩ := readFormat_there hroom
    rw [hread]
    dsimp only
    have hleft := s.work.cursor.remaining_skip 18
    by_cases hkind : kind = .directBits
    · subst hkind
      refine ⟨fun hends => absurd hends (by simp [hshort]), fun _ _ t h => ?_⟩
      obtain ⟨settled, u, hcolors, hrest⟩ := bind_eq_ok.mp h
      cases settled with
      | true => exact passColors_true _ hrest
      | false => exact readColors_direct _ hcolors
    · obtain ⟨hcut, hwhole⟩ := readColors_cut hkind ⟨size.toNat, components⟩ stop
        (s := { s with work := { s.work with cursor := s.work.cursor.skip 18 } })
      dsimp only at hcut hwhole
      constructor
      · intro hends
        obtain ⟨d, hcolors⟩ := hcut (by omega)
        exact ⟨d, bind_eq_ok.mpr ⟨false, _, hcolors, rfl⟩⟩
      · intro _ hcolors t h
        obtain ⟨u, hsettled⟩ := hwhole (by have := hcolors.resolve_left hkind; omega)
        obtain ⟨settled, v, hsame, hrest⟩ := bind_eq_ok.mp h
        obtain ⟨rfl, rfl⟩ := Job.ok_unique hsettled hsame
        exact passColors_true _ hrest

/-- Such a pixmap is given up with a warning. -/
theorem openPixmap_cut (kind : RasterKind) (stop : Stop) (hin : s.work.cursor.Inside) :
    (s.work.cursor.remaining < 4 ∨ kind ≠ .directBits ∧ s.work.cursor.remaining < 26 → ∃ d,
      openPixmap kind stop s = .ok none
        { s with
          warnings := s.warnings.push (.pixmapTruncated d.pos)
          work := { s.work with cursor := d } }) ∧
    (4 ≤ s.work.cursor.remaining → kind = .directBits ∨ 26 ≤ s.work.cursor.remaining →
      ∀ t, openPixmap kind stop s ≠ .ok none t) := by
  obtain ⟨hcut, hwhole⟩ := readPixmap_cut kind stop hin
  constructor
  · intro hends
    obtain ⟨d, hpixmap⟩ := hcut hends
    exact ⟨d, bind_eq_ok.mpr ⟨none, _, hpixmap, rfl⟩⟩
  · intro hleft hcolors t h
    obtain ⟨f, u, hpixmap, hrest⟩ := bind_eq_ok.mp h
    cases f with
    | none => exact hwhole hleft hcolors u hpixmap
    | some f => cases (pure_eq_ok.mp hrest).1

/-! ## Headers -/

theorem takeRowBytes_apply (op : RasterOp) (hin : s.work.cursor.Inside) :
    takeRowBytes op.rowBytes stop s = .ok () { s with work := { s.work with
      cursor := s.work.cursor.skip op.boundsOffset
      picture := { s.work.picture with
        rowBytes := op.rowBytes.getD s.work.picture.rowBytes } } } := by
  unfold RasterOp.boundsOffset
  cases op.rowBytes with
  | none => rfl
  | some n =>
    have hstill : s.work.cursor.skip 0 = s.work.cursor := Cursor.skip_of_le hin
    rw [Option.isSome_some, if_pos rfl, hstill]
    rfl

theorem readOpening_bounds (stop : Stop) (hin : s.work.cursor.Inside)
    (h : s.work.cursor.remaining < op.boundsOffset + 8) : ∃ d,
      readOpening op stop s = .ok none
        ⟨s.checks, s.warnings.push (.boundsTruncated op.kind),
          d, { s.work.picture with rowBytes := op.rowBytes.getD s.work.picture.rowBytes },
          s.work.marks⟩ := by
  have hshort : (s.work.cursor.skip op.boundsOffset).remaining < 8 := by
    rw [Cursor.remaining_skip]
    omega
  rw [readOpening_eq, bind_apply, takeRowBytes_apply op hin]
  dsimp only
  rw [bind_apply, Walk.read_apply,
    advances_readBounds.short (s.work.cursor.skip_pos_le op.boundsOffset) hshort]
  exact ⟨_, rfl⟩

/-- Where a walk is behind the bounds of a raster: they have left their canvas. -/
def behindBounds (op : RasterOp) (width height : Int) (s : Session Walk) : Session Walk :=
  ⟨s.checks, s.warnings, s.work.cursor.skip op.sizeOffset,
    Picture.resize { s.work.picture with rowBytes := op.rowBytes.getD s.work.picture.rowBytes }
      width height,
    s.work.marks⟩

theorem behindBounds_inside (op : RasterOp) (width height : Int) (s : Session Walk) :
    (behindBounds op width height s).work.cursor.Inside :=
  s.work.cursor.skip_pos_le op.sizeOffset

theorem remaining_behindBounds (op : RasterOp) (width height : Int) (s : Session Walk) :
    (behindBounds op width height s).work.cursor.remaining =
      s.work.cursor.remaining - op.sizeOffset :=
  s.work.cursor.remaining_skip op.sizeOffset

theorem readOpening_behind (stop : Stop) (hin : s.work.cursor.Inside)
    (h : op.boundsOffset + 8 ≤ s.work.cursor.remaining) : ∃ width height,
      s.work.cursor.source.bounds? (s.work.cursor.pos + op.boundsOffset) = some (width, height) ∧
      readOpening op stop s =
        (if op.pixmap then openPixmap op.kind else pure (some Format.bitmap)) stop
          (behindBounds op width height s) := by
  have hroom : s.work.cursor.pos + op.boundsOffset + 8 ≤ s.work.cursor.source.size := by
    unfold Cursor.remaining at h
    omega
  have hskip : s.work.cursor.skip op.boundsOffset =
      { s.work.cursor with pos := s.work.cursor.pos + op.boundsOffset } :=
    Cursor.skip_of_le (by omega)
  rcases readBounds_cases (s.work.cursor.skip op.boundsOffset) with
    ⟨⟨width, height⟩, hbounds, hread⟩ | ⟨-, hshort⟩
  · rw [Cursor.skip_skip, ← op.sizeOffset_eq] at hread
    rw [hskip] at hbounds
    refine ⟨width, height, hbounds, ?_⟩
    rw [readOpening_eq, bind_apply, takeRowBytes_apply op hin]
    dsimp only
    rw [bind_apply, Walk.read_apply]
    dsimp only
    rw [hread]
    rfl
  · rw [hskip] at hshort
    exact absurd hroom (Nat.not_le.mpr hshort)

/-- What becomes of a walk in which the header of a raster ends in the part: it is told of, and what was
read in front of the part is in the picture. -/
structure CutShort (op : RasterOp) (part : HeaderPart) (s t : Session Walk) : Prop where
  checks : t.checks = s.checks
  warnings : t.warnings = s.warnings.push (part.warning op.kind t.work.cursor.pos)
  marks : t.work.marks = s.work.marks
  picture : t.work.picture = { s.work.picture with
    rowBytes := op.rowBytes.getD s.work.picture.rowBytes
    width := t.work.picture.width
    declaredHeight := t.work.picture.declaredHeight }
  unbounded : part = .bounds → s.work.picture.SameCanvas t.work.picture
  bounded : part ≠ .bounds → ∃ width height,
    s.work.cursor.source.bounds? (s.work.cursor.pos + op.boundsOffset) = some (width, height) ∧
    t.work.picture.width = Header.override s.work.picture.width width ∧
    t.work.picture.declaredHeight = Header.override s.work.picture.declaredHeight height

/-- A header that ends in one of its parts is given up. -/
theorem readOpening_cut (hin : s.work.cursor.Inside) {part : HeaderPart}
    (h : op.EndsIn s.work.cursor.remaining part) (stop : Stop) :
    ∃ t, readOpening op stop s = .ok none t ∧ CutShort op part s t := by
  -- behind the bounds only a pixmap can end
  have hpixmap (hpixmap : op.pixmap = true) (hpart : part ≠ .bounds)
      (hwarning : ∀ pos, part.warning op.kind pos = .pixmapTruncated pos)
      (hbehind : op.boundsOffset + 8 ≤ s.work.cursor.remaining)
      (hends : s.work.cursor.remaining - op.sizeOffset < 4 ∨
        op.kind ≠ .directBits ∧ s.work.cursor.remaining - op.sizeOffset < 26) :
      ∃ t, readOpening op stop s = .ok none t ∧ CutShort op part s t := by
    obtain ⟨width, height, hbounds, hopening⟩ := readOpening_behind stop hin hbehind
    obtain ⟨hcut, -⟩ := openPixmap_cut op.kind stop
      (behindBounds_inside op width height s)
    rw [remaining_behindBounds] at hcut
    obtain ⟨d, hgiven⟩ := hcut hends
    rw [if_pos hpixmap, hgiven] at hopening
    exact ⟨_, hopening, rfl, congrArg s.warnings.push (hwarning d.pos).symm, rfl, rfl,
      fun h => absurd h hpart, fun _ => ⟨width, height, hbounds, rfl, rfl⟩⟩
  cases h with
  | bounds hshort =>
    obtain ⟨d, hopening⟩ := readOpening_bounds stop hin hshort
    exact ⟨_, hopening, rfl, rfl, rfl, rfl, fun _ => ⟨rfl, rfl⟩, fun h => absurd rfl h⟩
  | format hp hbehind hshort =>
    exact hpixmap hp nofun (fun _ => rfl) hbehind (Or.inl (by omega))
  | palette hp hkind hbehind hshort =>
    have hsize := op.sizeOffset_eq
    exact hpixmap hp nofun (fun _ => rfl) (by omega) (Or.inr ⟨hkind, by omega⟩)

theorem exists_endsIn (hin : s.work.cursor.Inside) (h : readOpening op stop s = .ok none t) :
    ∃ part, op.EndsIn s.work.cursor.remaining part := by
  by_cases hbounds : s.work.cursor.remaining < op.boundsOffset + 8
  · exact ⟨_, .bounds hbounds⟩
  · have hbehind : op.boundsOffset + 8 ≤ s.work.cursor.remaining := Nat.le_of_not_lt hbounds
    obtain ⟨width, height, -, hopening⟩ := readOpening_behind stop hin hbehind
    rw [hopening] at h
    split at h
    · rename_i hpixmap
      by_contra hnone
      have hformat : op.sizeOffset + 4 ≤ s.work.cursor.remaining :=
        Nat.le_of_not_lt fun hlt => hnone ⟨_, .format hpixmap hbehind hlt⟩
      have hpalette : op.kind = .directBits ∨ op.sizeOffset + 26 ≤ s.work.cursor.remaining := by
        by_contra hneither
        rw [not_or] at hneither
        exact hnone ⟨_, .palette hpixmap hneither.1 hformat (Nat.lt_of_not_le hneither.2)⟩
      obtain ⟨-, hwhole⟩ := openPixmap_cut op.kind stop
        (behindBounds_inside op width height s)
      rw [remaining_behindBounds] at hwhole
      exact hwhole (by omega) (hpalette.imp_right fun hle => by omega) _ h
    · cases (pure_eq_ok.mp h).1

end Raster

namespace Decode

theorem raster_endsIn (limits : Limits) {op : RasterOp} (stop : Stop) {s : Session Walk}
    (hin : s.work.cursor.Inside) {part : HeaderPart} (h : op.EndsIn s.work.cursor.remaining part) :
    ∃ t, raster limits op stop s = .ok () t ∧ Raster.CutShort op part s t := by
  obtain ⟨t, hopening, hcut⟩ := Raster.readOpening_cut hin h stop
  exact ⟨t, Job.bind_eq_ok.mpr ⟨none, t, hopening, rfl⟩, hcut⟩

/-- The header of a raster is given up exactly where the data ends in one of its parts. The raster then
ends without an error, whatever the limits and the stop are, and with one warning. Nothing of the
picture has changed but its row bytes, which are those of the opcode, if it has any, and its canvas,
which is what the bounds leave of it, if the data does not end in them. -/
theorem raster_cutShort (limits : Limits) (op : RasterOp) (stop : Stop) {s : Session Walk}
    (hin : s.work.cursor.Inside) :
    ((∃ t, Raster.readOpening op stop s = .ok none t) ↔
      ∃ part, op.EndsIn s.work.cursor.remaining part) ∧
    ∀ part, op.EndsIn s.work.cursor.remaining part →
      ∃ t, raster limits op stop s = .ok () t ∧ Raster.CutShort op part s t := by
  refine ⟨⟨?_, ?_⟩, fun part hends => raster_endsIn limits stop hin hends⟩
  · rintro ⟨t, hopening⟩
    exact Raster.exists_endsIn hin hopening
  · rintro ⟨part, hends⟩
    obtain ⟨t, hopening, -⟩ := Raster.readOpening_cut hin hends stop
    exact ⟨t, hopening⟩

/-- A bitmap of eight pixels, and a pixmap of one pixel that ends behind its bounds. -/
def croppedRasters : List UInt8 :=
  [0, 0x90, 0, 1, 0, 0, 0, 0, 0, 1, 0, 8] ++ List.replicate 18 0 ++ [0xFF, 0] ++
    [0, 0x98, 0x80, 8, 0, 0, 0, 0, 0, 1, 0, 1] ++ List.replicate 18 0

def croppedOp : RasterOp := ⟨.packBitsRect, some 8, true⟩

def croppedStart : Session Walk :=
  entered sampleHeader.info (.between sampleHeader.bytes croppedRasters)

def croppedBitmap : Session Walk := sessionOf (turn .unlimited .never croppedStart)

def croppedOpcode : Session Walk := sessionOf (Walk.read (Opcode.read .two) .never croppedBitmap)

def croppedPixmap : Session Walk := { croppedOpcode with checks := croppedOpcode.checks + 1 }

theorem walks_cropped :
    ∃ r, Walks .unlimited .never sampleHeader.info (.between sampleHeader.bytes croppedRasters)
      [croppedStart, croppedBitmap] r := by
  have hfirst : turn .unlimited .never croppedStart = .ok true croppedBitmap :=
    Job.eq_ok_of_toOption (by decide +kernel)
  obtain ⟨t, hlast⟩ : ∃ t, turn .unlimited .never croppedBitmap = .ok false t :=
    ⟨_, Job.eq_ok_of_toOption (by decide +kernel)⟩
  exact ⟨.ok () t, .walked (enter_unlimited _ _)
    (.again (turnStep_eq_inl.mpr hfirst) (.done (turnStep_last hlast)))⟩

theorem dispatches_cropped :
    Dispatches .never croppedBitmap (.raster croppedOp) croppedPixmap := by
  have hread : Walk.read (Opcode.read .two) .never croppedBitmap =
      .ok (some (.raster croppedOp)) croppedOpcode := Job.eq_ok_of_toOption (by decide +kernel)
  have hversion : croppedBitmap.work.picture.version = .two := by decide +kernel
  unfold Dispatches
  rw [hversion]
  exact ⟨_, hread, Job.check_passes _ _ rfl⟩

/-- The bounds of one pixel are among the bytes that are left there. The picture is eight pixels wide. -/
theorem croppedPixmap_stands :
    croppedPixmap.work.cursor.Inside ∧ croppedPixmap.work.cursor.remaining = 26 ∧
      croppedPixmap.work.cursor.source.bounds?
        (croppedPixmap.work.cursor.pos + croppedOp.boundsOffset) = some (1, 1) ∧
      croppedPixmap.work.picture.width = 8 ∧ croppedPixmap.work.picture.rowBytes = 1 := by
  unfold Cursor.Inside
  decide +kernel

theorem endsIn_cropped : croppedOp.EndsIn croppedPixmap.work.cursor.remaining .format := by
  rw [croppedPixmap_stands.2.1]
  exact .format rfl (by decide) (by decide)

theorem width_cropped {t : Session Walk}
    (h : Raster.CutShort croppedOp .format croppedPixmap t) : t.work.picture.width = 1 := by
  obtain ⟨width, height, hbounds, hwidth, -⟩ := h.bounded nofun
  have hedges := croppedPixmap_stands.2.2.1
  obtain ⟨rfl, rfl⟩ := Prod.mk.inj (Option.some.inj (hedges.symm.trans hbounds))
  rw [hwidth]
  rfl

/-- The pixmap leaves its bounds and its row bytes, and nothing else. -/
theorem raster_cropped :
    ∃ t, raster .unlimited croppedOp .never croppedPixmap = .ok () t ∧
      croppedPixmap.work.picture.width = 8 ∧ t.work.picture.width = 1 ∧
      croppedPixmap.work.picture.rowBytes = 1 ∧ t.work.picture.rowBytes = 8 ∧
      t.work.picture.strips = croppedPixmap.work.picture.strips := by
  obtain ⟨hin, -, -, hwidth, hrowBytes⟩ := croppedPixmap_stands
  obtain ⟨t, ht, hcut⟩ := (raster_cutShort .unlimited _ .never hin).2 _ endsIn_cropped
  refine ⟨t, ht, hwidth, width_cropped hcut, hrowBytes, ?_, ?_⟩
  · rw [hcut.picture]
    rfl
  · rw [hcut.picture]

/-- Not every header that is cut short leaves the picture as it was: eight pixels are cropped to one
by a pixmap of which nothing else is there. -/
theorem cut_header_changes :
    ¬ ∀ (source : Source) (info : Info) (cursor : Cursor) (limits : Limits) (stop : Stop)
        (visited : List (Session Walk)) (r : EStateM.Result Error (Session Walk) Unit)
        (s u t : Session Walk) (op : RasterOp),
      Header.parse source = .ok (info, cursor) → Walks limits stop info cursor visited r →
      s ∈ visited → Dispatches stop s (.raster op) u →
      (∃ part, op.EndsIn u.work.cursor.remaining part) → raster limits op stop u = .ok () t →
      t.work.picture.width = u.work.picture.width ∧
        t.work.picture.declaredHeight = u.work.picture.declaredHeight ∧
        t.work.picture.rowBytes = u.work.picture.rowBytes ∧
        t.work.picture.palette = u.work.picture.palette ∧
        t.work.picture.strips = u.work.picture.strips ∧
        t.work.picture.channels = u.work.picture.channels := by
  intro hall
  obtain ⟨r, hwalks⟩ := walks_cropped
  obtain ⟨hin, -, -, hwidth, -⟩ := croppedPixmap_stands
  obtain ⟨t, ht, hcut⟩ := raster_endsIn .unlimited .never hin endsIn_cropped
  obtain ⟨hsame, -⟩ := hall _ _ _ _ _ _ r croppedBitmap _ _ _
    (Header.parse_header sampleHeader croppedRasters) hwalks (by simp) dispatches_cropped
    ⟨_, endsIn_cropped⟩ ht
  rw [width_cropped hcut, hwidth] at hsame
  cases hsame

end Decode
end Pict
