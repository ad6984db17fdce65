import Pict.Proofs.Decode.Canvas
import Pict.Proofs.Raster.Opening
import Pict.Proofs.Raster.RunOut

/-!
# Rasters that fail

Two things fail while a raster is read, both for the size of its pixels: the opening of direct bits,
and the first row of a raster whose rows cannot be decoded. What is missing of either fails nothing,
so that an opening or a row that the data has run out in front of never gets so far.

Results:
* `fails_bind_ok`, `fails_bind_left`: where jobs in a row fail.
* `readOpening_pixelSize`: where the pixel size of a raster stands in the data.
* `readOpening_direct_fails_iff`, `succeeds_readOpening`: when an opening fails.
* `readRows_fails_iff`: when the rows of a raster fail.
-/
namespace Pict

/-! ## Jobs that fail -/

namespace Job

variable {σ α β : Type} {s t : Session σ} {e e' : Error}

/-- Under a stop that never fires the job fails with the error. -/
def Fails (job : Job σ α) (s : Session σ) (e : Error) : Prop := ∃ t, job .never s = .error e t

theorem not_fails_of_ok {job : Job σ α} {a : α} (h : job .never s = .ok a t) : ¬ Fails job s e := by
  rintro ⟨u, hu⟩
  cases h.symm.trans hu

theorem Fails.unique {job : Job σ α} (h : Fails job s e) (h' : Fails job s e') : e = e' := by
  obtain ⟨t, ht⟩ := h
  obtain ⟨u, hu⟩ := h'
  cases ht.symm.trans hu
  rfl

/-- Behind a job that succeeds the next one decides. -/
theorem fails_bind_ok {a : Job σ α} {f : α → Job σ β} {x : α} (h : a .never s = .ok x t) :
    Fails (a >>= f) s e ↔ Fails (f x) t e := by
  unfold Fails
  rw [bind_apply, h]

theorem fails_bind_iff {a : Job σ α} {f : α → Job σ β} :
    Fails (a >>= f) s e ↔ Fails a s e ∨ ∃ x t, a .never s = .ok x t ∧ Fails (f x) t e := by
  unfold Fails
  simp only [bind_apply]
  cases a .never s with
  | ok x t =>
    constructor
    · exact fun hrest => Or.inr ⟨x, t, rfl, hrest⟩
    · rintro (⟨_, ⟨⟩⟩ | ⟨y, u, hy, hrest⟩)
      cases hy
      exact hrest
  | error e' t =>
    constructor
    · rintro ⟨_, ⟨⟩⟩
      exact Or.inl ⟨t, rfl⟩
    · rintro (⟨_, ⟨⟩⟩ | ⟨_, _, ⟨⟩, _⟩)
      exact ⟨t, rfl⟩

theorem fails_fail : Fails (fail e : Job σ α) s e' ↔ e' = e := by
  constructor
  · rintro ⟨t, ht⟩
    cases ht
    rfl
  · rintro rfl
    exact ⟨s, rfl⟩

section
variable {s : Session Walk}

theorem Succeeds.not_fails {job : Job Walk α} (h : Succeeds job) : ¬ Fails job s e := by
  obtain ⟨a, t, ht⟩ := h s
  exact not_fails_of_ok ht

/-- What does not fail can be left out behind a job. -/
theorem fails_bind_left {a : Job Walk α} {f : α → Job Walk β} (h : ∀ x, Succeeds (f x)) :
    Fails (a >>= f) s e ↔ Fails a s e := by
  rw [fails_bind_iff]
  exact ⟨fun h' => h'.resolve_right fun ⟨x, _, _, hrest⟩ => (h x).not_fails hrest, Or.inl⟩

end
end Job

open Job

/-! ## What is there and what is not -/

theorem Source.i16?_of_le {source : Source} {p : Nat} (h : p + 2 ≤ source.size) :
    ∃ x, source.i16? p = some x := by
  obtain ⟨w, hw⟩ := Option.isSome_iff_exists.mp ((source.isSome_u16?_iff p).mpr h)
  exact ⟨signed w, by rw [i16?, hw]; rfl⟩

theorem Source.i16?_of_lt {source : Source} {p : Nat} (h : source.size < p + 2) :
    source.i16? p = none := by
  have hw : source.u16? p = none := by
    rw [← Option.not_isSome_iff_eq_none, source.isSome_u16?_iff]
    omega
  rw [i16?, hw]
  rfl

/-- How far apart the edges at an offset are: the right one from the left one, and the lower one from
the upper one. -/
def Source.bounds? (source : Source) (p : Nat) : Option (Int × Int) := do
  let top ← source.i16? p
  let left ← source.i16? (p + 2)
  let bottom ← source.i16? (p + 4)
  let right ← source.i16? (p + 6)
  pure (right - left, bottom - top)

theorem Cursor.skip_skip (c : Cursor) (m n : Nat) : (c.skip m).skip n = c.skip (m + n) := by
  simp only [skip, seek]
  congr 1
  omega

theorem Reader.Advances.short {α : Type} {n : Nat} {r : Reader α} (h : r.Advances n) {c : Cursor}
    (hc : c.Inside) (hlt : c.remaining < n) : (r c).1 = none := by
  cases hr : (r c).1 with
  | none => rfl
  | some a =>
    have := h.remaining_le hc (by rw [hr]; rfl)
    omega

/-! ## Formats -/

/-- Pixels of other depths do not expand, whatever is in them. -/
theorem Depth.expandRow_undecodable {depth : Nat} (h : depth ∉ [1, 2, 4]) (width : Nat)
    (input : List UInt8) : expandRow depth width input = .error (.unsupportedBitDepth depth) := by
  simp only [List.mem_cons, List.not_mem_nil, or_false, not_or] at h
  obtain ⟨h1, h24⟩ := h
  rw [expandRow, expandInto, if_neg h1, if_neg (not_or.mpr h24)]

namespace Format

variable {f : Format} {rowBytes : Nat}

/-- The pixels of a row cannot be decoded: less than a byte of them does not expand, and where rows
are not packed only those of eight and of 16 bits stand for themselves. -/
def Undecodable (f : Format) (rowBytes : Nat) : Prop :=
  if f.isPacked rowBytes then f.pixelSize < 8 ∧ f.pixelSize ∉ [1, 2, 4]
  else f.pixelSize ∉ [1, 2, 4, 8, 16]

instance (f : Format) (rowBytes : Nat) : Decidable (f.Undecodable rowBytes) :=
  inferInstanceAs (Decidable (if f.isPacked rowBytes then _ ∧ _ else _))

/-- There is a row behind the cursor: the length of a packed one, any byte of another one. -/
def RowAhead (f : Format) (rowBytes : Nat) (c : Cursor) : Prop :=
  if f.isPacked rowBytes then Raster.lengthSize rowBytes ≤ c.remaining else 0 < c.remaining

theorem bitmap_decodable : ¬ bitmap.Undecodable rowBytes := by
  unfold Undecodable
  split
  · exact fun h => h.2 (by decide)
  · exact fun h => h (by decide)

theorem packedStrips_undecodable (hp : f.isPacked rowBytes = true) (h : f.Undecodable rowBytes)
    (width : Nat) (packed : List UInt8) :
    f.packedStrips width packed = .error (.unsupportedBitDepth f.pixelSize) := by
  rw [Undecodable, if_pos hp] at h
  rw [packedStrips, if_neg (by omega)]
  dsimp only
  rw [if_pos h.1, Depth.expandRow_undecodable h.2]
  rfl

theorem rawStrip_undecodable (hp : f.isPacked rowBytes = false) (h : f.Undecodable rowBytes)
    (width : Nat) (row : List UInt8) :
    f.rawStrip width row = .error (.unsupportedBitDepth f.pixelSize) := by
  rw [Undecodable, hp, if_neg Bool.false_ne_true] at h
  simp only [List.mem_cons, List.not_mem_nil, or_false, not_or] at h
  obtain ⟨h1, h2, h4, h8, h16⟩ := h
  rw [rawStrip, if_neg h16, if_neg h8, Depth.expandRow_undecodable (by simp [h1, h2, h4])]
  rfl

theorem packedStrips_decodable (hp : f.isPacked rowBytes = true) (h : ¬ f.Undecodable rowBytes)
    (width : Nat) (packed : List UInt8) : ∃ strips, f.packedStrips width packed = .ok strips := by
  rw [Undecodable, if_pos hp] at h
  by_cases hlt : f.pixelSize < 8
  · have hdepth : f.pixelSize ∈ [1, 2, 4] := not_not.mp fun hdepth => h ⟨hlt, hdepth⟩
    exact packedStrips_isOk (List.mem_append_left [8, 16, 24, 32] hdepth) width packed
  · -- what has a byte or more is stored or passed over
    unfold packedStrips
    split
    · exact ⟨_, rfl⟩
    · dsimp only
      split
      · exact ⟨_, rfl⟩
      · split <;> exact ⟨_, rfl⟩

theorem rawStrip_decodable (hp : f.isPacked rowBytes = false) (h : ¬ f.Undecodable rowBytes)
    (width : Nat) (row : List UInt8) : ∃ strip, f.rawStrip width row = .ok strip := by
  rw [Undecodable, hp, if_neg Bool.false_ne_true] at h
  exact rawStrip_isOk (not_not.mp h) width row

end Format

/-- How far behind its opcode the pixel size of a pixmap stands. In front of it are eight bytes of
bounds and 18 that say how pixels are packed, in direct bits also six of a base address and row
bytes. -/
def RasterOp.sizeOffset (op : RasterOp) : Nat := if op.rowBytes.isSome then 26 else 32

namespace Raster

variable {f : Format} {p : Picture} {s : Session Walk} {e : Error}

/-! ## Rows -/

theorem takenRow_eq_none_iff {rowBytes : Nat} {c : Cursor} :
    takenRow rowBytes c = none ↔ c.remaining < lengthSize rowBytes := by
  refine ⟨takenRow_none, fun h => ?_⟩
  cases htaken : takenRow rowBytes c with
  | none => rfl
  | some taken => exact absurd (takenRow_remaining htaken).1 (Nat.not_le.mpr h)

theorem readRow_over (row : Nat) (h : ¬ f.RowAhead p.rowBytes s.work.cursor) :
    ∃ t, readRow f p row .never s = .ok false t := by
  unfold Format.RowAhead at h
  unfold readRow
  cases hp : f.isPacked p.rowBytes with
  | true =>
    rw [if_pos hp, Nat.not_le] at h
    obtain ⟨t, ht, -⟩ := readPackedRow_none f p.width p.declaredHeight row .never
      (takenRow_eq_none_iff.mpr h)
    exact ⟨t, ht⟩
  | false =>
    rw [hp, if_neg Bool.false_ne_true] at h
    have hend : s.work.cursor.atEnd = true := (Cursor.atEnd_iff _).mpr (by omega)
    refine ⟨{ s with warnings := s.warnings.push (.rawRowsEnded row p.declaredHeight) }, ?_⟩
    refine bind_eq_ok.mpr ⟨s.work.cursor, s, rfl, ?_⟩
    rw [if_pos hend]
    rfl

theorem readRow_fails (row : Nat) (h : f.RowAhead p.rowBytes s.work.cursor)
    (hf : f.Undecodable p.rowBytes) :
    Fails (readRow f p row) s (.unsupportedBitDepth f.pixelSize) := by
  unfold Format.RowAhead at h
  unfold readRow
  cases hp : f.isPacked p.rowBytes with
  | true =>
    rw [if_pos hp] at h
    cases htaken : takenRow p.rowBytes s.work.cursor with
    | none => exact absurd (takenRow_none htaken) (Nat.not_lt.mpr h)
    | some taken =>
      have hrow := readPackedRow_some f p.width p.declaredHeight row .never htaken
      rw [Format.packedStrips_undecodable hp hf] at hrow
      obtain ⟨t, ht, -⟩ := hrow
      exact ⟨t, ht⟩
  | false =>
    rw [hp, if_neg Bool.false_ne_true] at h
    have hleft : ¬ s.work.cursor.atEnd = true := by
      rw [Cursor.atEnd_iff]
      omega
    rw [if_neg Bool.false_ne_true, readRawRow_eq, fails_bind_ok (Walk.getCursor_apply .never s),
      if_neg hleft, fails_bind_ok (show Walk.next p.rowBytes .never s = .ok _ _ from rfl)]
    unfold keepRaw
    rw [Format.rawStrip_undecodable hp hf]
    split
    · exact ⟨_, rfl⟩
    · exact ⟨_, rfl⟩

theorem succeeds_readRow (row : Nat) (hf : ¬ f.Undecodable p.rowBytes) :
    Succeeds (readRow f p row) := by
  unfold readRow
  cases hp : f.isPacked p.rowBytes with
  | true => exact succeeds_readPackedRow (Format.packedStrips_decodable hp hf p.width) row
  | false => exact succeeds_readRawRow (Format.rawStrip_decodable hp hf p.width) row

/-- The rows of a raster fail at the first one: it is there, and it cannot be decoded. -/
theorem readRows_fails_iff :
    Fails (readRows f) s e ↔
      0 < s.work.picture.declaredHeight ∧
        f.RowAhead s.work.picture.rowBytes s.work.cursor ∧
        f.Undecodable s.work.picture.rowBytes ∧ e = .unsupportedBitDepth f.pixelSize := by
  rw [readRows_eq, fails_bind_ok (Walk.getPicture_apply .never s)]
  generalize hpicture : s.work.picture = p
  by_cases hf : f.Undecodable p.rowBytes
  · cases p.declaredHeight with
    | zero => exact ⟨fun h => absurd h (not_fails_of_ok rfl), fun h => absurd h.1 (by omega)⟩
    | succ left =>
      obtain ⟨u, hcheck, hwork, -⟩ := checkRow_never 0 s
      rw [eachRow, fails_bind_ok hcheck, ← hwork]
      by_cases hrow : f.RowAhead p.rowBytes u.work.cursor
      · have hfails := readRow_fails (p := p) 0 hrow hf
        constructor
        · intro h
          exact ⟨Nat.succ_pos left, hrow, hf, h.unique (fails_bind_iff.mpr (Or.inl hfails))⟩
        · rintro ⟨-, -, -, rfl⟩
          exact fails_bind_iff.mpr (Or.inl hfails)
      · obtain ⟨t, ht⟩ := readRow_over (p := p) 0 hrow
        rw [fails_bind_ok ht]
        exact ⟨fun h => absurd h (not_fails_of_ok rfl), fun h => absurd h.2.1 hrow⟩
  · have hrows : Succeeds (eachRow (readRow f p) 0 p.declaredHeight) :=
      Succeeds.moves.eachRow (fun row => succeeds_readRow row hf) p.declaredHeight 0
    exact ⟨fun h => absurd h hrows.not_fails, fun h => absurd h.2.2.1 hf⟩

/-! ## Openings -/

theorem succeeds_tellPixmap : ∀ f : Option Format, Succeeds (match f with
    | some f => pure (some f)
    | none => do
      let c ← Walk.getCursor
      Job.warn (.pixmapTruncated c.pos)
      pure none)
  | some f => Succeeds.pure (some f)
  | none =>
    Succeeds.moves.getCursor.bind fun _ => (Succeeds.moves.warn _).bind fun _ => Succeeds.pure none

/-- Pixmaps other than direct bits bring a palette, which goes with pixels of any size. -/
theorem succeeds_openPixmap {kind : RasterKind} (hkind : kind ≠ .directBits) :
    Succeeds (openPixmap kind) := by
  have hpixmap : Succeeds (readPixmap kind) := by
    rw [readPixmap_eq]
    refine (Succeeds.moves.read Format.advances_read).bind fun f => ?_
    cases f with
    | none => exact Succeeds.pure none
    | some f => exact (succeeds_readTable hkind f).bind (Succeeds.moves.passColors kind f)
  exact hpixmap.bind succeeds_tellPixmap

/-- The opening of a raster other than direct bits does not fail. -/
theorem succeeds_readOpening {op : RasterOp} (hkind : op.kind ≠ .directBits) :
    Succeeds (readOpening op) := by
  rw [readOpening_eq]
  have hrowBytes : Succeeds (takeRowBytes op.rowBytes) := by
    cases op.rowBytes with
    | none => exact fun _ => ⟨_, _, rfl⟩
    | some n => exact fun _ => ⟨_, _, rfl⟩
  refine hrowBytes.bind fun _ => (Succeeds.moves.read advances_readBounds).bind fun bounds => ?_
  cases bounds with
  | none => exact (Succeeds.moves.warn _).bind fun _ => Succeeds.pure none
  | some bounds =>
    refine (Succeeds.modify _).bind fun _ => ?_
    split
    · exact succeeds_openPixmap hkind
    · exact Succeeds.pure _

/-- The row bytes of direct bits follow from their pixel size, if that is 16 or 32. -/
theorem directRowBytes?_eq_none_iff (f : Format) (width : Nat) :
    f.directRowBytes? width = none ↔ f.pixelSize ∉ [16, 32] := by
  unfold Format.directRowBytes?
  simp only [List.mem_cons, List.not_mem_nil, or_false, not_or]
  split
  · simp_all
  · split <;> simp_all

theorem readColors_direct_fails_iff :
    Fails (readColors .directBits f) s e ↔
      f.pixelSize ∉ [16, 32] ∧ e = .unsupportedVectorData f.pixelSize := by
  show Fails (Walk.getPicture >>= _) s e ↔ _
  rw [fails_bind_ok (Walk.getPicture_apply .never s),
    ← directRowBytes?_eq_none_iff f s.work.picture.width]
  cases hbytes : f.directRowBytes? s.work.picture.width with
  | none =>
    dsimp only
    rw [fails_fail]
    exact ⟨fun h => ⟨rfl, h⟩, fun h => h.2⟩
  | some n =>
    exact ⟨fun h => absurd h (Succeeds.modify _ |>.bind fun _ => Succeeds.pure true).not_fails,
      fun h => nomatch h.1⟩

variable {c : Cursor}

theorem readBounds_there (h : c.pos + 8 ≤ c.source.size) :
    ∃ bounds, c.source.bounds? c.pos = some bounds ∧
      readBounds c = (some bounds, ({ c with pos := c.pos + 8 } : Cursor).skip 18) := by
  obtain ⟨top, htop⟩ := Source.i16?_of_le (show c.pos + 2 ≤ c.source.size by omega)
  obtain ⟨left, hleft⟩ := Source.i16?_of_le (show c.pos + 2 + 2 ≤ c.source.size by omega)
  obtain ⟨bottom, hbottom⟩ := Source.i16?_of_le (show c.pos + 4 + 2 ≤ c.source.size by omega)
  obtain ⟨right, hright⟩ := Source.i16?_of_le (show c.pos + 6 + 2 ≤ c.source.size by omega)
  refine ⟨(right - left, bottom - top), ?_, ?_⟩
  · simp [Source.bounds?, htop, hleft, hbottom, hright]
  unfold readBounds Reader.i16
  rw [Reader.bind_field htop, Reader.bind_field hleft, Reader.bind_field hbottom,
    Reader.bind_field hright]
  rfl

/-- Either the bounds are there, with all that comes behind them, or the data ends in front of their
last edge. -/
theorem readBounds_cases (c : Cursor) :
    (∃ bounds, c.source.bounds? c.pos = some bounds ∧ readBounds c = (some bounds, c.skip 26)) ∨
      (readBounds c).1 = none ∧ c.source.size < c.pos + 8 := by
  by_cases hthere : c.pos + 8 ≤ c.source.size
  · obtain ⟨bounds, hbounds, hread⟩ := readBounds_there hthere
    exact Or.inl ⟨bounds, hbounds, hread⟩
  · refine Or.inr ⟨?_, Nat.lt_of_not_le hthere⟩
    by_cases hin : c.Inside
    · refine advances_readBounds.short hin ?_
      unfold Cursor.remaining
      omega
    · exact hungry_readBounds c (Nat.sub_eq_zero_of_le (Nat.le_of_not_le hin))

theorem readFormat_there (h : c.pos + 4 ≤ c.source.size) :
    ∃ size components, c.source.i16? c.pos = some size ∧
      Format.read c = (some ⟨size.toNat, components⟩, c.skip 18) := by
  obtain ⟨size, hsize⟩ := Source.i16?_of_le (show c.pos + 2 ≤ c.source.size by omega)
  obtain ⟨components, hcomponents⟩ :=
    Source.i16?_of_le (show c.pos + 2 + 2 ≤ c.source.size by omega)
  refine ⟨size, components.toNat, hsize, ?_⟩
  unfold Format.read Reader.i16
  rw [Reader.bind_field hsize, Reader.bind_field hcomponents]
  rfl

/-! ## The pixel size -/

/-- A format that is read declares its pixel size at the cursor, and a negative one counts as zero. -/
theorem read_pixelSize (h : (Format.read c).1 = some f) :
    (c.source.i16? c.pos).map Int.toNat = some f.pixelSize := by
  unfold Format.read Reader.i16 at h
  rw [Reader.bind_apply] at h
  cases hsize : c.source.i16? c.pos with
  | none =>
    rw [Reader.field_none hsize] at h
    cases h
  | some size =>
    rw [Reader.field_some hsize] at h
    dsimp only at h
    rw [Reader.bind_apply] at h
    split at h
    · cases h
      rfl
    · cases h

theorem read_skip_pixelSize {k : Nat} (h : (Format.read (c.skip k)).1 = some f) :
    (c.source.i16? (c.pos + k)).map Int.toNat = some f.pixelSize := by
  have hsize := read_pixelSize h
  unfold Cursor.skip Cursor.seek at hsize
  dsimp only at hsize
  by_cases hle : c.pos + k ≤ c.source.size
  · rwa [Nat.min_eq_left hle] at hsize
  · rw [Nat.min_eq_right (by omega), Source.i16?_of_lt (by omega)] at hsize
    cases hsize

/-- The pixel size of a raster is that of a bitmap, or it is declared. -/
theorem readOpening_pixelSize {op : RasterOp} {stop : Stop} {t : Session Walk}
    (h : readOpening op stop s = .ok (some f) t) :
    f = .bitmap ∨
      (s.work.cursor.source.i16? (s.work.cursor.pos + op.sizeOffset)).map Int.toNat =
        some f.pixelSize := by
  obtain ⟨u, v, bounds, hrowBytes, hbounds, hrest⟩ := readOpening_eq_ok h
  have hbehind : u.work.cursor.skip 26 = s.work.cursor.skip op.sizeOffset := by
    unfold RasterOp.sizeOffset
    cases hop : op.rowBytes with
    | none =>
      rw [hop] at hrowBytes
      obtain ⟨-, rfl⟩ := EStateM.Result.ok.inj hrowBytes
      exact Cursor.skip_skip s.work.cursor 6 26
    | some n =>
      rw [hop] at hrowBytes
      obtain ⟨-, rfl⟩ := EStateM.Result.ok.inj hrowBytes
      rfl
  obtain ⟨rfl, rfl⟩ := Walk.read_eq_ok.mp hbounds
  rcases readBounds_cases u.work.cursor with ⟨bounds, -, hread⟩ | ⟨hnone, -⟩
  · rw [hread, hbehind] at hrest
    dsimp only at hrest
    split at hrest
    · obtain ⟨w, x, hformat, -⟩ := openPixmap_some hrest
      rw [Walk.read_apply] at hformat
      exact Or.inr (read_skip_pixelSize (EStateM.Result.ok.inj hformat).1)
    · exact Or.inl (Option.some.inj (pure_eq_ok.mp hrest).1).symm
  · rw [hnone] at hrest
    cases hrest.1

/-! ## Direct bits -/

/-- At this offset stand a pixel size that direct bits cannot have and a component count. -/
def UnsupportedSizeAt (source : Source) (p n : Nat) : Prop :=
  p + 4 ≤ source.size ∧ (source.i16? p).map Int.toNat = some n ∧ n ∉ [16, 32]

theorem unsupportedSizeAt_skip (c : Cursor) (k n : Nat) :
    UnsupportedSizeAt (c.skip k).source (c.skip k).pos n ↔
      UnsupportedSizeAt c.source (c.pos + k) n := by
  unfold UnsupportedSizeAt Cursor.skip Cursor.seek
  dsimp only
  by_cases hle : c.pos + k ≤ c.source.size
  · rw [Nat.min_eq_left hle]
  · rw [Nat.min_eq_right (by omega)]
    exact iff_of_false (fun h => absurd h.1 (by omega)) (fun h => absurd h.1 (by omega))

theorem openPixmap_direct_fails_iff (hin : s.work.cursor.Inside) :
    Fails (openPixmap .directBits) s e ↔
      ∃ n, e = .unsupportedVectorData n ∧
        UnsupportedSizeAt s.work.cursor.source s.work.cursor.pos n := by
  have hpixmap : Fails (openPixmap .directBits) s e ↔ Fails (readPixmap .directBits) s e :=
    fails_bind_left succeeds_tellPixmap
  rw [hpixmap, readPixmap_eq]
  by_cases hthere : s.work.cursor.pos + 4 ≤ s.work.cursor.source.size
  · obtain ⟨size, components, hsize, hread⟩ := readFormat_there hthere
    rw [fails_bind_ok (Walk.read_eq .never s (congrArg Prod.fst hread))]
    dsimp only
    rw [fails_bind_left (Succeeds.moves.passColors .directBits _), readColors_direct_fails_iff]
    constructor
    · rintro ⟨hother, rfl⟩
      exact ⟨size.toNat, rfl, hthere, by rw [hsize]; rfl, hother⟩
    · rintro ⟨n, rfl, -, hn, hother⟩
      rw [hsize] at hn
      obtain rfl := Option.some.inj hn
      exact ⟨hother, rfl⟩
  · have hshort : s.work.cursor.remaining < 4 := by
      unfold Cursor.remaining
      omega
    rw [fails_bind_ok (Walk.read_eq .never s (Format.advances_read.short hin hshort))]
    refine iff_of_false (not_fails_of_ok rfl) ?_
    rintro ⟨n, -, hle, -⟩
    exact hthere hle

/-- The opening of direct bits fails for a pixel size that is there, with the component count behind
it. In front of it are six bytes of a base address and row bytes, eight of bounds, and 18 that say
how pixels are packed. -/
theorem readOpening_direct_fails_iff :
    Fails (readOpening .direct) s e ↔
      ∃ n, e = .unsupportedVectorData n ∧
        UnsupportedSizeAt s.work.cursor.source (s.work.cursor.pos + 32) n := by
  let u : Session Walk := { s with work := { s.work with cursor := s.work.cursor.skip 6 } }
  have hskip : takeRowBytes RasterOp.direct.rowBytes .never s = .ok () u := rfl
  rw [readOpening_eq, fails_bind_ok hskip]
  rcases readBounds_cases u.work.cursor with ⟨bounds, -, hread⟩ | ⟨hnone, hshort⟩
  · have hbounds := Walk.read_apply .never u readBounds
    rw [hread, Cursor.skip_skip] at hbounds
    rw [fails_bind_ok hbounds]
    dsimp only
    rw [fails_bind_ok (show Walk.modify (·.resize bounds.1 bounds.2) .never _ = .ok () _ from rfl),
      RasterOp.direct, if_pos rfl,
      openPixmap_direct_fails_iff (by exact Cursor.skip_pos_le s.work.cursor 32)]
    simp only [unsupportedSizeAt_skip]
  · rw [fails_bind_ok (Walk.read_eq .never u hnone)]
    refine iff_of_false (not_fails_of_ok rfl) ?_
    rintro ⟨n, -, hle, -⟩
    simp only [u, Cursor.skip, Cursor.seek] at hshort
    omega

end Raster
end Pict
