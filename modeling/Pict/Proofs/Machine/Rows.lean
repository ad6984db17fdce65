import Pict.Proofs.Decode.Frame
import Pict.Proofs.Decode.Passes
import Pict.Proofs.Machine.Guarded
import Pict.Proofs.Machine.Pixels
import Pict.Proofs.Machine.Readers
import Pict.Proofs.Raster.Growth

/-!
# Reading the rows of a raster on a machine

Rows are read into a buffer as long as a row may be, and what their strips take is counted in
a size. The count cannot leave its type because of what a row takes from the data: `Held` has
for each byte ahead the room of a row. Only rows that find nothing any more take room for
nothing, and these end the walk.

Results:
* `fill_ok`: a buffer is filled without a fault.
* `clamp_ok`: a length is cut without a fault, and fits the buffer and the data.
* `runs_readRows`: the rows of a raster are read without a fault.
-/
namespace Pict.Machine

open Guarded

variable {α : Type} {stop : Stop} {s : Session Walk}

/-! ## Jobs of a walk -/

def Guarded.read (r : CheckedReader α) : Guarded Walk (Option α) := transform fun w => do
  let (a, c) ← r w.cursor
  pure (a, { w with cursor := c })

def Guarded.move (f : Cursor → Cursor) : Guarded Walk Unit := transform fun w => do
  let c ← CheckedReader.place (f w.cursor)
  pure ((), { w with cursor := c })

def heapBytes : Strip → Checked Nat
  | .bytes samples => pure samples.length
  | .words samples => usize (samples.length * 2)

def store (strip : Strip) : Guarded Walk Unit := transform fun w => do
  let size ← heapBytes strip
  let total ← usize (w.picture.stripBytes + size)
  let picture := { w.picture with strips := w.picture.strips.push strip, stripBytes := total }
  pure ((), { w with picture, marks := w.marks.push w.cursor.pos })

def storeAll : List Strip → Guarded Walk Unit
  | [] => pure ()
  | strip :: rest => do
    store strip
    storeAll rest

/-- A buffer filled from the cursor on, with zeros behind the end of the data. The answer is how
many bytes were read, and the buffer. -/
def fill (buffer : List UInt8) (w : Walk) : Checked ((Nat × List UInt8) × Walk) := do
  let c := w.cursor
  let available := min buffer.length c.remaining
  let till ← usize (c.pos + available)
  let bytes ← slice c.source.toList c.pos till
  let front ← copy buffer 0 available bytes
  let behind ← slice front available front.length
  let row ← copy front available front.length (List.replicate behind.length 0)
  let d ← CheckedReader.place { c with pos := till }
  pure ((available, row), { w with cursor := d })

/-! ## Rows -/

def clamp (declared : Int) (capacity remaining : Nat) : Checked Int :=
  let length := min declared (asSigned capacity)
  if asSigned remaining ≤ length then isize (asSigned remaining - 1) else pure length

def settleLength (declared : Int) (capacity : Nat) : Guarded Walk Nat := do
  if asSigned capacity < declared then step (Job.warn (.packedRowTooLong declared capacity))
  let c ← step Walk.getCursor
  let length ← compute (clamp declared capacity c.remaining)
  if length < 0 then
    step (Job.warn (.packedRowOutOfRange declared c.pos))
    move fun c => c.seek (c.source.size - 1)
    pure 0
  else pure (asSize length)

/-- `Raster.takePacked` on a machine, into the front of a buffer. -/
def takePacked (declared : Int) (capacity : Nat) : Guarded Walk (List UInt8) := do
  let length ← settleLength declared capacity
  let front ← compute (slice (List.replicate capacity 0) 0 length)
  let (_, packed) ← transform (fill front)
  pure packed

def readPackedRow (f : Format) (width height rowBytes capacity row : Nat) :
    Guarded Walk Bool := do
  match ← read (readLength rowBytes) with
  | none =>
    step (Job.warn (.packedRowsEnded row height))
    pure false
  | some declared =>
    let packed ← takePacked declared capacity
    let strips ← settle (packedStrips f width packed)
    storeAll strips
    step (Raster.markDirect f)
    pure true

def readRawRow (f : Format) (width height rowBytes row : Nat) : Guarded Walk Bool := do
  let c ← step Walk.getCursor
  if c.atEnd then
    step (Job.warn (.rawRowsEnded row height))
    pure false
  else
    let (got, bytes) ← transform (fill (List.replicate rowBytes 0))
    if got < bytes.length then step (Job.warn (.rawRowTruncated row got bytes.length))
    let strip ← settle (rawStrip f width bytes)
    store strip
    step (Raster.markDirect f)
    pure true

def packedCapacity (rowBytes : Nat) : Checked Nat := do
  let more ← usize (rowBytes + 1)
  let headers ← divide rowBytes 128
  usize (more + headers)

def readRows (f : Format) : Guarded Walk Unit := do
  let p ← step Walk.getPicture
  if f.isPacked p.rowBytes then
    let capacity ← compute (packedCapacity p.rowBytes)
    eachRow (readPackedRow f p.width p.declaredHeight p.rowBytes capacity) 0 p.declaredHeight
  else eachRow (readRawRow f p.width p.declaredHeight p.rowBytes) 0 p.declaredHeight

/-! ## What a walk keeps to -/

/-- The cursor is tame, the canvas is as large as words can make it, and the walk has not come to
embedded JPEG data. -/
structure Sound (w : Walk) : Prop where
  tame : Tame w.cursor
  width : w.picture.width < 2 ^ 16
  height : w.picture.declaredHeight < 2 ^ 16
  rowBytes : w.picture.rowBytes < 2 ^ 31
  unscanned : w.picture.jpegOffsets = #[]

/-- The bytes of all strips, and for each byte ahead the room of a row. -/
def due (w : Walk) : Nat := w.picture.stripBytes + 2 ^ 32 * w.cursor.remaining

/-- The strips of a walk are held behind `rows` rows of a raster. -/
def Held (rows : Nat) (w : Walk) : Prop :=
  due w ≤ 2 ^ 63 ∨ w.cursor.remaining ≤ 1 ∧ w.picture.stripBytes ≤ 2 ^ 63 + 2 ^ 32 * rows

theorem Sound.onward {w : Walk} (h : Sound w) {c : Cursor} (hc : w.cursor.Onward c) :
    Sound { w with cursor := c } :=
  ⟨h.tame.onward hc, h.width, h.height, h.rowBytes, h.unscanned⟩

theorem Sound.store {w : Walk} (h : Sound w) (strip : Strip) (marks : Array Nat) :
    Sound { w with picture := w.picture.store strip, marks } :=
  ⟨h.tame, h.width, h.height, h.rowBytes, h.unscanned⟩

/-! ## Without a fault -/

theorem runs_getCursor : Runs id (step Walk.getCursor) Walk.getCursor stop s fun c w =>
    c = s.work.cursor ∧ w = s.work := by
  refine Runs.step fun c t h => ?_
  obtain ⟨rfl, rfl⟩ := EStateM.Result.ok.inj h
  exact ⟨rfl, rfl⟩

theorem runs_getPicture : Runs id (step Walk.getPicture) Walk.getPicture stop s fun p w =>
    p = s.work.picture ∧ w = s.work := by
  refine Runs.step fun p t h => ?_
  obtain ⟨rfl, rfl⟩ := EStateM.Result.ok.inj h
  exact ⟨rfl, rfl⟩

theorem runs_read {m : CheckedReader α} {r : Reader α} {Q : α → Prop} (h : Agrees m r Q)
    (hs : Tame s.work.cursor) :
    Runs id (read m) (Walk.read r) stop s fun a w =>
      a = (r s.work.cursor).1 ∧ w = { s.work with cursor := (r s.work.cursor).2 } ∧
        s.work.cursor.Forward (r s.work.cursor).2 ∧ ∀ b : α, a = some b → Q b := by
  obtain ⟨hsame, hforward, hQ⟩ := h s.work.cursor hs
  refine Runs.transform (Walk.read_apply stop s r) ?_ ⟨rfl, rfl, hforward, hQ⟩
  show (m s.work.cursor >>= _) = _
  rw [hsame]
  rfl

theorem runs_move {f : Cursor → Cursor} (h : Tame (f s.work.cursor)) :
    Runs id (move f) (Walk.move f) stop s fun _ w =>
      w = { s.work with cursor := f s.work.cursor } := by
  refine Runs.transform (w := { s.work with cursor := f s.work.cursor }) rfl ?_ rfl
  show (CheckedReader.place (f s.work.cursor) >>= _) = _
  rw [place_ok h]
  rfl

theorem heapBytes_ok {strip : Strip} (h : strip.byteSize < 2 ^ 64) :
    heapBytes strip = .ok strip.byteSize := by
  cases strip with
  | bytes samples => rfl
  | words samples =>
    rw [heapBytes, Strip.byteSize, Nat.mul_comm]
    exact usize_ok h

theorem runs_store {strip : Strip} (h : s.work.picture.stripBytes + strip.byteSize < 2 ^ 64) :
    Runs id (store strip) (Walk.store strip) stop s fun _ w =>
      w = { s.work with
        picture := s.work.picture.store strip
        marks := s.work.marks.push s.work.cursor.pos } := by
  refine Runs.transform rfl ?_ rfl
  show (heapBytes strip >>= _) = _
  rw [heapBytes_ok (by omega), ok_bind]
  show (usize (s.work.picture.stripBytes + strip.byteSize) >>= _) = _
  rw [usize_ok h]
  rfl

/-- Strips are added as long as the bytes of all of them are counted in a size. -/
theorem runs_storeAll : ∀ {strips : List Strip} {s : Session Walk}, Sound s.work →
    s.work.picture.stripBytes + (strips.map Strip.byteSize).sum < 2 ^ 64 →
    Runs id (storeAll strips) (Walk.storeAll strips) stop s fun _ w =>
      Sound w ∧ w.cursor = s.work.cursor ∧
        w.picture.stripBytes = s.work.picture.stripBytes + (strips.map Strip.byteSize).sum
  | [], s, hs, _ => Runs.pure ⟨hs, rfl, rfl⟩
  | strip :: strips, s, hs, h => by
    rw [List.map_cons, List.sum_cons] at h
    refine (runs_store (by omega)).bind fun _ t ht => ?_
    have hbytes : t.work.picture.stripBytes = s.work.picture.stripBytes + strip.byteSize := by
      rw [ht]
      rfl
    have hsound : Sound t.work := by
      rw [ht]
      exact hs.store strip _
    refine (runs_storeAll hsound (by omega)).mono fun _ w hw => ?_
    refine ⟨hw.1, hw.2.1.trans (by rw [ht]), ?_⟩
    rw [hw.2.2, List.map_cons, List.sum_cons, hbytes, Nat.add_assoc]

theorem drop_take_eq_next (c : Cursor) (n : Nat) :
    (c.source.toList.take (c.pos + min n c.remaining)).drop c.pos = c.next n := by
  have hsize : (c.source.toList.drop c.pos).length = c.remaining := by
    rw [List.length_drop, Array.length_toList]
    rfl
  rw [Cursor.next, Source.slice, Array.toList_extract, List.extract_eq_take_drop, List.drop_take,
    Nat.add_sub_cancel_left, Nat.add_sub_cancel_left, List.take_eq_take_iff]
  omega

/-- A buffer is filled without a fault, with zeros behind the end of the data. -/
theorem fill_ok (buffer : List UInt8) {w : Walk} (h : Tame w.cursor) :
    fill buffer w =
      .ok (((w.cursor.next buffer.length).length,
          fit buffer.length (w.cursor.next buffer.length)),
        { w with cursor := w.cursor.skip buffer.length }) := by
  have hinside : w.cursor.pos ≤ w.cursor.source.size := h.inside
  have hshort := h.short
  have hremaining : w.cursor.remaining = w.cursor.source.size - w.cursor.pos := rfl
  have hsize : w.cursor.source.toList.length = w.cursor.source.size := Array.length_toList
  have hlength := w.cursor.length_next buffer.length
  have hskip : w.cursor.skip buffer.length =
      { w.cursor with pos := w.cursor.pos + min buffer.length w.cursor.remaining } := by
    rw [Cursor.skip, Cursor.seek, Cursor.mk.injEq]
    exact ⟨rfl, by omega⟩
  have hplaced : Tame { w.cursor with pos := w.cursor.pos + min buffer.length w.cursor.remaining } :=
    ⟨by show w.cursor.pos + _ ≤ w.cursor.source.size; omega, hshort⟩
  have hbytes := drop_take_eq_next w.cursor buffer.length
  generalize w.cursor.next buffer.length = bytes at *
  -- the bytes that are there, and what they leave of the buffer
  have hrest : (buffer.drop bytes.length).length = buffer.length - bytes.length := List.length_drop
  have hall : (bytes ++ buffer.drop bytes.length).length = buffer.length := by
    rw [List.length_append, hrest]
    omega
  have hbehind : (((bytes ++ buffer.drop bytes.length).take buffer.length).drop
      bytes.length).length = (buffer.drop bytes.length).length := by
    rw [List.length_drop, List.length_take, hall, Nat.min_self, hrest]
  unfold fill
  dsimp only
  rw [usize_ok (by omega), ok_bind, slice_ok (by omega) (by omega), ok_bind, hbytes,
    ← hlength, copy_ok (by omega) (by omega) (by omega), ok_bind, overwrite_front (by omega), hall,
    slice_ok (by omega) (Nat.le_of_eq hall.symm), ok_bind, hbehind,
    copy_ok (by omega) (Nat.le_of_eq hall.symm) (by rw [List.length_replicate, hrest]), ok_bind,
    overwrite_behind, hrest, Nat.add_sub_cancel' (by omega), hlength, place_ok hplaced, ok_bind,
    hskip]
  rfl

/-- A length is cut without a fault. -/
theorem clamp_ok {declared : Int} {capacity remaining : Nat} (hcapacity : capacity < 2 ^ 63)
    (hremaining : remaining < 2 ^ 63) :
    clamp declared capacity remaining = .ok (Raster.fitLength declared capacity remaining) := by
  rw [clamp, asSigned_of_lt hcapacity, asSigned_of_lt hremaining, Raster.fitLength]
  split
  · rw [isize_ok (by omega) (by omega)]
    congr 1
    omega
  · show Except.ok _ = _
    congr 1
    omega

/-- The length of a packed row fits the buffer and the data. A row that cannot be read leaves the
cursor on the last byte. -/
theorem runs_settleLength {declared : Int} {capacity : Nat} (hs : Sound s.work)
    (hcapacity : capacity < 2 ^ 63) :
    Runs id (settleLength declared capacity) (Raster.settleLength declared capacity) stop s
      fun length w => ∃ c : Cursor, w = { s.work with cursor := c } ∧ s.work.cursor.Onward c ∧
        length ≤ capacity ∧ length ≤ c.remaining ∧ (s.work.cursor.Forward c ∨ c.remaining ≤ 1) := by
  unfold settleLength Raster.settleLength
  rw [asSigned_of_lt hcapacity]
  refine Runs.warnIf fun u hu => ?_
  refine runs_getCursor.bind fun c t hct => ?_
  obtain ⟨rfl, ht⟩ := hct
  have hremaining : u.work.cursor.remaining < 2 ^ 63 := by
    rw [hu]
    exact Nat.lt_of_le_of_lt (Nat.sub_le _ _) (Nat.lt_trans hs.tame.short (by decide))
  refine Runs.compute (clamp_ok hcapacity hremaining) (Runs.ite (fun _ => ?_) fun hnonneg => ?_)
  · refine (Runs.warn _).bind fun _ v hv => ?_
    have hwork : v.work = s.work := hv.trans (ht.trans hu)
    have honward : s.work.cursor.Onward (v.work.cursor.seek (v.work.cursor.source.size - 1)) := by
      rw [hwork]
      exact .park _
    refine (runs_move (hs.tame.onward honward)).bind fun _ x hx => Runs.pure ?_
    refine ⟨_, by rw [hx, hwork], by rwa [hwork] at honward, Nat.zero_le _, Nat.zero_le _,
      Or.inr ?_⟩
    have hlast : ∀ n : Nat, n - min (n - 1) n ≤ 1 := by omega
    exact hlast _
  · have hcap := Raster.fitLength_le_capacity declared capacity u.work.cursor.remaining
    have hleft := Raster.fitLength_lt_remaining declared capacity u.work.cursor.remaining
    rw [asSize_of_nonneg (by omega) (by omega)]
    rw [hu] at hnonneg hcap hleft ⊢
    exact Runs.pure
      ⟨s.work.cursor, ht.trans hu, .refl _, by omega, by omega, Or.inl (.refl _)⟩

theorem runs_fill {β : Type} {buffer : List UInt8} {g : Nat × List UInt8 → Guarded Walk β}
    {f : List UInt8 → Job Walk β} {Q : β → Walk → Prop} (hs : Tame s.work.cursor)
    (h : ∀ t : Session Walk,
      t.work = { s.work with cursor := s.work.cursor.skip buffer.length } →
      ∀ bytes : List UInt8, bytes.length = min buffer.length s.work.cursor.remaining →
        Runs id (g (bytes.length, fit buffer.length bytes)) (f bytes) stop t Q) :
    Runs id (transform (fill buffer) >>= g) (Walk.next buffer.length >>= f) stop s Q := by
  obtain ⟨hsame, hleaves⟩ := h
    { s with work := { s.work with cursor := s.work.cursor.skip buffer.length } } rfl
    (s.work.cursor.next buffer.length) (Cursor.length_next _ _)
  refine ⟨?_, hleaves⟩
  have hfill : transform (fill buffer) stop s =
      .ok (.ok ((s.work.cursor.next buffer.length).length,
          fit buffer.length (s.work.cursor.next buffer.length))
        { s with work := { s.work with cursor := s.work.cursor.skip buffer.length } }) := by
    rw [transform, fill_ok buffer hs]
    rfl
  show (transform (fill buffer) stop s >>= proceed g stop) = _
  rw [hfill]
  exact hsame

theorem runs_takePacked {declared : Int} {capacity : Nat} (hs : Sound s.work)
    (hcapacity : capacity < 2 ^ 63) :
    Runs id (takePacked declared capacity) (Raster.takePacked declared capacity) stop s
      fun packed w => ∃ c : Cursor, w = { s.work with cursor := c } ∧ s.work.cursor.Onward c ∧
        packed.length ≤ capacity ∧ (s.work.cursor.Forward c ∨ c.remaining ≤ 1) := by
  refine (runs_settleLength hs hcapacity).bind fun length t ht => ?_
  obtain ⟨c, ht, honward, hlength, hleft, hc⟩ := ht
  have hcursor : t.work.cursor = c := by rw [ht]
  generalize hfront : ((List.replicate capacity (0 : UInt8)).take length).drop 0 = front
  have hsize : front.length = length := by
    rw [← hfront, List.length_drop, List.length_take, List.length_replicate]
    omega
  refine Runs.compute (slice_ok (Nat.zero_le _) (by rw [List.length_replicate]; exact hlength)) ?_
  rw [hfront, ← hsize, ← bind_pure (Walk.next front.length)]
  refine runs_fill (by rw [hcursor]; exact hs.tame.onward honward) fun u hu bytes hbytes => ?_
  have hall : fit front.length bytes = bytes := by
    rw [hcursor] at hbytes
    exact fit_of_length (by omega)
  rw [hall]
  refine Runs.pure ⟨c.skip front.length, ?_, ?_, ?_, ?_⟩
  · rw [hu, hcursor, ht]
  · exact honward.trans (Cursor.Forward.skip c _).onward
  · omega
  · rcases hc with hc | hc
    · exact Or.inl (hc.trans (.skip c _))
    · exact Or.inr (Nat.le_trans ((Cursor.Forward.skip c _).remaining_le (hs.tame.onward honward).inside) hc)

theorem runs_markDirect (hs : Sound s.work) (f : Format) :
    Runs id (step (Raster.markDirect f)) (Raster.markDirect f) stop s fun _ w =>
      Sound w ∧ w.cursor = s.work.cursor ∧
        w.picture.stripBytes = s.work.picture.stripBytes := by
  refine Runs.step fun _ t ht => ?_
  unfold Raster.markDirect at ht
  split at ht <;> obtain ⟨-, rfl⟩ := EStateM.Result.ok.inj ht
  · exact ⟨⟨hs.tame, hs.width, hs.height, hs.rowBytes, hs.unscanned⟩, rfl, rfl⟩
  · exact ⟨hs, rfl, rfl⟩

/-- The strips of a packed row take no more than the room of a row. -/
theorem rowLimit_le {f : Format} {width rowBytes : Nat} (hf : SmallFormat f)
    (hwidth : width < 2 ^ 16) (hpacked : f.isPacked rowBytes = true) :
    f.rowLimit width rowBytes ≤ 2 ^ 32 := by
  unfold SmallFormat at hf
  rw [Format.rowLimit, if_pos hpacked]
  split
  · omega
  · have hunits : max f.components 1 * (if f.pixelSize = 16 then 2 else 1) ≤ 2 ^ 15 * 2 :=
      Nat.mul_le_mul (by omega) (by split <;> omega)
    calc width * (max f.components 1 * if f.pixelSize = 16 then 2 else 1)
        ≤ 2 ^ 16 * (2 ^ 15 * 2) := Nat.mul_le_mul (Nat.le_of_lt hwidth) hunits
      _ = 2 ^ 32 := by decide

/-- The strip of a row that stands as it is takes far less. -/
theorem rawStrip_byteSize_le {f : Format} {width : Nat} {row : List UInt8} {strip : Strip}
    (h : f.rawStrip width row = .ok strip) : strip.byteSize ≤ 2 * width + row.length := by
  unfold Format.rawStrip at h
  by_cases hwords : f.pixelSize = 16
  · rw [if_pos hwords] at h
    obtain rfl := Except.ok.inj h
    rw [Strip.byteSize, length_fit]
    exact Nat.le_add_right _ _
  rw [if_neg hwords] at h
  by_cases hbytes : f.pixelSize = 8
  · rw [if_pos hbytes] at h
    obtain rfl := Except.ok.inj h
    exact Nat.le_add_left _ _
  rw [if_neg hbytes] at h
  cases hout : Depth.expandRow f.pixelSize width row with
  | error e =>
    rw [hout] at h
    cases h
  | ok out =>
    rw [hout] at h
    obtain rfl := Except.ok.inj h
    have hlength := Depth.length_expandRow hout
    rw [Strip.byteSize]
    omega

theorem runs_readPackedRow {f : Format} {width height rowBytes row : Nat} (hf : SmallFormat f)
    (hwidth : width < 2 ^ 16) (hrowBytes : rowBytes < 2 ^ 31)
    (hpacked : f.isPacked rowBytes = true) (hrow : row < 2 ^ 16)
    (hs : Sound s.work ∧ Held row s.work) :
    Runs id (readPackedRow f width height rowBytes (Raster.packedCapacity rowBytes) row)
      (Raster.readPackedRow f width height rowBytes row) stop s
      fun _ w => Sound w ∧ Held (row + 1) w := by
  have hcapacity : Raster.packedCapacity rowBytes < 2 ^ 62 := by
    unfold Raster.packedCapacity
    omega
  have hlimit := rowLimit_le hf hwidth hpacked
  rw [Raster.readPackedRow_eq]
  refine (runs_read (agrees_readLength rowBytes) hs.1.tame).bind fun declared t ht => ?_
  obtain ⟨hdeclared, ht, hforward, -⟩ := ht
  have hcursor : t.work.cursor = (Raster.readLength rowBytes s.work.cursor).2 := by rw [ht]
  have hbytes : t.work.picture.stripBytes = s.work.picture.stripBytes := by rw [ht]
  have hsound : Sound t.work := by
    rw [ht]
    exact hs.1.onward hforward.onward
  rw [← hcursor] at hforward
  have hless := hforward.remaining_le hs.1.tame.inside
  have hheld := hs.2
  unfold Held due at hheld ⊢
  cases declared with
  | none =>
    refine (Runs.warn _).bind fun _ u hu => Runs.pure ?_
    rw [hu]
    exact ⟨hsound, by omega⟩
  | some declared =>
    -- the length has taken a byte, which pays for the strips of the row
    have hpaid : t.work.cursor.remaining + 1 ≤ s.work.cursor.remaining := by
      rw [hcursor]
      exact (Raster.advances_readLength rowBytes).remaining_le hs.1.tame.inside
        (by rw [← hdeclared]; rfl)
    refine (runs_takePacked hsound (by omega)).bind fun packed u hu => ?_
    obtain ⟨c, hu, honward, hlength, hc⟩ := hu
    have hsound' : Sound u.work := by
      rw [hu]
      exact hsound.onward honward
    have hbytes' : u.work.picture.stripBytes = s.work.picture.stripBytes := by rw [hu, hbytes]
    have hcursor' : u.work.cursor = c := by rw [hu]
    have hcomponents : f.components < 2 ^ 32 := by
      unfold SmallFormat at hf
      omega
    refine (Runs.settle (packedStrips_ok (by omega) (by omega) hcomponents)).bind
      fun strips v hv => ?_
    obtain ⟨hstrips, hv⟩ := hv
    have hsum := Format.packedStrips_byteSize_le hpacked hstrips
    refine (runs_storeAll (by rwa [hv]) (by rw [hv]; omega)).bind fun _ x hx => ?_
    obtain ⟨hsoundx, hcursorx, hbytesx⟩ := hx
    refine (runs_markDirect hsoundx f).bind fun _ y hy => Runs.pure ?_
    have hleft : c.remaining ≤ t.work.cursor.remaining ∨ c.remaining ≤ 1 :=
      hc.imp_left fun h => h.remaining_le hsound.tame.inside
    refine ⟨hy.1, ?_⟩
    rw [hy.2.1, hy.2.2, hcursorx, hbytesx, hv, hcursor', hbytes']
    omega

/-- What a raster of rows that stand as they are leaves in front of a row. -/
def Spare (row : Nat) (w : Walk) : Prop := due w + 2 ^ 18 * (2 ^ 16 - row) ≤ 2 ^ 63

theorem runs_readRawRow {f : Format} {width height rowBytes row : Nat}
    (hwidth : width < 2 ^ 16) (hpacked : f.isPacked rowBytes = false) (hrow : row < 2 ^ 16)
    (hs : Sound s.work ∧ Spare row s.work) :
    Runs id (readRawRow f width height rowBytes row)
      (Raster.readRawRow f width height rowBytes row) stop s
      fun _ w => Sound w ∧ Spare (row + 1) w := by
  have hrowBytes : rowBytes < 8 := by
    unfold Format.isPacked at hpacked
    simp only [Bool.or_eq_false_iff, decide_eq_false_iff_not] at hpacked
    omega
  have hspare := hs.2
  unfold Spare due at hspare ⊢
  rw [Raster.readRawRow_eq]
  refine runs_getCursor.bind fun c t ht => ?_
  obtain ⟨rfl, ht⟩ := ht
  refine Runs.ite (fun _ => ?_) fun _ => ?_
  · refine (Runs.warn _).bind fun _ u hu => Runs.pure ?_
    rw [hu, ht]
    exact ⟨hs.1, by omega⟩
  have hlength : (List.replicate rowBytes (0 : UInt8)).length = rowBytes := List.length_replicate
  have hnext : Walk.next rowBytes = Walk.next (List.replicate rowBytes (0 : UInt8)).length := by
    rw [hlength]
  rw [hnext]
  refine runs_fill (by rw [ht]; exact hs.1.tame) fun u hu bytes _ => ?_
  have hforward := Cursor.Forward.skip s.work.cursor rowBytes
  have hless := hforward.remaining_le hs.1.tame.inside
  rw [ht, hlength] at hu
  dsimp only
  rw [hlength, length_fit]
  refine Runs.warnIf fun v hv => ?_
  refine (Runs.settle (rawStrip_ok f width _)).bind fun strip x hx => ?_
  obtain ⟨hstrip, hx⟩ := hx
  have hsize := rawStrip_byteSize_le hstrip
  rw [length_fit] at hsize
  have hbytes : x.work.picture.stripBytes = s.work.picture.stripBytes := by rw [hx, hv, hu]
  have hsound : Sound x.work := by
    rw [hx, hv, hu]
    exact hs.1.onward hforward.onward
  refine (runs_store (by omega)).bind fun _ y hy => ?_
  refine (runs_markDirect (by rw [hy]; exact hsound.store strip _) f).bind
    fun _ z hz => Runs.pure ⟨hz.1, ?_⟩
  have hpicture : z.work.picture.stripBytes = s.work.picture.stripBytes + strip.byteSize := by
    rw [hz.2.2, hy, ← hbytes]
    rfl
  have hcursor : z.work.cursor = s.work.cursor.skip rowBytes := by rw [hz.2.1, hy, hx, hv, hu]
  rw [hpicture, hcursor]
  omega

theorem packedCapacity_ok {rowBytes : Nat} (h : rowBytes < 2 ^ 31) :
    packedCapacity rowBytes = .ok (Raster.packedCapacity rowBytes) := by
  rw [packedCapacity, usize_ok (by omega), ok_bind, divide_ok (by decide), ok_bind,
    usize_ok (by omega), Raster.packedCapacity]

/-- The rows of a raster are read without a fault where there is room for the rows of one that
stand as they are. -/
theorem runs_readRows {f : Format} (hf : SmallFormat f) (hs : Sound s.work)
    (hspare : Spare 0 s.work) :
    Runs id (readRows f) (Raster.readRows f) stop s fun _ w => Sound w ∧ Held (2 ^ 16) w := by
  rw [Raster.readRows_eq]
  refine runs_getPicture.bind fun p t ht => ?_
  obtain ⟨rfl, ht⟩ := ht
  unfold Raster.readRow
  have hheight := hs.height
  unfold Spare at hspare
  by_cases hpacked : f.isPacked s.work.picture.rowBytes = true
  · have hrows : ∀ row (u : Session Walk), row < s.work.picture.declaredHeight →
        Sound u.work ∧ Held row u.work →
        Runs id (readPackedRow f s.work.picture.width s.work.picture.declaredHeight
            s.work.picture.rowBytes (Raster.packedCapacity s.work.picture.rowBytes) row)
          (Raster.readPackedRow f s.work.picture.width s.work.picture.declaredHeight
            s.work.picture.rowBytes row) stop u
          fun _ w => Sound w ∧ Held (row + 1) w := fun row u hrow hu =>
      runs_readPackedRow hf hs.width hs.rowBytes hpacked (Nat.lt_trans hrow hheight) hu
    have hstart : Sound t.work ∧ Held 0 t.work := by
      rw [ht]
      exact ⟨hs, Or.inl (by omega)⟩
    rw [if_pos hpacked, if_pos hpacked]
    refine Runs.compute (packedCapacity_ok hs.rowBytes) ?_
    refine (Runs.eachRow (I := fun row w => Sound w ∧ Held row w) hrows _ (Nat.zero_add _)
      hstart).mono fun _ w hw => ?_
    obtain ⟨row, hrow, hsound, hheld⟩ := hw
    refine ⟨hsound, ?_⟩
    unfold Held at hheld ⊢
    omega
  · have hrows : ∀ row (u : Session Walk), row < s.work.picture.declaredHeight →
        Sound u.work ∧ Spare row u.work →
        Runs id (readRawRow f s.work.picture.width s.work.picture.declaredHeight
            s.work.picture.rowBytes row)
          (Raster.readRawRow f s.work.picture.width s.work.picture.declaredHeight
            s.work.picture.rowBytes row) stop u
          fun _ w => Sound w ∧ Spare (row + 1) w := fun row u hrow hu =>
      runs_readRawRow hs.width (Bool.eq_false_iff.mpr hpacked) (Nat.lt_trans hrow hheight) hu
    have hstart : Sound t.work ∧ Spare 0 t.work := by
      rw [ht]
      exact ⟨hs, by unfold Spare; omega⟩
    rw [if_neg hpacked, if_neg hpacked]
    refine (Runs.eachRow (I := fun row w => Sound w ∧ Spare row w) hrows _ (Nat.zero_add _)
      hstart).mono fun _ w hw => ?_
    obtain ⟨row, hrow, hsound, hspare⟩ := hw
    refine ⟨hsound, Or.inl ?_⟩
    unfold Spare at hspare
    omega

end Pict.Machine
