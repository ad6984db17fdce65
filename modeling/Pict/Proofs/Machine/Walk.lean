import Pict.Proofs.Decode.Progress
import Pict.Proofs.Machine.Opening

/-!
# Decoding on a machine

The walk through the opcodes of a picture, with everything that it computes on the way: the row
bytes of direct pixmaps, the memory that strips are expected to take, the lengths of contents
that are passed over, and the offsets of embedded JPEG data.

Results:
* `runs_turn`: a turn of the walk does not fault where the strips so far are held.
* `probe_ok`, `decode_ok`: neither probing nor decoding faults.
-/
namespace Pict.Machine

open Guarded

variable {stop : Stop} {s : Session Walk} {limits : Limits}

/-! ## Opcodes -/

def checkCanvas (limits : Limits) (width height : Nat) : Checked (Except Breach Unit) := do
  let pixels ← usize (width * height)
  pure do
    Limits.bounded limits.width width .width
    Limits.bounded limits.height height .height
    Limits.bounded limits.pixels pixels .pixels

/-- The memory that strips are expected to take behind the rows of a raster. -/
def expectedMemory (f : Format) (p : Picture) : Checked Nat := do
  let units ← usize (max f.components 1 * if f.pixelSize = 16 then 2 else 1)
  let estimate := saturated (saturated (p.width * p.declaredHeight) * units)
  pure (saturated (p.stripBytes + estimate))

def raster (limits : Limits) (op : RasterOp) : Guarded Walk Unit := do
  match ← readOpening op with
  | none => pure ()
  | some f =>
    let p ← step Walk.getPicture
    let allowed ← compute (checkCanvas limits p.width p.declaredHeight)
    step (Job.enforce allowed)
    let expected ← compute (expectedMemory f p)
    step (Job.enforce (limits.checkMemory expected))
    readRows f

def skipPayload (payload : Payload) (length : Int) : Guarded Walk Unit := do
  if length ≤ 0 then pure ()
  else
    let n := asSize length
    let c ← step Walk.getCursor
    if c.remaining < n then step (Job.warn (.payloadPastEnd payload n c.pos))
    pass n

def clipRegion : Guarded Walk Unit := do
  match ← read (CheckedReader.ofReader Reader.i16) with
  | none => skipPayload .clipRegion 0
  | some n =>
    let length ← compute (isize (n - 2))
    skipPayload .clipRegion length

def longComment : Guarded Walk Unit := do
  pass 2
  let length ← read (CheckedReader.ofReader Reader.i16)
  skipPayload .longComment (length.getD 0)

def shortSkip : Guarded Walk Unit := do
  let length ← read CheckedReader.u8
  skipPayload .shortSkip (length.elim 0 fun n => n.toNat)

def scanTurn (source : Source) (s : Scan) : Checked (Scan ⊕ List Nat) :=
  match s.loop with
  | .toEnd => do
    let (word, c) ← CheckedReader.ofReader Reader.u16 ⟨source, s.pos⟩
    match word with
    | some w =>
      let loop := if w = Spans.endMarker then .around else .toEnd
      pure (.inl { s with loop, pos := c.pos })
    | none => pure (.inl { s with loop := .around })
  | .around =>
    if source.size ≤ s.pos then pure (.inr s.found) else pure (.inl { s with loop := .toStart })
  | .toStart => do
    let (word, c) ← CheckedReader.ofReader Reader.u16 ⟨source, s.pos⟩
    match word with
    | some w =>
      if w = Spans.startMarker then
        if c.pos < source.size then do
          let start ← minus c.pos 2
          pure (.inl ⟨.around, c.pos, s.found ++ [start]⟩)
        else pure (.inl { s with loop := .around, pos := c.pos })
      else pure (.inl { s with pos := c.pos })
    | none => pure (.inr s.found)

/-- What is left of the data, taken as embedded JPEG data. -/
def scan (w : Walk) : Checked (Unit × Walk) := do
  let c := w.cursor
  let first ← usize (c.pos + 2)
  let found ← loop (scanTurn c.source) (3 * c.source.size + 3) ⟨.toEnd, c.pos, [first]⟩
  let d ← CheckedReader.place (c.seek c.source.size)
  let picture :=
    { w.picture with
      jpegOffsets := w.picture.jpegOffsets ++ found
      channels := 3
      interleaved := true }
  pure ((), { w with cursor := d, picture })

def jpeg : Guarded Walk Unit := transform scan

def dispatch (limits : Limits) : Opcode → Guarded Walk Bool
  | .raster op => do
    raster limits op
    pure true
  | .clipRegion => do
    clipRegion
    pure true
  | .longComment => do
    longComment
    pure true
  | .shortSkip => do
    shortSkip
    pure true
  | .jpeg => do
    jpeg
    pure true
  | .terminator => pure false
  | .unknown code => do
    let c ← step Walk.getCursor
    step (Job.warn (.unrecognizedOpcode code c.pos))
    pure true

def turn (limits : Limits) : Guarded Walk Bool := do
  let p ← step Walk.getPicture
  match ← read (readOpcode p.version) with
  | none => pure false
  | some opcode =>
    step Job.check
    let goesOn ← dispatch limits opcode
    let c ← step Walk.getCursor
    pure (goesOn && !c.atEnd)

/-- `Decode.turns` on a machine. It is a fault if the walk has not ended by then. -/
def turns (limits : Limits) : (turns : Nat) → Guarded Walk Unit
  | 0 => compute (.error .endless)
  | n + 1 => do
    if ← turn limits then turns limits n

def opcodes (limits : Limits) (info : Info) : Guarded Walk Unit := do
  let allowed ← compute (checkCanvas limits info.width info.height)
  step (Job.enforce allowed)
  step Job.check
  let c ← step Walk.getCursor
  turns limits c.source.size

/-! ## Pictures -/

def parse (source : Source) : Checked (Except Error (Info × Cursor)) := do
  match ← readHeader ⟨source, 0⟩ with
  | (some (.ok info), cursor) => pure (.ok (info, cursor))
  | (some (.error e), _) => pure (.error e)
  | (none, _) => pure (.error .unexpectedEof)

def probe (source : Source) : Checked (Except Error Info) := do
  let header ← parse source
  pure (header.map Prod.fst)

def decode (source : Source) (limits : Limits) (stop : Stop) : Checked (Report Document) := do
  match ← parse source with
  | .error e => pure (Report.refused e)
  | .ok (info, cursor) =>
    let r ← opcodes limits info stop ⟨0, #[], Decode.start info cursor⟩
    pure ((reportOf r).map fun _ => ⟨source, limits, (sessionOf r).work.picture⟩)

/-! ## Without a fault -/

theorem checkCanvas_ok {width height : Nat} (hwidth : width < 2 ^ 16) (hheight : height < 2 ^ 16) :
    checkCanvas limits width height = .ok (limits.check width height) := by
  have hproduct : width * height < 2 ^ 64 := by
    calc width * height ≤ 2 ^ 16 * 2 ^ 16 :=
        Nat.mul_le_mul (Nat.le_of_lt hwidth) (Nat.le_of_lt hheight)
      _ < 2 ^ 64 := by decide
  rw [checkCanvas, usize_ok hproduct, ok_bind]
  rfl

/-- The memory that strips are expected to take is not cut to the largest size. -/
theorem expectedMemory_ok {f : Format} {p : Picture} (hf : SmallFormat f)
    (hwidth : p.width < 2 ^ 16) (hheight : p.declaredHeight < 2 ^ 16)
    (hbytes : p.stripBytes ≤ 2 ^ 63) :
    expectedMemory f p = .ok (p.stripBytes + f.expectedBytes p.width p.declaredHeight) := by
  have hunits : max f.components 1 * (if f.pixelSize = 16 then 2 else 1) ≤ 2 ^ 15 * 2 := by
    unfold SmallFormat at hf
    exact Nat.mul_le_mul (by omega) (by split <;> omega)
  have hpixels : p.width * p.declaredHeight ≤ 2 ^ 16 * 2 ^ 16 :=
    Nat.mul_le_mul (Nat.le_of_lt hwidth) (Nat.le_of_lt hheight)
  have hestimate : f.expectedBytes p.width p.declaredHeight ≤ 2 ^ 16 * 2 ^ 16 * (2 ^ 15 * 2) :=
    Nat.mul_le_mul hpixels hunits
  rw [expectedMemory, usize_ok (by omega), ok_bind,
    saturated_of_lt (n := p.width * p.declaredHeight) (by omega), ← Format.expectedBytes]
  dsimp only
  rw [saturated_of_lt (n := f.expectedBytes p.width p.declaredHeight) (by omega),
    saturated_of_lt (by omega)]
  rfl

theorem Held.forward {rows : Nat} {w v : Walk} (h : Held rows w) (hw : Sound w)
    (hforward : w.cursor.Forward v.cursor)
    (hbytes : v.picture.stripBytes = w.picture.stripBytes) : Held rows v := by
  have hless := hforward.remaining_le hw.tame.inside
  unfold Held due at h ⊢
  omega

/-- The bounds in an opening are room for the rows of a raster that stand as they are. -/
theorem readOpening_pays {op : RasterOp} {opened : Option Format} {t : Session Walk}
    (hs : Sound s.work) (hheld : Held (2 ^ 16) s.work)
    (h : Raster.readOpening op stop s = .ok opened t) :
    Held (2 ^ 16) t.work ∧ ∀ f, opened = some f → due t.work + 2 ^ 35 ≤ 2 ^ 63 := by
  have hbytes : t.work.picture.stripBytes = s.work.picture.stripBytes :=
    ((Raster.within_readOpening Frame.sameStrips_opens op).ok h).2
  have hforward : s.work.cursor.Forward t.work.cursor :=
    (Raster.within_readOpening Frame.forward_opens op).ok h
  refine ⟨hheld.forward hs hforward hbytes, ?_⟩
  rintro f rfl
  have hpos := Raster.readOpening_moves hs.tame.inside h
  have hinside : t.work.cursor.pos ≤ t.work.cursor.source.size :=
    (hforward.moved hs.tame.inside).2
  have hmoved : t.work.cursor.remaining + 8 ≤ s.work.cursor.remaining := by
    unfold Cursor.remaining
    rw [hforward.source] at hinside ⊢
    omega
  unfold Held due at hheld
  unfold due
  omega

theorem runs_raster {op : RasterOp} (hop : SmallRows (.raster op)) (hs : Sound s.work)
    (hheld : Held (2 ^ 16) s.work) :
    Runs id (raster limits op) (Decode.raster limits op) stop s
      fun _ w => Sound w ∧ Held (2 ^ 16) w := by
  rw [Decode.raster_eq_limitedRows]
  have hopens : Runs id (readOpening op) (Raster.readOpening op) stop s fun opened w =>
      (Sound w ∧ ∀ f, opened = some f → SmallFormat f) ∧
        Held (2 ^ 16) w ∧ ∀ f, opened = some f → due w + 2 ^ 35 ≤ 2 ^ 63 :=
    (runs_readOpening hop hs).and fun opened t ht => readOpening_pays hs hheld ht
  refine hopens.bind fun opened t ht => ?_
  obtain ⟨⟨hsound, hsmall⟩, hheld', hpays⟩ := ht
  cases opened with
  | none => exact Runs.pure ⟨hsound, hheld'⟩
  | some f =>
    have hf := hsmall f rfl
    have hspare := hpays f rfl
    have hbytes : t.work.picture.stripBytes ≤ due t.work := Nat.le_add_right _ _
    refine runs_getPicture.bind fun p u hu => ?_
    obtain ⟨rfl, hu⟩ := hu
    refine Runs.compute (checkCanvas_ok hsound.width hsound.height) ?_
    refine (Runs.enforce _).bind fun _ v hv => ?_
    refine Runs.compute (expectedMemory_ok hf hsound.width hsound.height (by omega)) ?_
    refine (Runs.enforce _).bind fun _ x hx => ?_
    have hwork : x.work = t.work := hx.trans (hv.trans hu)
    refine runs_readRows hf (by rwa [hwork]) ?_
    unfold Spare
    rw [hwork]
    omega

/-! ## Other opcodes -/

theorem runs_skipPayload (payload : Payload) {length : Int} (hlength : length < 2 ^ 63)
    (hs : Sound s.work) :
    Runs id (skipPayload payload length) (Decode.skipPayload payload length) stop s
      fun _ w => Sound w := by
  unfold skipPayload
  by_cases hpos : length ≤ 0
  · -- nothing is passed over, which leaves a cursor inside of its data where it is
    have hskip : s.work.cursor.skip length.toNat = s.work.cursor := by
      have hinside : s.work.cursor.pos ≤ s.work.cursor.source.size := hs.tame.inside
      have hzero : length.toNat = 0 := by omega
      rw [hzero, Cursor.skip, Cursor.seek, Nat.add_zero, Nat.min_eq_left hinside]
    have hnothing : Decode.skipPayload payload length stop s = .ok () s := by
      show (if (s.work.cursor.remaining : Int) < length then _ else _ : Job Walk Unit) stop s = _
      rw [if_neg (by omega)]
      show EStateM.Result.ok () { s with work :=
        { s.work with cursor := s.work.cursor.skip length.toNat } } = _
      rw [hskip]
    rw [if_pos hpos]
    refine ⟨by rw [hnothing]; rfl, fun hok => ?_⟩
    rw [hnothing] at hok
    obtain ⟨-, rfl⟩ := EStateM.Result.ok.inj hok
    exact hs
  · obtain ⟨n, rfl⟩ : ∃ n : Nat, length = n := ⟨length.toNat, by omega⟩
    rw [if_neg hpos, asSize_of_nonneg (by omega) (by omega), Int.toNat_natCast]
    unfold Decode.skipPayload
    simp only [Int.toNat_natCast, Int.ofNat_lt]
    refine runs_getCursor.bind fun c t ht => ?_
    obtain ⟨rfl, ht⟩ := ht
    refine Runs.warnIf fun u hu => ?_
    exact runs_pass (by omega) (by rw [hu, ht]; exact hs)

theorem runs_clipRegion (hs : Sound s.work) :
    Runs id clipRegion Decode.clipRegion stop s fun _ w => Sound w := by
  refine (runs_read Agrees.i16 hs.tame).bind fun length t ht => ?_
  obtain ⟨-, ht, hforward, hshort⟩ := ht
  have hsound : Sound t.work := by
    rw [ht]
    exact hs.onward hforward.onward
  cases length with
  | none => exact runs_skipPayload .clipRegion (by decide) hsound
  | some n =>
    have hn := hshort n rfl
    unfold IsShort at hn
    refine Runs.compute (isize_ok (by omega) (by omega)) ?_
    exact runs_skipPayload .clipRegion (by omega) hsound

theorem runs_longComment (hs : Sound s.work) :
    Runs id longComment Decode.longComment stop s fun _ w => Sound w := by
  refine (runs_pass (by decide) hs).bind fun _ t ht => ?_
  refine (runs_read Agrees.i16 ht.tame).bind fun length u hu => ?_
  obtain ⟨-, hu, hforward, hshort⟩ := hu
  have hsound : Sound u.work := by
    rw [hu]
    exact ht.onward hforward.onward
  cases length with
  | none => exact runs_skipPayload .longComment (by decide) hsound
  | some n =>
    have hn := hshort n rfl
    unfold IsShort at hn
    exact runs_skipPayload .longComment (by rw [Option.getD_some]; omega) hsound

theorem runs_shortSkip (hs : Sound s.work) :
    Runs id shortSkip Decode.shortSkip stop s fun _ w => Sound w := by
  refine (runs_read Agrees.u8 hs.tame).bind fun length t ht => ?_
  obtain ⟨-, ht, hforward, -⟩ := ht
  have hsound : Sound t.work := by
    rw [ht]
    exact hs.onward hforward.onward
  cases length with
  | none => exact runs_skipPayload .shortSkip (by decide) hsound
  | some n =>
    have hn := n.toNat_lt
    exact runs_skipPayload .shortSkip (by rw [Option.elim_some]; omega) hsound

theorem step_inside {source : Source} {s t : Scan} (hs : s.pos ≤ source.size)
    (h : Scan.step source s = .inl t) : t.pos ≤ source.size := by
  have hword : ∀ {w}, source.u16? s.pos = some w → s.pos + 2 ≤ source.size := fun hw =>
    (source.isSome_u16?_iff s.pos).mp (by rw [hw]; rfl)
  unfold Scan.step at h
  cases hloop : s.loop with
  | around =>
    rw [hloop] at h
    dsimp only at h
    split at h
    · cases h
    · obtain rfl := Sum.inl.inj h
      exact hs
  | toEnd =>
    rw [hloop] at h
    cases hw : source.u16? s.pos with
    | none =>
      rw [hw] at h
      obtain rfl := Sum.inl.inj h
      exact hs
    | some w =>
      rw [hw] at h
      obtain rfl := Sum.inl.inj h
      exact hword hw
  | toStart =>
    rw [hloop] at h
    cases hw : source.u16? s.pos with
    | none =>
      rw [hw] at h
      cases h
    | some w =>
      rw [hw] at h
      dsimp only at h
      split at h <;>
        obtain rfl := Sum.inl.inj h
      · exact hword hw
      · exact hword hw

theorem scanTurn_ok {source : Source} (hsize : source.size < 2 ^ 31) {s : Scan}
    (hs : s.pos ≤ source.size) : scanTurn source s = .ok (Scan.step source s) := by
  obtain ⟨loop, p, earlier⟩ := s
  have htame : Tame ⟨source, p⟩ := ⟨hs, hsize⟩
  have hread : CheckedReader.ofReader Reader.u16 ⟨source, p⟩ = .ok (Reader.u16 ⟨source, p⟩) :=
    (Agrees.u16 _ htame).1
  unfold scanTurn Scan.step
  cases loop with
  | around =>
    dsimp only
    split <;> rfl
  | toEnd =>
    dsimp only
    rw [hread, ok_bind, Reader.u16]
    cases hw : source.u16? p with
    | none =>
      rw [Reader.field_none hw]
      rfl
    | some w =>
      rw [Reader.field_some hw]
      rfl
  | toStart =>
    dsimp only
    rw [hread, ok_bind, Reader.u16]
    cases hw : source.u16? p with
    | none =>
      rw [Reader.field_none hw]
      rfl
    | some w =>
      rw [Reader.field_some hw]
      dsimp only
      by_cases hstart : w = Spans.startMarker
      · rw [if_pos hstart, if_pos hstart]
        by_cases hmore : p + 2 < source.size
        · rw [if_pos hmore, if_pos hmore, minus_ok (by omega), ok_bind, Nat.add_sub_cancel]
          rfl
        · rw [if_neg hmore, if_neg hmore, List.append_nil]
          rfl
      · rw [if_neg hstart, if_neg hstart]
        rfl

theorem answers_scanTurn {source : Source} (hsize : source.size < 2 ^ 31) :
    Answers (scanTurn source) (fun s => s.pos ≤ source.size) (Scan.work source)
      fun s found => found = Scan.outcome source s := by
  intro s hs
  rw [scanTurn_ok hsize hs]
  cases hstep : Scan.step source s with
  | inr found => exact Or.inl ⟨found, rfl, Scan.step_inr hstep⟩
  | inl t =>
    obtain ⟨hless, houtcome⟩ := Scan.step_inl hstep
    exact Or.inr ⟨t, rfl, step_inside hs hstep, hless, fun found hfound => hfound.trans houtcome⟩

theorem length_offsets_le (source : Source) (p : Nat) :
    2 * (Spans.offsets source p).length ≤ source.size + 2 := by
  have hwords : (Spans.wordOffsets source p).length = (source.size - p) / 2 := by
    rw [Spans.wordOffsets, List.length_map, List.length_range]
  have hfilter := List.length_filter_le (Spans.isStart source) (Spans.behindEnd source p)
  have hbehind : (Spans.behindEnd source p).length ≤ (Spans.wordOffsets source p).length := by
    rw [Spans.behindEnd, List.length_tail]
    exact Nat.le_trans (Nat.sub_le _ _) (List.dropWhile_sublist _).length_le
  rw [Spans.offsets, List.length_cons]
  omega

/-- What is left of a walk can be read from: the canvas is as large as words can make it, and there
are no more JPEGs than words. -/
structure Readable (w : Walk) : Prop where
  width : w.picture.width < 2 ^ 16
  height : w.picture.declaredHeight < 2 ^ 16
  offsets : 2 * w.picture.jpegOffsets.size ≤ w.cursor.source.size + 2

theorem Sound.readable {w : Walk} (h : Sound w) : Readable w :=
  ⟨h.width, h.height, by rw [h.unscanned, Array.size_empty]; exact Nat.zero_le _⟩

def scanned (w : Walk) : Walk :=
  { w with
    cursor := w.cursor.seek w.cursor.source.size
    picture := { w.picture with
      jpegOffsets := w.picture.jpegOffsets ++ Spans.offsets w.cursor.source w.cursor.pos
      channels := 3
      interleaved := true } }

theorem scan_ok {w : Walk} (hs : Sound w) : scan w = .ok ((), scanned w) := by
  have hpos := hs.tame.pos_lt
  have hinside : w.cursor.pos ≤ w.cursor.source.size := hs.tame.inside
  obtain ⟨found, hloop, rfl⟩ := (answers_scanTurn hs.tame.short).loop_ok
    (3 * w.cursor.source.size + 3) (a := Scan.start w.cursor.pos) hinside (by
      unfold Scan.work Scan.start
      dsimp only
      omega)
  have hend : Tame (w.cursor.seek w.cursor.source.size) :=
    hs.tame.onward (Cursor.Forward.seek fun h => h).onward
  unfold Scan.start at hloop
  unfold scan
  dsimp only
  rw [usize_ok (by omega), ok_bind, hloop, ok_bind, place_ok hend]
  rfl

theorem runs_jpeg (hs : Sound s.work) :
    Runs id jpeg Decode.jpeg stop s fun _ w => Readable w ∧ w.cursor.atEnd = true := by
  refine Runs.transform (w := scanned s.work) rfl (scan_ok hs) ⟨⟨hs.width, hs.height, ?_⟩, ?_⟩
  · have hfew := length_offsets_le s.work.cursor.source s.work.cursor.pos
    have hsize : ∀ offsets : List Nat, ((#[] : Array Nat) ++ offsets).size = offsets.length := by
      simp
    unfold scanned
    dsimp only
    rw [hs.unscanned, hsize]
    exact hfew
  · unfold scanned Cursor.atEnd Cursor.seek
    simp

/-! ## Turns -/

theorem runs_dispatch {opcode : Opcode} (hop : SmallRows opcode) (hs : Sound s.work)
    (hheld : Held (2 ^ 16) s.work) :
    Runs id (dispatch limits opcode) (Decode.dispatch limits opcode) stop s fun _ w =>
      Sound w ∧ Held (2 ^ 16) w ∨ Readable w ∧ w.cursor.atEnd = true := by
  -- opcodes that are not rasters move forward and leave the strips alone
  have hother : (∀ op, opcode ≠ .raster op) →
      Runs id (dispatch limits opcode) (Decode.dispatch limits opcode) stop s
        (fun _ w => Sound w) →
      Runs id (dispatch limits opcode) (Decode.dispatch limits opcode) stop s fun _ w =>
        Sound w ∧ Held (2 ^ 16) w ∨ Readable w ∧ w.cursor.atEnd = true := by
    intro hne hruns
    refine ⟨hruns.same, fun {a t} ht => Or.inl ⟨hruns.leaves ht, ?_⟩⟩
    exact hheld.forward hs ((Decode.within_dispatch_of_ne Frame.forward_opens hne).ok ht)
      ((Decode.within_dispatch_of_ne Frame.sameStrips_opens hne).ok ht).2
  cases opcode with
  | raster op =>
    exact (runs_raster hop hs hheld).bind fun _ t ht => Runs.pure (Or.inl ht)
  | clipRegion =>
    exact hother (fun op h => by cases h) ((runs_clipRegion hs).bind fun _ t ht => Runs.pure ht)
  | longComment =>
    exact hother (fun op h => by cases h) ((runs_longComment hs).bind fun _ t ht => Runs.pure ht)
  | shortSkip =>
    exact hother (fun op h => by cases h) ((runs_shortSkip hs).bind fun _ t ht => Runs.pure ht)
  | jpeg => exact (runs_jpeg hs).bind fun _ t ht => Runs.pure (Or.inr ht)
  | terminator => exact Runs.pure (Or.inl ⟨hs, hheld⟩)
  | unknown code =>
    refine runs_getCursor.bind fun c t ht => (Runs.warn _).bind fun _ u hu => Runs.pure ?_
    rw [hu, ht.2]
    exact Or.inl ⟨hs, hheld⟩

/-- A turn of the walk does not fault where the strips so far are held. They are held again in
front of the next turn, which is closer to the end of the data. -/
theorem runs_turn (hs : Sound s.work) (hheld : Held (2 ^ 16) s.work) :
    Runs id (turn limits) (Decode.turn limits) stop s fun goesOn w =>
      (Sound w ∧ Held (2 ^ 16) w ∨ goesOn = false ∧ Readable w) ∧
        (goesOn = true → w.cursor.remaining < s.work.cursor.remaining) := by
  have hturn : Runs id (turn limits) (Decode.turn limits) stop s fun goesOn w =>
      Sound w ∧ Held (2 ^ 16) w ∨ goesOn = false ∧ Readable w := by
    rw [Decode.turn_eq_obey]
    refine runs_getPicture.bind fun p t ht => ?_
    obtain ⟨rfl, ht⟩ := ht
    refine (runs_read (agrees_readOpcode _) (by rw [ht]; exact hs.tame)).bind fun opcode u hu => ?_
    obtain ⟨-, hu, hforward, hsmall⟩ := hu
    rw [ht] at hu hforward
    have hsound : Sound u.work := by
      rw [hu]
      exact hs.onward hforward.onward
    have hheld' : Held (2 ^ 16) u.work := by
      refine hheld.forward hs ?_ ?_
      · rwa [hu]
      · rw [hu]
    cases opcode with
    | none => exact Runs.pure (Or.inl ⟨hsound, hheld'⟩)
    | some opcode =>
      refine Runs.check.bind fun _ v hv => ?_
      rw [← hv] at hsound hheld'
      refine (runs_dispatch (hsmall opcode rfl) hsound hheld').bind fun goesOn x hx => ?_
      refine runs_getCursor.bind fun c y hy => Runs.pure ?_
      obtain ⟨rfl, hy⟩ := hy
      rw [hy]
      rcases hx with hx | ⟨hread, hend⟩
      · exact Or.inl hx
      · exact Or.inr ⟨by rw [hend, Bool.not_true, Bool.and_false], hread⟩
  refine hturn.and fun goesOn t ht hgoes => ?_
  subst hgoes
  have hsource := ((Decode.within_turn Frame.onward_rows).ok ht).source
  obtain ⟨hinside, hmoved⟩ := Decode.turn_moves hs.tame.inside ht
  have hend : t.work.cursor.pos ≤ t.work.cursor.source.size := hinside
  unfold Cursor.remaining
  rw [hsource] at hend ⊢
  omega

/-- The walk ends, without a fault, before its turns are used up. -/
theorem runs_turns : ∀ {n : Nat} {s : Session Walk}, Sound s.work → Held (2 ^ 16) s.work →
    s.work.cursor.remaining < n →
    Runs id (turns limits n) (Decode.turns limits n) stop s fun _ w => Readable w
  | 0, _, _, _, h => absurd h (Nat.not_lt_zero _)
  | n + 1, s, hs, hheld, h => by
    refine (runs_turn hs hheld).bind fun goesOn t ht => ?_
    obtain ⟨hleft, hless⟩ := ht
    refine Runs.ite (fun hgoes => ?_) fun _ => Runs.pure ?_
    · have hless' := hless hgoes
      rcases hleft with ⟨hsound, hheld'⟩ | ⟨hstop, -⟩
      · exact runs_turns hsound hheld' (by omega)
      · rw [hstop] at hgoes
        cases hgoes
    · rcases hleft with ⟨hsound, -⟩ | ⟨-, hread⟩
      · exact hsound.readable
      · exact hread

/-! ## Pictures -/

theorem parse_ok {source : Source} (h : source.size < 2 ^ 31) :
    parse source = .ok (Header.parse source) := by
  obtain ⟨hread, -⟩ := readHeader_ok h
  rw [parse, hread, ok_bind, Header.parse]
  rcases Header.read ⟨source, 0⟩ with ⟨answer, cursor⟩
  rcases answer with _ | _ | info <;> rfl

theorem parse_small {source : Source} {info : Info} {cursor : Cursor} (h : source.size < 2 ^ 31)
    (hparse : Header.parse source = .ok (info, cursor)) : SmallInfo info := by
  obtain ⟨-, hsmall⟩ := readHeader_ok h
  unfold Header.parse at hparse
  rcases hread : Header.read ⟨source, 0⟩ with ⟨answer, d⟩
  rw [hread] at hparse hsmall
  rcases answer with _ | e | info'
  · cases hparse
  · cases hparse
  · obtain ⟨rfl, rfl⟩ := Prod.mk.inj (Except.ok.inj hparse)
    exact hsmall info' rfl

theorem runs_opcodes {source : Source} {info : Info} {cursor : Cursor} (h : source.size < 2 ^ 31)
    (hparse : Header.parse source = .ok (info, cursor)) :
    Runs id (opcodes limits info) (Decode.opcodes limits info) stop
      ⟨0, #[], Decode.start info cursor⟩ fun _ w => Readable w := by
  obtain ⟨rfl, hpos, hinside⟩ := Header.parse_pos hparse
  obtain ⟨hwidth, hheight⟩ := parse_small h hparse
  have hsound : Sound (Decode.start info cursor) :=
    ⟨⟨hinside, h⟩, Nat.lt_trans hwidth (by decide), Nat.lt_trans hheight (by decide),
      Nat.two_pow_pos 31, rfl⟩
  have hleft : cursor.remaining < cursor.source.size := by
    unfold Cursor.remaining
    omega
  have hdue : due (Decode.start info cursor) ≤ 2 ^ 63 := by
    show 0 + 2 ^ 32 * cursor.remaining ≤ 2 ^ 63
    omega
  refine Runs.compute (checkCanvas_ok hsound.width hsound.height) ?_
  refine (Runs.enforce _).bind fun _ t ht => Runs.check.bind fun _ u hu => ?_
  refine runs_getCursor.bind fun c v hv => ?_
  obtain ⟨rfl, hv⟩ := hv
  have hwork : v.work = Decode.start info cursor := hv.trans (hu.trans ht)
  have hcursor : u.work.cursor = cursor := by rw [hu, ht, Decode.start]
  rw [hcursor]
  refine runs_turns ?_ ?_ ?_
  · rwa [hwork]
  · rw [hwork]
    exact Or.inl hdue
  · rw [hwork]
    exact hleft

/-- Probing does not fault. -/
theorem probe_ok {source : Source} (h : source.size < 2 ^ 31) :
    probe source = .ok (Pict.probe source) := by
  rw [probe, parse_ok h, ok_bind, Pict.probe]
  rcases Header.parse source with e | header <;> rfl

/-- Decoding does not fault. -/
theorem decode_ok {source : Source} (h : source.size < 2 ^ 31) (limits : Limits) (stop : Stop) :
    decode source limits stop = .ok (Pict.decode source limits stop) := by
  rw [decode, parse_ok h, ok_bind, Pict.decode]
  cases hparse : Header.parse source with
  | error e => rfl
  | ok header =>
    obtain ⟨info, cursor⟩ := header
    have hwalk : opcodes limits info stop ⟨0, #[], Decode.start info cursor⟩ =
        .ok (Decode.walk limits stop info cursor) := by
      rw [← resultVia_id (Decode.walk limits stop info cursor)]
      exact (runs_opcodes h hparse).same
    dsimp only
    rw [hwalk, ok_bind]
    rfl

theorem decode_readable {source : Source} {limits : Limits} {stop : Stop} {doc : Document}
    (h : source.size < 2 ^ 31) (hdecode : (Pict.decode source limits stop).result = .ok doc) :
    doc.source = source ∧ doc.picture.width < 2 ^ 16 ∧ doc.picture.declaredHeight < 2 ^ 16 ∧
      2 * doc.picture.jpegOffsets.size ≤ source.size + 2 := by
  unfold Pict.decode at hdecode
  cases hparse : Header.parse source with
  | error e =>
    rw [hparse] at hdecode
    cases hdecode
  | ok header =>
    obtain ⟨info, cursor⟩ := header
    rw [hparse] at hdecode
    dsimp only at hdecode
    have hwithin : Job.Within .onward (Decode.opcodes limits info) :=
      (Job.Within.enforce _).bind fun _ => Job.Within.check.bind fun _ =>
        Job.Within.getCursor.bind fun c => Decode.within_turns Frame.onward_rows c.source.size
    cases hwalk : Decode.walk limits stop info cursor with
    | error e t =>
      rw [hwalk] at hdecode
      cases hdecode
    | ok x t =>
      rw [hwalk] at hdecode
      obtain rfl := Except.ok.inj hdecode
      have hread : Readable t.work := (runs_opcodes h hparse).leaves hwalk
      have hsource : t.work.cursor.source = cursor.source := (hwithin.ok hwalk).source
      obtain ⟨rfl, -⟩ := Header.parse_pos hparse
      exact ⟨rfl, hread.width, hread.height, by rw [← hsource]; exact hread.offsets⟩

end Pict.Machine
