import Pict.Proofs.Decode.Changes
import Pict.Proofs.Decode.Limited
import Pict.Proofs.Raster.Undecodable

/-!
# Which data have a header

Whether data have a header, and what it tells, is settled by what stands at fixed offsets: the frame
at 518, the version at 522, the marker of version 2 at 524, the resolution at 532 and the overriding
frame at 544 (`Header.Tells`). The reader comes to these offsets by passing over what lies between
them, and passing over stops at the end of the data: fields that are cut short are missing all the
same, as none of them is looked for in front of its place (`Reader.Needs`).

Results:
* `needs_readExtended`: how many bytes are needed behind the marker of version 2.
* `parse_iff_tells`: reading a header answers what the data tell, and nothing else.
* `decode_fault`: nothing behind the header fails as a header does.
* `decode_keeps`: decoding keeps the version and the resolution of the header.
* `decode_probes`: decoding fails for the header exactly when probing does, and with the same error.
-/
namespace Pict

/-! ## Fields that are cut short -/

namespace Reader

variable {α β : Type} {n m : Nat}

/-- The reader fails where less than `n` bytes are left. -/
def Needs (n : Nat) (r : Reader α) : Prop :=
  ∀ c : Cursor, c.Inside → c.remaining < n → (r c).1 = none

/-- What a reader takes is not left for the next one. -/
theorem Needs.bind {r : Reader α} {f : α → Reader β} (h : r.Advances n)
    (h' : ∀ a, (f a).Needs m) : (r >>= f).Needs (n + m) := by
  intro c hc hleft
  obtain ⟨hforward, -⟩ := h c
  have htaken := h.remaining_le hc
  rw [bind_apply]
  rcases hr : r c with ⟨a, d⟩
  rw [hr] at hforward htaken
  cases a with
  | none => rfl
  | some a =>
    have hrest : d.remaining + n ≤ c.remaining := htaken rfl
    exact h' a d (hforward.moved hc).2 (by omega)

/-- Nor is what is passed over, although the data may end there. -/
theorem Needs.skip {r : Unit → Reader β} (hm : 0 < m) (h : ∀ a, (r a).Needs m) :
    (Reader.skip n >>= r).Needs (n + m) := by
  intro c _ hleft
  refine h () (c.skip n) (c.skip_pos_le n) ?_
  rw [c.remaining_skip n]
  omega

end Reader

/-! ## What the data tell -/

namespace Header

open Reader (Advances Needs)

/-- What the bytes at the places of a header tell, with the place of the first opcode. -/
inductive Tells (source : Source) : Except Error (Info × Cursor) → Prop where
  /-- The data end in front of the version. -/
  | short (h : source.size < 524) : Tells source (.error .unexpectedEof)
  | one {height width : Int} (hheight : source.i16? 518 = some height)
    (hwidth : source.i16? 520 = some width)
    (hcode : source.u8? 522 = some 0x11) (hnumber : source.u8? 523 = some 0x01) :
    Tells source (.ok
      ({ width := width.toNat, height := height.toNat, version := .one, resolution := none },
        ⟨source, 524⟩))
  /-- The data end in front of the marker of version 2. -/
  | unmarked (hcode : source.u8? 522 = some 0x00) (hnumber : source.u8? 523 = some 0x11)
    (h : source.size < 526) : Tells source (.error .unexpectedEof)
  | mismarked {marker : UInt16} (hcode : source.u8? 522 = some 0x00)
    (hnumber : source.u8? 523 = some 0x11) (hmarker : source.u16? 524 = some marker)
    (h : marker ≠ 0x02FF) : Tells source (.error (.invalidVersion marker))
  /-- The data end in front of the right edge of the overriding frame. -/
  | cut (hcode : source.u8? 522 = some 0x00) (hnumber : source.u8? 523 = some 0x11)
    (hmarker : source.u16? 524 = some 0x02FF) (h : source.size < 548) :
    Tells source (.error .unexpectedEof)
  | two {height width bottom right : Int} {horizontal vertical : UInt32}
    (hheight : source.i16? 518 = some height) (hwidth : source.i16? 520 = some width)
    (hcode : source.u8? 522 = some 0x00) (hnumber : source.u8? 523 = some 0x11)
    (hmarker : source.u16? 524 = some 0x02FF)
    (hhorizontal : source.u32? 532 = some horizontal) (hvertical : source.u32? 536 = some vertical)
    (hbottom : source.i16? 544 = some bottom) (hright : source.i16? 546 = some right) :
    Tells source (.ok
      ({ width := if 0 < right then right.toNat else width.toNat
         height := if 0 < bottom then bottom.toNat else height.toNat
         version := .two
         resolution := some ⟨Binary32.ofFixed horizontal, Binary32.ofFixed vertical⟩ },
        ⟨source, min 552 source.size⟩))
  /-- The version is neither of the two. -/
  | unknown {code number : UInt8} (hcode : source.u8? 522 = some code)
    (hnumber : source.u8? 523 = some number) (hone : ¬ (code = 0x11 ∧ number = 0x01))
    (htwo : ¬ (code = 0x00 ∧ number = 0x11)) : Tells source (.error .unrecognizedFormat)

variable {source : Source} {r : Except Error (Info × Cursor)}

/-- The fields of the extended header end twenty-two bytes behind the marker. -/
theorem needs_readExtended (width height : Nat) : (readExtended width height).Needs 22 := by
  have hframe : ∀ f : Int → Int → Reader Info,
      (Reader.i16 >>= fun bottom => Reader.i16 >>= fun right => f bottom right).Needs 4 := by
    intro f
    refine Needs.bind (m := 2) Advances.i16 fun bottom => ?_
    exact Needs.bind (m := 0) Advances.i16 fun right c _ hleft => absurd hleft (Nat.not_lt_zero _)
  refine Needs.skip (n := 6) (m := 16) (by decide) fun _ => ?_
  refine Needs.bind (n := 4) (m := 12) Advances.u32 fun horizontal => ?_
  refine Needs.bind (n := 4) (m := 8) Advances.u32 fun vertical => ?_
  exact Needs.skip (n := 4) (m := 4) (by decide) fun _ => hframe _

/-- What is read behind the frame and the version. -/
def readVersion (height width : Int) (code number : UInt8) : Reader (Except Error Info) :=
  match code, number with
  | 0x11, 0x01 =>
    pure (.ok { width := width.toNat, height := height.toNat, version := .one, resolution := none })
  | 0x00, 0x11 => do
    let marker ← Reader.u16
    if marker = versionTwoMarker then
      let info ← readExtended width.toNat height.toNat
      pure (.ok info)
    else pure (.error (.invalidVersion marker))
  | _, _ => pure (.error .unrecognizedFormat)

section
variable {height width : Int} {code number : UInt8}

theorem read_frame (hheight : source.i16? 518 = some height) (hwidth : source.i16? 520 = some width)
    (hcode : source.u8? 522 = some code) (hnumber : source.u8? 523 = some number) :
    read ⟨source, 0⟩ = readVersion height width code number ⟨source, 524⟩ := by
  have hsize : 523 < source.size := (source.isSome_u8?_iff 523).mp (by rw [hnumber]; rfl)
  have hstart : min frameOffset source.size = 518 := Nat.min_eq_left (by unfold frameOffset; omega)
  rw [read_start, hstart]
  unfold readFrame Reader.i16 Reader.u8
  rw [Reader.bind_field hheight, Reader.bind_field hwidth, Reader.bind_field hcode,
    Reader.bind_field hnumber]
  rfl

theorem readVersion_unknown (hone : ¬ (code = 0x11 ∧ number = 0x01))
    (htwo : ¬ (code = 0x00 ∧ number = 0x11)) (c : Cursor) :
    readVersion height width code number c = (some (.error .unrecognizedFormat), c) := by
  unfold readVersion
  split
  · exact absurd ⟨rfl, rfl⟩ hone
  · exact absurd ⟨rfl, rfl⟩ htwo
  · rfl

theorem readVersion_marked (hmarker : source.u16? 524 = some 0x02FF) :
    readVersion height width 0x00 0x11 ⟨source, 524⟩ =
      (Except.ok <$> readExtended width.toNat height.toNat : Reader (Except Error Info))
        ⟨source, 526⟩ := by
  show (Reader.field 2 Source.u16? >>= _) _ = _
  rw [Reader.bind_field hmarker]
  rfl

theorem readVersion_mismarked {marker : UInt16} (hmarker : source.u16? 524 = some marker)
    (h : marker ≠ 0x02FF) :
    readVersion height width 0x00 0x11 ⟨source, 524⟩ =
      (some (.error (.invalidVersion marker)), ⟨source, 526⟩) := by
  show (Reader.field 2 Source.u16? >>= _) _ = _
  rw [Reader.bind_field hmarker]
  have hother : marker ≠ versionTwoMarker := h
  show (if marker = versionTwoMarker then _ else _ : Reader (Except Error Info)) _ = _
  rw [if_neg hother]
  rfl

/-- Without the bytes of a marker nothing is read behind the version of a picture of version 2, -/
theorem readVersion_unmarked (h : source.size < 526) (hnumber : source.u8? 523 = some 0x11) :
    (readVersion height width 0x00 0x11 ⟨source, 524⟩).1 = none := by
  have hversion : 523 < source.size := (source.isSome_u8?_iff 523).mp (by rw [hnumber]; rfl)
  have hneeds : (readVersion height width 0x00 0x11).Needs 2 := by
    refine Needs.bind (m := 0) Advances.u16 fun marker c _ hleft => ?_
    exact absurd hleft (Nat.not_lt_zero _)
  refine hneeds ⟨source, 524⟩ ?_ ?_
  · show 524 ≤ source.size
    omega
  · show source.size - 524 < 2
    omega

/-- and without those of the extended header nothing behind the marker. -/
theorem readVersion_cut (h : source.size < 548) (hmarker : source.u16? 524 = some 0x02FF) :
    (readVersion height width 0x00 0x11 ⟨source, 524⟩).1 = none := by
  have hword : 526 ≤ source.size := (source.isSome_u16?_iff 524).mp (by rw [hmarker]; rfl)
  have hnone : (readExtended width.toNat height.toNat ⟨source, 526⟩).1 = none := by
    refine needs_readExtended _ _ ⟨source, 526⟩ hword ?_
    show source.size - 526 < 22
    omega
  rw [readVersion_marked hmarker]
  show ((readExtended _ _ >>= fun info => pure (Except.ok info) : Reader (Except Error Info)) _).1 =
    none
  rw [Reader.bind_apply]
  rcases hread : readExtended width.toNat height.toNat ⟨source, 526⟩ with ⟨answer, d⟩
  rw [hread] at hnone
  obtain rfl : answer = none := hnone
  rfl

end

theorem readExtended_there {bottom right : Int} {horizontal vertical : UInt32}
    (hhorizontal : source.u32? 532 = some horizontal) (hvertical : source.u32? 536 = some vertical)
    (hbottom : source.i16? 544 = some bottom) (hright : source.i16? 546 = some right)
    (width height : Nat) :
    readExtended width height ⟨source, 526⟩ =
      (some
        { width := override width right
          height := override height bottom
          version := .two
          resolution := some ⟨Binary32.ofFixed horizontal, Binary32.ofFixed vertical⟩ },
        ⟨source, min 552 source.size⟩) := by
  have hsize : 548 ≤ source.size := by
    have hword : (source.u16? 546).isSome := by
      rw [Source.i16?] at hright
      cases hw : source.u16? 546 with
      | none =>
        rw [hw] at hright
        cases hright
      | some w => rfl
    exact (source.isSome_u16?_iff 546).mp hword
  unfold readExtended Reader.u32 Reader.i16
  rw [Reader.bind_skip (show 526 + 6 ≤ source.size by omega), Reader.bind_field hhorizontal,
    Reader.bind_field hvertical, Reader.bind_skip (show 540 + 4 ≤ source.size by omega),
    Reader.bind_field hbottom, Reader.bind_field hright]
  rfl

theorem readVersion_extended {height width : Int} {info : Info} {d : Cursor}
    (hmarker : source.u16? 524 = some 0x02FF)
    (hextended : readExtended width.toNat height.toNat ⟨source, 526⟩ = (some info, d)) :
    readVersion height width 0x00 0x11 ⟨source, 524⟩ = (some (.ok info), d) := by
  rw [readVersion_marked hmarker]
  show (readExtended _ _ >>= fun info => pure (Except.ok info) : Reader (Except Error Info)) _ = _
  rw [Reader.bind_apply, hextended]
  rfl

/-! ## Reading what they tell -/

/-- What fails has the data end in front of a field. -/
theorem parse_none (h : (read ⟨source, 0⟩).1 = none) : parse source = .error .unexpectedEof := by
  unfold parse
  rcases hread : read ⟨source, 0⟩ with ⟨answer, d⟩
  rw [hread] at h
  obtain rfl : answer = none := h
  rfl

theorem exists_frame {number : UInt8} (hnumber : source.u8? 523 = some number) :
    ∃ height width, source.i16? 518 = some height ∧ source.i16? 520 = some width := by
  have hsize : 523 < source.size := (source.isSome_u8?_iff 523).mp (by rw [hnumber]; rfl)
  obtain ⟨height, hheight⟩ := Source.i16?_of_le (show 518 + 2 ≤ source.size by omega)
  obtain ⟨width, hwidth⟩ := Source.i16?_of_le (show 520 + 2 ≤ source.size by omega)
  exact ⟨height, width, hheight, hwidth⟩

theorem Tells.parse_eq (h : Tells source r) : parse source = r := by
  cases h with
  | short h =>
    have hcut : (readFrame ⟨source, min frameOffset source.size⟩).1 = none := by
      refine advances_readFrame.short (Nat.min_le_right _ _) ?_
      unfold Cursor.remaining frameOffset
      dsimp only
      omega
    refine parse_none ?_
    rw [read_start]
    exact hcut
  | one hheight hwidth hcode hnumber =>
    unfold parse
    rw [read_frame hheight hwidth hcode hnumber]
    rfl
  | unmarked hcode hnumber h =>
    obtain ⟨height, width, hheight, hwidth⟩ := exists_frame hnumber
    refine parse_none ?_
    rw [read_frame hheight hwidth hcode hnumber]
    exact readVersion_unmarked h hnumber
  | mismarked hcode hnumber hmarker h =>
    obtain ⟨height, width, hheight, hwidth⟩ := exists_frame hnumber
    unfold parse
    rw [read_frame hheight hwidth hcode hnumber, readVersion_mismarked hmarker h]
  | cut hcode hnumber hmarker h =>
    obtain ⟨height, width, hheight, hwidth⟩ := exists_frame hnumber
    refine parse_none ?_
    rw [read_frame hheight hwidth hcode hnumber]
    exact readVersion_cut h hmarker
  | two hheight hwidth hcode hnumber hmarker hhorizontal hvertical hbottom hright =>
    unfold parse
    rw [read_frame hheight hwidth hcode hnumber,
      readVersion_extended hmarker (readExtended_there hhorizontal hvertical hbottom hright _ _)]
    rfl
  | unknown hcode hnumber hone htwo =>
    obtain ⟨height, width, hheight, hwidth⟩ := exists_frame hnumber
    unfold parse
    rw [read_frame hheight hwidth hcode hnumber, readVersion_unknown hone htwo]

theorem exists_tells (source : Source) : ∃ r, Tells source r := by
  by_cases hversion : source.size < 524
  · exact ⟨_, .short hversion⟩
  obtain ⟨code, hcode⟩ := Option.isSome_iff_exists.mp
    ((source.isSome_u8?_iff 522).mpr (by omega))
  obtain ⟨number, hnumber⟩ := Option.isSome_iff_exists.mp
    ((source.isSome_u8?_iff 523).mpr (by omega))
  obtain ⟨height, width, hheight, hwidth⟩ := exists_frame hnumber
  by_cases hone : code = 0x11 ∧ number = 0x01
  · obtain ⟨rfl, rfl⟩ := hone
    exact ⟨_, .one hheight hwidth hcode hnumber⟩
  by_cases htwo : code = 0x00 ∧ number = 0x11
  case neg => exact ⟨_, .unknown hcode hnumber hone htwo⟩
  obtain ⟨rfl, rfl⟩ := htwo
  by_cases hend : source.size < 526
  · exact ⟨_, .unmarked hcode hnumber hend⟩
  obtain ⟨marker, hmarker⟩ := Option.isSome_iff_exists.mp
    ((source.isSome_u16?_iff 524).mpr (by omega))
  by_cases hknown : marker = 0x02FF
  case neg => exact ⟨_, .mismarked hcode hnumber hmarker hknown⟩
  subst hknown
  by_cases hcut : source.size < 548
  · exact ⟨_, .cut hcode hnumber hmarker hcut⟩
  obtain ⟨horizontal, hhorizontal⟩ := Option.isSome_iff_exists.mp
    ((source.isSome_u32?_iff 532).mpr (by omega))
  obtain ⟨vertical, hvertical⟩ := Option.isSome_iff_exists.mp
    ((source.isSome_u32?_iff 536).mpr (by omega))
  obtain ⟨bottom, hbottom⟩ := Source.i16?_of_le (show 544 + 2 ≤ source.size by omega)
  obtain ⟨right, hright⟩ := Source.i16?_of_le (show 546 + 2 ≤ source.size by omega)
  exact ⟨_, .two hheight hwidth hcode hnumber hmarker hhorizontal hvertical hbottom hright⟩

/-- Reading a header answers what the data tell. -/
theorem parse_iff_tells : parse source = r ↔ Tells source r := by
  refine ⟨fun hparse => ?_, Tells.parse_eq⟩
  obtain ⟨told, htold⟩ := exists_tells source
  rwa [← hparse, htold.parse_eq]

/-- What only the header is found wrong with. -/
inductive Fault : Error → Prop where
  | unexpectedEof : Fault .unexpectedEof
  | unrecognizedFormat : Fault .unrecognizedFormat
  | invalidVersion (marker : UInt16) : Fault (.invalidVersion marker)

theorem fault_of_parse {e : Error} (h : parse source = .error e) : Fault e := by
  rcases parse_error h with rfl | rfl | ⟨marker, rfl⟩
  · exact .unexpectedEof
  · exact .unrecognizedFormat
  · exact .invalidVersion marker

end Header

/-! ## Probing and decoding -/

variable {source : Source} {limits : Limits} {stop : Stop} {e : Error}

theorem probe_eq_ok {info : Info} :
    probe source = .ok info ↔ ∃ cursor, Header.parse source = .ok (info, cursor) := by
  unfold probe
  cases hparse : Header.parse source with
  | error e => exact ⟨nofun, fun ⟨_, h⟩ => nomatch h⟩
  | ok header =>
    obtain ⟨info', cursor⟩ := header
    constructor
    · intro h
      obtain rfl : info' = info := Except.ok.inj h
      exact ⟨cursor, rfl⟩
    · rintro ⟨cursor', h⟩
      obtain ⟨rfl, -⟩ := Prod.mk.inj (Except.ok.inj h)
      rfl

theorem probe_eq_error : probe source = .error e ↔ Header.parse source = .error e := by
  unfold probe
  cases hparse : Header.parse source with
  | error e' =>
    constructor
    · intro h
      obtain rfl : e' = e := Except.error.inj h
      rfl
    · intro h
      obtain rfl := Except.error.inj h
      rfl
  | ok header => exact ⟨nofun, nofun⟩

namespace Decode

theorem walk_faultless {info : Info} {cursor : Cursor} {t : Session Walk}
    (hwalk : walk limits stop info cursor = .error e t) : ¬ Header.Fault e := by
  have hheeds := (heeds_walks limits).opcodes info
  intro hfault
  rcases hheeds.error_cases rfl hwalk with hown | ⟨reason, rfl⟩
  · cases hown <;> cases hfault
  · cases hfault

/-- Decoding fails for the header exactly when the header cannot be read. -/
theorem decode_fault :
    ((decode source limits stop).result = .error e ∧ Header.Fault e) ↔
      Header.parse source = .error e := by
  unfold decode
  cases hparse : Header.parse source with
  | error e' =>
    constructor
    · rintro ⟨hresult, -⟩
      exact congrArg Except.error (Except.error.inj hresult)
    · intro h
      obtain rfl := Except.error.inj h
      exact ⟨rfl, Header.fault_of_parse hparse⟩
  | ok header =>
    obtain ⟨info, cursor⟩ := header
    dsimp only
    refine ⟨fun ⟨hresult, hfault⟩ => ?_, nofun⟩
    cases hwalk : walk limits stop info cursor with
    | ok _ t =>
      rw [hwalk] at hresult
      cases hresult
    | error e' t =>
      rw [hwalk] at hresult
      obtain rfl := Except.error.inj hresult
      exact absurd hfault (walk_faultless hwalk)

theorem turn_keeps {s t : Session Walk} {more : Bool} (h : turn limits stop s = .ok more t) :
    t.work.picture.version = s.work.picture.version ∧
      t.work.picture.resolution = s.work.picture.resolution := by
  cases turn_changes h with
  | reopened h => exact ⟨h.version, h.resolution⟩
  | jpeg offsets _ h =>
    rw [h]
    exact ⟨rfl, rfl⟩
  | rows f u rows _ hopened _ _ h =>
    rw [h]
    exact ⟨hopened.version, hopened.resolution⟩

/-- What is decoded has the version and the resolution of its header. -/
theorem decode_keeps {doc : Document} (h : (decode source limits stop).result = .ok doc) :
    ∃ info cursor, Header.parse source = .ok (info, cursor) ∧
      doc.picture.version = info.version ∧ doc.picture.resolution = info.resolution := by
  obtain ⟨info, cursor, t, hparse, hturns, rfl⟩ := decode_eq_ok h
  have hkeep := turns_keep
    (P := fun u => u.work.picture.version = info.version ∧
      u.work.picture.resolution = info.resolution)
    (fun hturn hu => ⟨(turn_keeps hturn).1.trans hu.1, (turn_keeps hturn).2.trans hu.2⟩)
    _ hturns ⟨rfl, rfl⟩
  exact ⟨info, cursor, hparse, hkeep⟩

/-- Probing answers what the data tell of a header, at any length they have. Decoding, under all
limits and stops, fails for the header exactly when probing fails, and with the same error; what it
decodes has the version and the resolution that probing tells. -/
theorem decode_probes (source : Source) :
    (∀ r, Header.parse source = r ↔ Header.Tells source r) ∧
    (∀ info, probe source = .ok info ↔ ∃ cursor, Header.Tells source (.ok (info, cursor))) ∧
    (∀ e, probe source = .error e ↔ Header.Tells source (.error e)) ∧
    ∀ limits stop,
      (∀ e, ((decode source limits stop).result = .error e ∧ Header.Fault e) ↔
        probe source = .error e) ∧
      ∀ doc, (decode source limits stop).result = .ok doc → ∃ info, probe source = .ok info ∧
        doc.picture.version = info.version ∧ doc.picture.resolution = info.resolution := by
  refine ⟨fun r => Header.parse_iff_tells, fun info => ?_, fun e => ?_, fun limits stop =>
    ⟨fun e => ?_, fun doc h => ?_⟩⟩
  · rw [probe_eq_ok]
    exact exists_congr fun cursor => Header.parse_iff_tells
  · rw [probe_eq_error]
    exact Header.parse_iff_tells
  · rw [probe_eq_error]
    exact decode_fault
  · obtain ⟨info, cursor, hparse, hkeeps⟩ := decode_keeps h
    exact ⟨info, probe_eq_ok.mpr ⟨cursor, hparse⟩, hkeeps⟩

/-- The header of the sample picture tells as much without the four bytes behind the overriding
frame. With one byte less it tells nothing, and no limits and no stop keep decoding from failing
for that. -/
theorem decode_cutHeader :
    (∃ cursor,
      Header.Tells (sampleHeader.bytes.take 548).toArray (.ok (sampleHeader.info, cursor))) ∧
    Header.Tells (sampleHeader.bytes.take 547).toArray (.error .unexpectedEof) ∧
    ∀ limits stop, (decode (sampleHeader.bytes.take 547).toArray limits stop).result =
      .error .unexpectedEof := by
  have hwhole : probe (sampleHeader.bytes.take 548).toArray = .ok sampleHeader.info := by
    decide +kernel
  have hcut : probe (sampleHeader.bytes.take 547).toArray = .error .unexpectedEof := by
    decide +kernel
  obtain ⟨-, htold, -⟩ := decode_probes (sampleHeader.bytes.take 548).toArray
  obtain ⟨-, -, hfault, hdecode⟩ := decode_probes (sampleHeader.bytes.take 547).toArray
  refine ⟨(htold _).mp hwhole, (hfault _).mp hcut, fun limits stop => ?_⟩
  exact (((hdecode limits stop).1 _).mpr hcut).1

end Decode
end Pict
