import Pict.Proofs.Decode.LastByte
import Pict.Proofs.Decode.Progress
import Pict.Proofs.Raster.RunOut

/-!
# What the bytes of a picture are read for

A turn reads the code of an opcode and whatever belongs to it: content that is passed over, or
the opening of a raster and its rows. `Reads` tells what bytes a turn reads, and for what
purpose. A row that finds nothing behind its length goes back to the last byte, which
may have been part of that length (`Passed`); no other byte is ever read again.

Results:
* `Raster.readRow_passes`, `Raster.eachRow_passes`: what one row and all rows of a raster leave
  behind the cursor.
* `dispatch_passes`, `turn_passes`, `loop_passes`: what an opcode, a turn and the turns of a walk
  leave behind it.
* `decode_passes`: an opcode begins behind all bytes that were read for earlier ones, but for the
  length of a row, and what that makes of rasters whose rows run out of data.
-/
namespace Pict

open Job

/-! ## Bytes and purposes -/

/-- What bytes are read for. -/
inductive Purpose where
  /-- The code of an opcode and the fields that are read with it. -/
  | code
  /-- What follows an opcode other than a raster. -/
  | content
  /-- What comes in front of the rows of a raster. -/
  | opening
  | rowLength
  | row
  deriving DecidableEq, Repr

structure Span where
  start : Nat
  stop : Nat
  deriving DecidableEq, Repr

def Job.span {α : Type} (job : Job Walk α) (stop : Stop) (s : Session Walk) : Span :=
  ⟨s.work.cursor.pos, (sessionOf (job stop s)).work.cursor.pos⟩

def Opcode.offset : Version → Cursor → Nat
  | .one, c => c.pos
  | .two, c => (Reader.align c).2.pos

/-- The cursor is behind some bytes, or else these are the length of a row that ends the data, and
the cursor stands on the last byte. -/
def Passed (purpose : Purpose) (span : Span) (c : Cursor) : Prop :=
  span.stop ≤ c.pos ∨
    purpose = .rowLength ∧ span.stop = c.source.size ∧ c.pos + 1 = c.source.size

theorem Passed.forward {purpose : Purpose} {span : Span} {c d : Cursor} (h : Passed purpose span c)
    (hforward : c.Forward d) (hc : c.Inside) : Passed purpose span d := by
  obtain ⟨hle, hd⟩ := hforward.moved hc
  have hsource := hforward.source
  unfold Cursor.Inside at hd
  unfold Passed at h ⊢
  rw [hsource] at hd ⊢
  rcases h with h | ⟨hpurpose, hstop, hpos⟩
  · exact Or.inl (Nat.le_trans h hle)
  · by_cases hsame : d.pos = c.pos
    · exact Or.inr ⟨hpurpose, hstop, by omega⟩
    · exact Or.inl (by omega)

theorem Opcode.le_offset (version : Version) {c : Cursor} (hc : c.Inside) :
    c.pos ≤ offset version c := by
  cases version with
  | one => exact Nat.le_refl _
  | two => exact ((Reader.Advances.align c).1.moved hc).1

/-! ## Rows -/

namespace Raster

/-- The bytes that are read of a row in front of which the cursor stands. -/
inductive RowReads (f : Format) (rowBytes : Nat) (c : Cursor) : Purpose → Span → Prop where
  | length : f.isPacked rowBytes = true →
      RowReads f rowBytes c .rowLength ⟨c.pos, (readLength rowBytes c).2.pos⟩
  | packed {declared : Int} {d e : Cursor} {n : Nat} : f.isPacked rowBytes = true →
      readLength rowBytes c = (some declared, d) →
      settle declared (packedCapacity rowBytes) d = (e, n) →
      RowReads f rowBytes c .row ⟨e.pos, (e.skip n).pos⟩
  | raw : f.isPacked rowBytes = false →
      RowReads f rowBytes c .row ⟨c.pos, (c.skip rowBytes).pos⟩

/-- The data does not have all bytes of a row: its length, or as many bytes as that says, or as
many as a row has that stands as it is. -/
def Short (f : Format) (rowBytes : Nat) (c : Cursor) : Prop :=
  f.isPacked rowBytes = true ∧ (∀ declared d, readLength rowBytes c = (some declared, d) →
    (d.remaining : Int) < min declared (packedCapacity rowBytes)) ∨
  f.isPacked rowBytes = false ∧ c.remaining < rowBytes

theorem short_of_readLength {f : Format} {rowBytes : Nat} {c : Cursor} {declared : Int}
    (hpacked : f.isPacked rowBytes = true) (hread : (readLength rowBytes c).1 = some declared)
    (h : ((readLength rowBytes c).2.remaining : Int) < min declared (packedCapacity rowBytes)) :
    Short f rowBytes c := by
  refine Or.inl ⟨hpacked, fun declared' d hread' => ?_⟩
  rw [hread'] at hread h
  obtain rfl := Option.some.inj hread
  exact h

/-- The data runs out inside the rows that are read from `s`. -/
def RunsOut (f : Format) (stop : Stop) (s : Session Walk) : Prop :=
  ∃ w ∈ (rowSessions (readRow f s.work.picture) stop 0 s.work.picture.declaredHeight s).dropLast,
    Short f s.work.picture.rowBytes w.work.cursor

variable {f : Format} {width height rowBytes row : Nat} {stop : Stop} {s t : Session Walk}
  {more : Bool} {p : Picture}

/-- The cursor is inside and in front of `d`, which has passed what is read of a row; if the row is
short there is one byte left. -/
structure RowPassed (f : Format) (rowBytes : Nat) (c d : Cursor) : Prop where
  forward : c.Forward d
  passed : ∀ purpose span, RowReads f rowBytes c purpose span → Passed purpose span d
  short : Short f rowBytes c → d.remaining ≤ 1

theorem RowPassed.trans {c d e : Cursor} (h : RowPassed f rowBytes c d) (hforward : d.Forward e)
    (hc : c.Inside) : RowPassed f rowBytes c e := by
  obtain ⟨-, hd⟩ := h.forward.moved hc
  refine ⟨h.forward.trans hforward, fun purpose span hreads => ?_, fun hshort => ?_⟩
  · exact (h.passed purpose span hreads).forward hforward hd
  · exact Nat.le_trans (hforward.remaining_le hd) (h.short hshort)

theorem rowPassed_none {c : Cursor} (hpacked : f.isPacked rowBytes = true)
    (h : takenRow rowBytes c = none) : RowPassed f rowBytes c c := by
  have hleft := takenRow_none h
  rcases readLength_cases rowBytes c with ⟨hread, -⟩ | ⟨declared, hread, -⟩
  · refine ⟨.refl c, ?_, fun _ => ?_⟩
    · rintro _ _ (_ | ⟨_, hsome, _⟩ | hraw)
      · rw [hread]
        exact Or.inl (Nat.le_refl _)
      · rw [hread] at hsome
        cases hsome
      · rw [hpacked] at hraw
        cases hraw
    · have hsize := (lengthSize_bounds rowBytes).2
      omega
  · rw [takenRow, hread] at h
    cases h

/-- A row ends in front of the last byte, or all of it is there. -/
theorem settle_end {declared : Int} {capacity n : Nat} {b e : Cursor} (hb : b.Inside)
    (hsize : 0 < b.source.size) (h : settle declared capacity b = (e, n)) :
    (e.skip n).source = b.source ∧
      ((e.skip n).pos + 1 = b.source.size ∨
        b.pos ≤ (e.skip n).pos ∧ ¬ (b.remaining : Int) < min declared capacity) := by
  unfold Cursor.Inside at hb
  rcases settle_cases declared capacity b with hlast | ⟨m, hhere, hfit⟩
  · obtain ⟨rfl, rfl⟩ := Prod.mk.inj (h.symm.trans hlast)
    refine ⟨rfl, Or.inl ?_⟩
    simp only [Cursor.skip, Cursor.seek]
    omega
  · obtain ⟨rfl, rfl⟩ := Prod.mk.inj (h.symm.trans hhere)
    refine ⟨rfl, ?_⟩
    unfold fitLength at hfit
    simp only [Cursor.skip, Cursor.seek, Cursor.remaining] at hfit ⊢
    omega

theorem Short.lt_of_packed {c d : Cursor} {declared : Int} (h : Short f rowBytes c)
    (hpacked : f.isPacked rowBytes = true) (hread : readLength rowBytes c = (some declared, d)) :
    (d.remaining : Int) < min declared (packedCapacity rowBytes) := by
  rcases h with ⟨-, hlength⟩ | ⟨hraw, -⟩
  · exact hlength declared d hread
  · rw [hpacked] at hraw
    cases hraw

/-- A packed row passes its length and its bytes, unless it goes back to the last byte. -/
theorem rowPassed_some {c d : Cursor} {packed : List UInt8} (hpacked : f.isPacked rowBytes = true)
    (h : takenRow rowBytes c = some (packed, d)) : RowPassed f rowBytes c d := by
  obtain ⟨declared, b, e, n, hread, hb, hroom, hsettle, -, rfl⟩ := takenRow_some h
  have hsize := (lengthSize_bounds rowBytes).1
  have hsource : b.source = c.source := by rw [hb]
  have hpos : b.pos = c.pos + lengthSize rowBytes := by rw [hb]
  obtain ⟨hesource, hends⟩ := settle_end (b := b) (by rw [Cursor.Inside, hsource]; omega)
    (by rw [hsource]; omega) hsettle
  rw [hsource] at hesource hends
  have hinside : (e.skip n).pos ≤ (e.skip n).source.size := e.skip_pos_le n
  refine ⟨⟨hesource, fun _ => ⟨by omega, hinside⟩⟩, ?_, fun hshort => ?_⟩
  · rintro _ _ (_ | ⟨_, hread', hsettle'⟩ | hraw)
    · rw [hread]
      by_cases hle : b.pos ≤ (e.skip n).pos
      · exact Or.inl hle
      · -- the row has gone back
        unfold Passed
        rw [hesource]
        dsimp only
        exact Or.inr ⟨rfl, by omega, by omega⟩
    · obtain ⟨hdeclared, rfl⟩ := Prod.mk.inj (hread.symm.trans hread')
      obtain rfl := Option.some.inj hdeclared
      obtain ⟨rfl, rfl⟩ := Prod.mk.inj (hsettle.symm.trans hsettle')
      exact Or.inl (Nat.le_refl _)
    · rw [hpacked] at hraw
      cases hraw
  · have hlt := hshort.lt_of_packed hpacked hread
    unfold Cursor.remaining
    rw [hesource]
    omega

theorem keepRaw_cursor {bytes : List UInt8}
    (h : keepRaw f width rowBytes row bytes stop s = .ok more t) :
    t.work.cursor = s.work.cursor := by
  have hkept : ∀ u : Session Walk, (do
      let strip ← Job.ofExcept (f.rawStrip width (fit rowBytes bytes))
      Walk.store strip
      markDirect f
      Pure.pure true) stop u = .ok more t → t.work.cursor = u.work.cursor := by
    intro u hu
    obtain ⟨strip, v, hstrip, hu⟩ := bind_eq_ok.mp hu
    obtain ⟨-, rfl⟩ := ofExcept_eq_ok.mp hstrip
    obtain ⟨_, w, hstore, hu⟩ := bind_eq_ok.mp hu
    obtain ⟨-, rfl⟩ := EStateM.Result.ok.inj hstore
    obtain ⟨_, x, hmark, hu⟩ := bind_eq_ok.mp hu
    obtain ⟨-, rfl⟩ := pure_eq_ok.mp hu
    unfold markDirect at hmark
    split at hmark <;> obtain ⟨-, rfl⟩ := EStateM.Result.ok.inj hmark <;> rfl
  unfold keepRaw at h
  split at h
  · obtain ⟨_, u, hwarn, h⟩ := bind_eq_ok.mp h
    obtain ⟨-, rfl⟩ := EStateM.Result.ok.inj hwarn
    have hcursor := hkept _ h
    exact hcursor
  · exact hkept s h

theorem readRawRow_cursor (hs : s.work.cursor.Inside)
    (h : readRawRow f width height rowBytes row stop s = .ok more t) :
    t.work.cursor = s.work.cursor.skip rowBytes := by
  obtain ⟨c, u, hcursor, h⟩ := bind_eq_ok.mp h
  obtain ⟨rfl, rfl⟩ := EStateM.Result.ok.inj hcursor
  by_cases hend : s.work.cursor.atEnd = true
  · rw [if_pos hend] at h
    obtain ⟨_, u, hwarn, h⟩ := bind_eq_ok.mp h
    obtain ⟨-, rfl⟩ := EStateM.Result.ok.inj hwarn
    obtain ⟨-, rfl⟩ := pure_eq_ok.mp h
    have hsize : s.work.cursor.source.size ≤ s.work.cursor.pos := by simpa [Cursor.atEnd] using hend
    have hpos : s.work.cursor.pos ≤ s.work.cursor.source.size := hs
    have hmin : min (s.work.cursor.pos + rowBytes) s.work.cursor.source.size =
        s.work.cursor.pos := by omega
    rw [Cursor.skip, Cursor.seek, hmin]
  · rw [if_neg hend] at h
    obtain ⟨bytes, u, hnext, h⟩ := bind_eq_ok.mp h
    obtain ⟨-, rfl⟩ := EStateM.Result.ok.inj hnext
    exact keepRaw_cursor h

theorem rowPassed_raw (c : Cursor) (hraw : f.isPacked rowBytes = false) :
    RowPassed f rowBytes c (c.skip rowBytes) := by
  refine ⟨.skip c rowBytes, ?_, ?_⟩
  · rintro _ _ (hpacked | ⟨hpacked, _, _⟩ | _)
    · rw [hraw] at hpacked
      cases hpacked
    · rw [hraw] at hpacked
      cases hpacked
    · exact Or.inl (Nat.le_refl _)
  · intro hshort
    obtain ⟨hpacked, -⟩ | ⟨-, hshort⟩ := hshort
    · rw [hraw] at hpacked
      cases hpacked
    simp only [Cursor.remaining, Cursor.skip, Cursor.seek] at hshort ⊢
    omega

/-- A row that is read passes all that is read of it. -/
theorem readRow_passes (hs : s.work.cursor.Inside) (h : readRow f p row stop s = .ok more t) :
    RowPassed f p.rowBytes s.work.cursor t.work.cursor := by
  unfold readRow at h
  cases hpacked : f.isPacked p.rowBytes with
  | false =>
    rw [if_neg (by simp [hpacked])] at h
    rw [readRawRow_cursor hs h]
    exact rowPassed_raw _ hpacked
  | true =>
    rw [if_pos hpacked] at h
    cases htaken : takenRow p.rowBytes s.work.cursor with
    | none =>
      obtain ⟨u, hu, hwork⟩ := readPackedRow_none f p.width p.declaredHeight row stop htaken
      obtain ⟨-, rfl⟩ := Job.ok_unique hu h
      rw [hwork]
      exact rowPassed_none hpacked htaken
    | some taken =>
      obtain ⟨packed, d⟩ := taken
      have hrow := readPackedRow_some f p.width p.declaredHeight row stop htaken
      cases hstrips : f.packedStrips p.width packed with
      | error e =>
        rw [hstrips] at hrow
        obtain ⟨u, hu, -⟩ := hrow
        cases hu.symm.trans h
      | ok strips =>
        rw [hstrips] at hrow
        obtain ⟨u, hu, hcursor, -⟩ := hrow
        obtain ⟨-, rfl⟩ := Job.ok_unique hu h
        rw [hcursor]
        exact rowPassed_some hpacked htaken

/-- Behind all rows the cursor has passed what was read of each. -/
theorem eachRow_passes (left : Nat) : ∀ {row : Nat} {s : Session Walk}, s.work.cursor.Inside →
    Job.eachRow (readRow f p) row left stop s = .ok () t →
      s.work.cursor.Forward t.work.cursor ∧
        ∀ w ∈ (rowSessions (readRow f p) stop row left s).dropLast,
          RowPassed f p.rowBytes w.work.cursor t.work.cursor := by
  induction left with
  | zero =>
    intro row s _ h
    obtain ⟨-, rfl⟩ := pure_eq_ok.mp h
    exact ⟨.refl _, nofun⟩
  | succ left ih =>
    intro row s hs h
    obtain ⟨_, u, hcheck, h⟩ := bind_eq_ok.mp h
    obtain ⟨more, v, hrow, h⟩ := bind_eq_ok.mp h
    have hboth : (checkRow row >>= fun _ => readRow f p row) stop s = .ok more v :=
      bind_eq_ok.mpr ⟨(), u, hcheck, hrow⟩
    have hwork := checkRow_work row stop s
    rw [hcheck] at hwork
    have hcursor : u.work.cursor = s.work.cursor := congrArg Walk.cursor hwork
    rw [← hcursor] at hs
    have hpassed := readRow_passes hs hrow
    obtain ⟨-, hv⟩ := hpassed.forward.moved hs
    rw [rowSessions, hboth]
    rw [hcursor] at hpassed hs
    cases more with
    | false =>
      obtain ⟨-, rfl⟩ := pure_eq_ok.mp h
      refine ⟨hpassed.forward, fun w hw => ?_⟩
      obtain rfl : w = s := by simpa using hw
      exact hpassed
    | true =>
      obtain ⟨hforward, hrest⟩ := ih hv h
      refine ⟨hpassed.forward.trans hforward, fun w hw => ?_⟩
      obtain ⟨rest, hcons⟩ := rowSessions_eq_cons (readRow f p) stop (row + 1) left v
      dsimp only at hw
      rw [hcons, List.dropLast_cons_cons, ← hcons, List.mem_cons] at hw
      rcases hw with rfl | hw
      · exact hpassed.trans hforward hs
      · exact hrest w hw

/-- Behind the rows of a raster the cursor has passed what was read of each, and if the data has run
out there is one byte left at most. -/
theorem readRows_passes (hs : s.work.cursor.Inside) (h : readRows f stop s = .ok () t) :
    s.work.cursor.Forward t.work.cursor ∧
      ∀ w ∈ (rowSessions (readRow f s.work.picture) stop 0 s.work.picture.declaredHeight
        s).dropLast, RowPassed f s.work.picture.rowBytes w.work.cursor t.work.cursor := by
  obtain ⟨p, u, hp, h⟩ := bind_eq_ok.mp h
  obtain ⟨rfl, rfl⟩ := EStateM.Result.ok.inj hp
  exact eachRow_passes _ hs h

end Raster

/-! ## Turns -/

namespace Decode

variable {limits : Limits} {stop : Stop} {s t : Session Walk} {info : Info} {cursor : Cursor}

/-- In the turn from `s` the opcode is read, and done what it asks for from `u` on. -/
def Dispatches (stop : Stop) (s : Session Walk) (opcode : Opcode) (u : Session Walk) : Prop :=
  ∃ s₁, Walk.read (Opcode.read s.work.picture.version) stop s = .ok (some opcode) s₁ ∧
    Job.check stop s₁ = .ok () u

/-- The bytes that are read for an opcode behind its code, and what for. -/
inductive Fetches (limits : Limits) (stop : Stop) (u : Session Walk) :
    Opcode → Purpose → Span → Prop where
  | content {opcode : Opcode} : (∀ op, opcode ≠ .raster op) →
    Fetches limits stop u opcode .content (span (dispatch limits opcode) stop u)
  | opening (op : RasterOp) :
    Fetches limits stop u (.raster op) .opening (span (Raster.readOpening op) stop u)
  | row {op : RasterOp} {f : Format} {v w : Session Walk} {purpose : Purpose} {span : Span} :
    allow limits op stop u = .ok (some f) v →
      w ∈ (rowSessions (Raster.readRow f v.work.picture) stop 0 v.work.picture.declaredHeight
        v).dropLast →
      Raster.RowReads f v.work.picture.rowBytes w.work.cursor purpose span →
      Fetches limits stop u (.raster op) purpose span

/-- The bytes that are read in the turn from `s`, and what for. -/
inductive Reads (limits : Limits) (stop : Stop) (s : Session Walk) : Purpose → Span → Prop where
  | code :
    Reads limits stop s .code
      ⟨Opcode.offset s.work.picture.version s.work.cursor,
        (Opcode.read s.work.picture.version s.work.cursor).2.pos⟩
  | behind {opcode : Opcode} {u : Session Walk} {purpose : Purpose} {span : Span} :
    Dispatches stop s opcode u → Fetches limits stop u opcode purpose span →
      Reads limits stop s purpose span

theorem Dispatches.unique {opcode opcode' : Opcode} {u u' : Session Walk}
    (h : Dispatches stop s opcode u) (h' : Dispatches stop s opcode' u') :
    opcode = opcode' ∧ u = u' := by
  obtain ⟨s₁, hread, hcheck⟩ := h
  obtain ⟨s₂, hread', hcheck'⟩ := h'
  obtain ⟨hopcode, rfl⟩ := Job.ok_unique hread hread'
  obtain ⟨-, rfl⟩ := Job.ok_unique hcheck hcheck'
  exact ⟨Option.some.inj hopcode, rfl⟩

theorem Dispatches.behind {opcode : Opcode} {u : Session Walk} (h : Dispatches stop s opcode u) :
    u.work.cursor = (Opcode.read s.work.picture.version s.work.cursor).2 := by
  obtain ⟨s₁, hread, hcheck⟩ := h
  obtain ⟨-, rfl⟩ := Walk.read_eq_ok.mp hread
  exact congrArg Walk.cursor (check_work hcheck)

theorem raster_passes {op : RasterOp} {u : Session Walk} {goesOn : Bool}
    (hu : u.work.cursor.Inside) (h : dispatch limits (.raster op) stop u = .ok goesOn t) :
    u.work.cursor.Forward t.work.cursor ∧ ∀ purpose span,
      Fetches limits stop u (.raster op) purpose span → Passed purpose span t.work.cursor := by
  rcases dispatch_raster_eq_ok h with hnone | ⟨f, v, hallow, hrows⟩
  · -- the raster is given up in its opening
    refine ⟨(within_allow Frame.forward_opens op).ok hnone, ?_⟩
    rintro _ _ (hother | _ | ⟨hallow, _, _⟩)
    · exact absurd rfl (hother op)
    · rw [span, allow_opening hnone]
      exact Or.inl (Nat.le_refl _)
    · cases (Job.ok_unique hnone hallow).1
  · have hopening : u.work.cursor.Forward v.work.cursor :=
      (within_allow Frame.forward_opens op).ok hallow
    obtain ⟨-, hv⟩ := hopening.moved hu
    obtain ⟨hforward, hpassed⟩ := Raster.readRows_passes hv hrows
    refine ⟨hopening.trans hforward, ?_⟩
    rintro _ _ (hother | _ | ⟨hallow', hw, hreads⟩)
    · exact absurd rfl (hother op)
    · rw [span, allow_opening hallow]
      exact Or.inl (hforward.moved hv).1
    · obtain ⟨hf, rfl⟩ := Job.ok_unique hallow hallow'
      obtain rfl := Option.some.inj hf
      exact (hpassed _ hw).passed _ _ hreads

/-- Behind what an opcode asks for the cursor has passed what was read for it. -/
theorem dispatch_passes {opcode : Opcode} {u : Session Walk} {goesOn : Bool}
    (hu : u.work.cursor.Inside) (h : dispatch limits opcode stop u = .ok goesOn t) :
    u.work.cursor.Forward t.work.cursor ∧ ∀ purpose span,
      Fetches limits stop u opcode purpose span → Passed purpose span t.work.cursor := by
  by_cases hraster : ∃ op, opcode = .raster op
  · obtain ⟨op, rfl⟩ := hraster
    exact raster_passes hu h
  · have hother : ∀ op, opcode ≠ .raster op := fun op hop => hraster ⟨op, hop⟩
    refine ⟨(within_dispatch_of_ne Frame.forward_opens hother).ok h, ?_⟩
    rintro _ _ (_ | _ | _)
    · rw [span, h]
      exact Or.inl (Nat.le_refl _)
    · exact absurd rfl (hother _)
    · exact absurd rfl (hother _)

/-- Behind a turn the cursor has passed what was read in it. -/
theorem turn_passes {more : Bool} (hs : s.work.cursor.Inside)
    (h : turn limits stop s = .ok more t) :
    s.work.cursor.Forward t.work.cursor ∧
      ∀ purpose span, Reads limits stop s purpose span → Passed purpose span t.work.cursor := by
  have hcode := (Opcode.advances_read s.work.picture.version s.work.cursor).1
  rcases turn_eq_ok h with ⟨-, hread⟩ | ⟨opcode, s₁, u, goesOn, hread, hcheck, hdispatch, -⟩
  · obtain ⟨hnone, rfl⟩ := Walk.read_eq_ok.mp hread
    refine ⟨hcode, ?_⟩
    rintro _ _ (_ | ⟨⟨s₁, hread, -⟩, -⟩)
    · exact Or.inl (Nat.le_refl _)
    · cases hnone.symm.trans (Walk.read_eq_ok.mp hread).1
  · have hop : Dispatches stop s opcode u := ⟨s₁, hread, hcheck⟩
    rw [← hop.behind] at hcode
    obtain ⟨-, hu⟩ := hcode.moved hs
    obtain ⟨hforward, hpassed⟩ := dispatch_passes hu hdispatch
    refine ⟨hcode.trans hforward, ?_⟩
    rintro _ _ (_ | ⟨hop', hfetches⟩)
    · rw [hop.behind] at hforward hu
      exact Or.inl (hforward.moved hu).1
    · obtain ⟨rfl, rfl⟩ := hop.unique hop'
      exact hpassed _ _ hfetches

/-! ## Walks -/

variable {visited : List (Session Walk)} {r : EStateM.Result Error (Session Walk) Unit}

/-- What every turn keeps to holds of all turns of a walk. -/
theorem loop_within {R : Frame} (hR : Within R (turn limits))
    (h : Loop (turnStep limits stop) s visited r) : ∀ t ∈ visited, R.allows s.work t.work := by
  induction h with
  | done => exact fun t ht => by rw [List.mem_singleton.mp ht]; exact R.refl _
  | again hstep _ ih =>
    intro t ht
    rcases List.mem_cons.mp ht with rfl | ht
    · exact R.refl _
    · exact R.trans (hR.ok (turnStep_eq_inl.mp hstep)) (ih t ht)

/-- Where a turn of a walk begins the cursor has passed what was read in the turns before it. -/
theorem loop_passes (h : Loop (turnStep limits stop) s visited r) (hs : s.work.cursor.Inside) :
    (∀ t ∈ visited, s.work.cursor.Forward t.work.cursor) ∧
      visited.Pairwise fun t u =>
        ∀ purpose span, Reads limits stop t purpose span → Passed purpose span u.work.cursor := by
  induction h with
  | done =>
    refine ⟨fun t ht => ?_, List.pairwise_singleton _ _⟩
    rw [List.mem_singleton.mp ht]
    exact .refl _
  | @again s s' visited r hstep _ ih =>
    obtain ⟨hforward, hpassed⟩ := turn_passes hs (turnStep_eq_inl.mp hstep)
    obtain ⟨-, hs'⟩ := hforward.moved hs
    obtain ⟨hall, hpairs⟩ := ih hs'
    refine ⟨fun t ht => ?_, List.pairwise_cons.mpr ⟨fun t ht purpose span hreads => ?_, hpairs⟩⟩
    · rcases List.mem_cons.mp ht with rfl | ht
      · exact .refl _
      · exact hforward.trans (hall t ht)
    · exact (hpassed purpose span hreads).forward (hall t ht) hs'

/-! ## Rasters whose rows run out of data -/

theorem version_turn (limits : Limits) : Within (Frame.same Picture.version) (turn limits) := by
  have hopens : JobProperty.Opens fun _ job => Within (Frame.same Picture.version) job :=
    Frame.same_opens (fun _ _ => rfl) fun _ _ => rfl
  have hrows : JobProperty.Rows fun _ job => Within (Frame.same Picture.version) job :=
    Frame.same_rows (fun _ _ => rfl) fun _ => rfl
  have hwalks : JobProperty.Walks (fun _ job => Within (Frame.same Picture.version) job) limits :=
    { hopens, hrows with
      setJpeg := fun _ _ _ => rfl
      finish := fun _ _ => rfl
      resize := fun _ _ _ _ => rfl
      limitCanvas := fun _ _ => .enforce _
      limitMemory := fun _ => .enforce _ }
  exact hwalks.turn

variable {f : Format} {u : Session Walk}

/-- The rows of a raster begin inside the data. If it runs out in them one byte is left at most. -/
theorem ReadsRows.inside (h : ReadsRows limits stop s f u t) (hs : s.work.cursor.Inside) :
    t.work.cursor.Inside ∧ (Raster.RunsOut f stop u → t.work.cursor.remaining ≤ 1) := by
  obtain ⟨op, s₁, s₂, hread, hcheck, hallow, hrows⟩ := h
  have hcode := (Opcode.advances_read s.work.picture.version s.work.cursor).1
  have hop : Dispatches stop s (.raster op) s₂ := ⟨s₁, hread, hcheck⟩
  rw [← hop.behind] at hcode
  obtain ⟨-, hs₂⟩ := hcode.moved hs
  have hopening : s₂.work.cursor.Forward u.work.cursor :=
    (within_allow Frame.forward_opens op).ok hallow
  obtain ⟨-, hu⟩ := hopening.moved hs₂
  obtain ⟨hforward, hpassed⟩ := Raster.readRows_passes hu hrows
  refine ⟨(hforward.moved hu).2, ?_⟩
  rintro ⟨w, hw, hshort⟩
  exact (hpassed w hw).short hshort

theorem ReadsRows.reads_length (h : ReadsRows limits stop s f u t)
    (hpacked : f.isPacked u.work.picture.rowBytes = true)
    (hheight : 0 < u.work.picture.declaredHeight) :
    Reads limits stop s .rowLength
      ⟨u.work.cursor.pos,
        (Raster.readLength u.work.picture.rowBytes u.work.cursor).2.pos⟩ := by
  obtain ⟨op, s₁, s₂, hread, hcheck, hallow, -⟩ := h
  exact .behind ⟨s₁, hread, hcheck⟩
    (.row hallow (mem_rowSessions hheight) (.length hpacked))

theorem ReadsRows.jpegOffsets (h : ReadsRows limits stop s f u t) :
    t.work.picture.jpegOffsets = s.work.picture.jpegOffsets := by
  obtain ⟨op, s₁, s₂, hread, hcheck, hallow, hrows⟩ := h
  have hopens : JobProperty.Opens fun _ job => Within (Frame.same Picture.jpegOffsets) job :=
    Frame.same_opens (fun _ _ => rfl) fun _ _ => rfl
  have hkeeps : JobProperty.Rows fun _ job => Within (Frame.same Picture.jpegOffsets) job :=
    Frame.same_rows (fun _ _ => rfl) fun _ => rfl
  have hopening := allow_opening hallow
  have hcode := (hopens.read (Opcode.advances_read _)).ok hread
  have hchecked := hopens.check.ok hcheck
  have hopened := (hopens.readOpening (fun _ _ _ _ => rfl) op).ok hopening
  exact ((hkeeps.readRows f).ok hrows).trans (hopened.trans (hchecked.trans hcode))

theorem turn_of_turns {n : Nat} (h : turns limits (n + 1) stop s = .ok () t)
    (hs : s.work.cursor.Inside) (hleft : s.work.cursor.remaining ≤ 1) :
    turn limits stop s = .ok false t := by
  rcases turns_succ_eq_ok h with hturn | ⟨v, hturn, -⟩
  · exact hturn
  · -- another turn would have to begin behind the last byte
    obtain ⟨hv, hpos⟩ := turn_moves hs hturn
    have hsource : v.work.cursor.source = s.work.cursor.source :=
      ((within_turn Frame.onward_rows).ok hturn).source
    rcases turn_eq_ok hturn with ⟨hfalse, -⟩ | ⟨_, _, _, goesOn, -, -, -, hmore⟩
    · cases hfalse
    · have hend : v.work.cursor.atEnd = true := by
        unfold Cursor.remaining at hleft
        rw [Cursor.atEnd, hsource, decide_eq_true_eq]
        omega
      rw [hend, Bool.not_true, Bool.and_false] at hmore
      cases hmore

/-- One byte in front of the end of the data stands between the bytes in front of it and nothing. -/
theorem between_last {c : Cursor} (h : c.remaining = 1) :
    ∃ front b, c = .between front [b] ∧ c.source.back? = some b ∧
      front.length + 1 = c.source.size := by
  obtain ⟨⟨bytes⟩, pos⟩ := c
  rcases bytes.eq_nil_or_concat' with rfl | ⟨front, b, rfl⟩
  · simp [Cursor.remaining] at h
  · obtain rfl : pos = front.length := by
      simp only [Cursor.remaining, List.size_toArray, List.length_append,
        List.length_singleton] at h
      omega
    exact ⟨front, b, rfl, by simp, by simp⟩

/-- Where the rows of a first raster run out of data no embedded JPEG data is found, unless the
last byte is left and is its code in version 1. -/
theorem jpegOffsets_runsOut {source : Source} {doc : Document}
    (hparse : Header.parse source = .ok (info, cursor))
    (hdoc : (decode source limits stop).result = .ok doc)
    (hreads : ReadsRows limits stop (entered info cursor) f u t)
    (hout : Raster.RunsOut f stop u) :
    doc.picture.jpegOffsets =
      if info.version = .one ∧ t.work.cursor.remaining = 1 ∧ source.back? = some 0x18
      then #[source.size + 2] else #[] := by
  obtain ⟨hsource, hheader, hinside⟩ := Header.parse_pos hparse
  rw [← hsource] at hinside
  obtain ⟨v, hturns, rfl⟩ := turns_of_decode hparse hdoc
  obtain ⟨n, hn⟩ : ∃ n, cursor.source.size = n + 2 := ⟨cursor.source.size - 2, by omega⟩
  rw [hn] at hturns
  obtain ⟨ht, hleft⟩ := hreads.inside (s := entered info cursor) hinside
  have hoffsets : t.work.picture.jpegOffsets = #[] := hreads.jpegOffsets
  have hturn := hreads.turn_eq
  have hversion : t.work.picture.version = info.version := (version_turn limits).ok hturn
  have hdata : t.work.cursor.source = source :=
    ((within_turn Frame.onward_rows).ok hturn).source.trans hsource
  rcases turns_behind hturn hturns with ⟨hmore, rfl⟩ | ⟨hmore, hrest⟩
  · -- the rows end with the data
    have hend : t.work.cursor.remaining = 0 := (Cursor.atEnd_iff _).mp (by simpa using hmore)
    rw [if_neg (by omega)]
    exact hoffsets
  · have hone : t.work.cursor.remaining = 1 := by
      have hsome : t.work.cursor.remaining ≠ 0 := fun hend => by
        rw [(Cursor.atEnd_iff _).mpr hend] at hmore
        cases hmore
      have := hleft hout
      omega
    obtain ⟨front, b, hcursor, hback, hlength⟩ := between_last hone
    have hafter := turn_lastByte ⟨hcursor, rfl⟩ (turn_of_turns hrest ht (hleft hout))
    rw [hdata] at hback hlength
    show v.work.picture.jpegOffsets = _
    simp only [hafter, hversion, hone, hback, Option.some.injEq, true_and]
    split
    · rw [Picture.withJpeg, hoffsets, ← hlength]
      rfl
    · exact hoffsets

/-! ## Whole pictures -/

/-- In a walk behind a header the code of an opcode stands behind all bytes that were read in the
turns in front of it, unless it is the last byte and was part of the length of a row. -/
theorem walks_passes {source : Source} {r : EStateM.Result Error (Session Walk) Unit}
    (hparse : Header.parse source = .ok (info, cursor))
    (hwalks : Walks limits stop info cursor visited r) :
    visited.Pairwise fun s t =>
      ∀ purpose span opcode, Reads limits stop s purpose span →
        (Opcode.read t.work.picture.version t.work.cursor).1 = some opcode →
          span.stop ≤ Opcode.offset t.work.picture.version t.work.cursor ∨
            info.version = .one ∧ purpose = .rowLength ∧ span.stop = source.size ∧
              Opcode.offset t.work.picture.version t.work.cursor + 1 = source.size := by
  obtain ⟨hsource, -, hinside⟩ := Header.parse_pos hparse
  rw [← hsource] at hinside
  cases hwalks with
  | refused => exact List.Pairwise.nil
  | @walked s _ _ henter hloop =>
    have hwork : s.work = start info cursor := enter_work henter
    have hcursor : s.work.cursor = cursor := congrArg Walk.cursor hwork
    rw [← hcursor] at hinside hsource
    obtain ⟨hforward, hpairs⟩ := loop_passes hloop hinside
    have hversion := loop_within (version_turn limits) hloop
    refine hpairs.imp_of_mem fun {t u} _ hu hpassed purpose span opcode hreads hopcode => ?_
    have hdata : u.work.cursor.source = source := (hforward u hu).source.trans hsource
    have hin : u.work.cursor.Inside := ((hforward u hu).moved hinside).2
    have hinfo : u.work.picture.version = info.version :=
      (hversion u hu).trans (congrArg (fun w : Walk => w.picture.version) hwork)
    rcases hpassed purpose span hreads with hle | ⟨hpurpose, hstop, hpos⟩
    · exact Or.inl (Nat.le_trans hle (Opcode.le_offset _ hin))
    · -- the last byte is no opcode in version 2
      cases hone : u.work.picture.version with
      | two =>
        rw [hone, read_two_none (by unfold Cursor.remaining; omega)] at hopcode
        cases hopcode
      | one =>
        rw [hdata] at hstop hpos
        exact Or.inr ⟨hinfo.symm.trans hone, hpurpose, hstop, hpos⟩

/-- The code of an opcode stands behind all bytes that were read for the opcodes in front of it,
unless it is the last byte, in version 1, and part of the length of a row. Embedded JPEG data is
found behind a first raster whose rows run out of data only where that byte is left and
is its code. -/
theorem decode_passes {source : Source} (h : Header.parse source = .ok (info, cursor))
    (limits : Limits) (stop : Stop) :
    (∀ visited r, Walks limits stop info cursor visited r → visited.Pairwise fun s t =>
      ∀ purpose span opcode, Reads limits stop s purpose span →
        (Opcode.read t.work.picture.version t.work.cursor).1 = some opcode →
          span.stop ≤ Opcode.offset t.work.picture.version t.work.cursor ∨
            info.version = .one ∧ purpose = .rowLength ∧ span.stop = source.size ∧
              Opcode.offset t.work.picture.version t.work.cursor + 1 = source.size) ∧
    ∀ (doc : Document) (f : Format) (u t : Session Walk),
      (decode source limits stop).result = .ok doc →
        ReadsRows limits stop (entered info cursor) f u t → Raster.RunsOut f stop u →
          doc.picture.jpegOffsets =
            if info.version = .one ∧ t.work.cursor.remaining = 1 ∧ source.back? = some 0x18
            then #[source.size + 2] else #[] :=
  ⟨fun _ _ hwalks => walks_passes h hwalks,
    fun _ _ _ _ hdoc hreads hout => jpegOffsets_runsOut h hdoc hreads hout⟩

def rereadHeader : HeaderBlock := .one (Vector.replicate 518 0) 1 8

/-- A packed bitmap of one row, of which only the length is there. It is the code of embedded JPEG
data. -/
def rereadRaster : List UInt8 :=
  [0x98, 0, 8, 0, 0, 0, 0, 0, 1, 0, 8] ++ List.replicate 18 0 ++ [0x18]

def rereadSource : Source := (rereadHeader.bytes ++ rereadRaster).toArray

theorem parse_reread :
    Header.parse rereadSource =
      .ok (rereadHeader.info, .between rereadHeader.bytes rereadRaster) :=
  Header.parse_header rereadHeader rereadRaster

def rereadStart : Session Walk :=
  entered rereadHeader.info (.between rereadHeader.bytes rereadRaster)

def rereadOpcode : Session Walk := sessionOf (Walk.read (Opcode.read .one) .never rereadStart)

def rereadRow : Session Walk :=
  sessionOf (allow .unlimited ⟨.packBitsRect, some 8, false⟩ .never
    { rereadOpcode with checks := rereadOpcode.checks + 1 })

def rereadEnd : Session Walk := sessionOf (Raster.readRows .bitmap .never rereadRow)

theorem readsRows_reread :
    ReadsRows .unlimited .never rereadStart .bitmap rereadRow rereadEnd := by
  have hread : Walk.read (Opcode.read .one) .never rereadStart =
      .ok (some (.raster ⟨.packBitsRect, some 8, false⟩)) rereadOpcode :=
    eq_ok_of_toOption (by decide +kernel)
  have hallow : allow .unlimited ⟨.packBitsRect, some 8, false⟩ .never
      { rereadOpcode with checks := rereadOpcode.checks + 1 } = .ok (some .bitmap) rereadRow :=
    eq_ok_of_toOption (by decide +kernel)
  have hrows : Raster.readRows .bitmap .never rereadRow = .ok () rereadEnd :=
    eq_ok_of_toOption (by decide +kernel)
  exact ⟨_, rereadOpcode, _, hread, check_passes _ _ rfl, hallow, hrows⟩

theorem walks_reread :
    ∃ r, Walks .unlimited .never rereadHeader.info (.between rereadHeader.bytes rereadRaster)
      [rereadStart, rereadEnd] r := by
  have hgoes : rereadEnd.work.cursor.atEnd = false := by decide +kernel
  have hfirst := readsRows_reread.turn_eq
  rw [hgoes] at hfirst
  obtain ⟨t, hlast⟩ : ∃ t, turn .unlimited .never rereadEnd = .ok false t :=
    ⟨_, eq_ok_of_toOption (by decide +kernel)⟩
  exact ⟨.ok () t, .walked (enter_unlimited _ _)
    (.again (turnStep_eq_inl.mpr hfirst) (.done (turnStep_last hlast)))⟩

theorem reads_reread :
    Reads .unlimited .never rereadStart .rowLength ⟨553, 554⟩ ∧
      Raster.RunsOut .bitmap .never rereadRow := by
  have hpacked : Format.isPacked .bitmap rereadRow.work.picture.rowBytes = true := by
    decide +kernel
  have hheight : 0 < rereadRow.work.picture.declaredHeight := by decide +kernel
  have hspan : (⟨rereadRow.work.cursor.pos,
      (Raster.readLength rereadRow.work.picture.rowBytes rereadRow.work.cursor).2.pos⟩ : Span) =
        ⟨553, 554⟩ := by decide +kernel
  have hlength : (Raster.readLength rereadRow.work.picture.rowBytes
      rereadRow.work.cursor).1 = some 24 := by decide +kernel
  have hreads := readsRows_reread.reads_length hpacked hheight
  rw [hspan] at hreads
  have hshort : Raster.Short .bitmap rereadRow.work.picture.rowBytes rereadRow.work.cursor :=
    Raster.short_of_readLength (c := rereadRow.work.cursor) hpacked hlength (by decide +kernel)
  exact ⟨hreads, rereadRow, mem_rowSessions hheight, hshort⟩

theorem decode_reread :
    ∃ doc, (decode rereadSource .unlimited .never).result = .ok doc ∧
      doc.picture.jpegOffsets = #[556] := by
  have hmap : (decode rereadSource .unlimited .never).result.toOption.map
      (·.picture.jpegOffsets) = some #[556] := by decide +kernel
  cases hresult : (decode rereadSource .unlimited .never).result with
  | error e =>
    rw [hresult] at hmap
    cases hmap
  | ok doc =>
    rw [hresult] at hmap
    exact ⟨doc, rfl, Option.some.inj hmap⟩

/-- The code of the opcode behind the bitmap is the length of its row. -/
theorem decode_passes_reread :
    Header.parse rereadSource =
        .ok (rereadHeader.info, .between rereadHeader.bytes rereadRaster) ∧
      Opcode.offset .one rereadEnd.work.cursor + 1 = rereadSource.size ∧
      ∃ doc, (decode rereadSource .unlimited .never).result = .ok doc ∧
        doc.picture.jpegOffsets = #[rereadSource.size + 2] := by
  obtain ⟨hpasses, hoffsets⟩ := decode_passes parse_reread .unlimited .never
  obtain ⟨r, hwalks⟩ := walks_reread
  obtain ⟨hreads, hout⟩ := reads_reread
  obtain ⟨doc, hdoc, -⟩ := decode_reread
  have hversion : rereadEnd.work.picture.version = .one := by decide +kernel
  have hopcode : (Opcode.read .one rereadEnd.work.cursor).1 = some .jpeg := by decide +kernel
  have hpair := List.rel_of_pairwise_cons (hpasses _ r hwalks) (List.mem_singleton_self _)
  rw [hversion] at hpair
  refine ⟨parse_reread, ?_, doc, hdoc, ?_⟩
  · rcases hpair _ _ _ hreads hopcode with hle | ⟨-, -, -, hlast⟩
    · exact absurd hle (by decide +kernel)
    · exact hlast
  · rw [hoffsets doc _ _ _ hdoc readsRows_reread hout,
      if_pos ⟨rfl, by decide +kernel, by decide +kernel⟩]

/-- A byte may be read twice, and a first raster whose rows run out of data may be followed by
embedded JPEG data. -/
theorem decode_rereads :
    (¬ ∀ (source : Source) (info : Info) (cursor : Cursor) (limits : Limits) (stop : Stop)
        (visited : List (Session Walk)) (r : EStateM.Result Error (Session Walk) Unit),
      Header.parse source = .ok (info, cursor) → Walks limits stop info cursor visited r →
        visited.Pairwise fun s t => ∀ purpose span opcode, Reads limits stop s purpose span →
          (Opcode.read t.work.picture.version t.work.cursor).1 = some opcode →
            span.stop ≤ Opcode.offset t.work.picture.version t.work.cursor) ∧
      ¬ ∀ (source : Source) (info : Info) (cursor : Cursor) (limits : Limits) (stop : Stop)
        (doc : Document) (f : Format) (u t : Session Walk),
        Header.parse source = .ok (info, cursor) → (decode source limits stop).result = .ok doc →
          ReadsRows limits stop (entered info cursor) f u t → Raster.RunsOut f stop u →
            doc.picture.jpegOffsets = #[] := by
  obtain ⟨r, hwalks⟩ := walks_reread
  obtain ⟨hreads, hout⟩ := reads_reread
  constructor
  · intro hall
    have hopcode : (Opcode.read rereadEnd.work.picture.version rereadEnd.work.cursor).1 =
        some .jpeg := by decide +kernel
    have hpairs := hall _ _ _ _ _ _ r parse_reread hwalks
    have hle := List.rel_of_pairwise_cons hpairs (List.mem_singleton_self _) _ _ _ hreads hopcode
    exact absurd hle (by decide +kernel)
  · intro hall
    obtain ⟨doc, hdoc, hoffsets⟩ := decode_reread
    have hnone := hall _ _ _ _ _ doc _ _ _ parse_reread hdoc readsRows_reread hout
    rw [hoffsets] at hnone
    cases hnone

end Decode
end Pict
