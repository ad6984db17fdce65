import Pict.Proofs.Decode.Late
import Pict.Proofs.Decode.Turns

/-!
# The last byte of a picture

A byte that is left where a turn begins is no opcode in version 2. In version 1 it is one, and with
nothing behind it that opcode leaves the picture alone, unless it stands for embedded JPEG
data: that starts behind the end then.

Results:
* `ofCode_end`: what a code stands for at the end of the data.
* `turn_lastByte`: what a turn makes of the last byte.
-/
namespace Pict

open Job

namespace Picture

def withJpeg (p : Picture) (offsets : List Nat) : Picture :=
  { p with jpegOffsets := p.jpegOffsets ++ offsets, channels := 3, interleaved := true }

end Picture

theorem Spans.offsets_end {c : Cursor} (h : c.remaining = 0) :
    offsets c.source c.pos = [c.pos + 2] := by
  have hwords : wordOffsets c.source c.pos = [] := by
    unfold Cursor.remaining at h
    rw [wordOffsets, h]
    rfl
  rw [offsets, behindEnd, hwords]
  rfl

namespace Decode

variable {limits : Limits} {stop : Stop} {s t : Session Walk} {front : List UInt8} {p : Picture}

theorem within_same {opcode : Opcode} (hraster : ∀ op, opcode ≠ .raster op)
    (hjpeg : opcode ≠ .jpeg) : Within (Frame.same id) (dispatch limits opcode) := by
  have h : JobProperty.Moves fun _ job => Within (Frame.same id) job := Frame.same_moves
  cases opcode with
  | raster op => exact absurd rfl (hraster op)
  | jpeg => exact absurd rfl hjpeg
  | clipRegion =>
    refine h.bind ?_ fun _ => h.pure true
    exact h.bind (h.read Reader.Advances.i16) fun _ => h.skipPayload _ _
  | longComment =>
    refine h.bind ?_ fun _ => h.pure true
    exact h.bind (h.skip 2) fun _ => h.bind (h.read Reader.Advances.i16) fun _ =>
      h.skipPayload _ _
  | shortSkip =>
    refine h.bind ?_ fun _ => h.pure true
    exact h.bind (h.read Reader.Advances.u8) fun _ => h.skipPayload _ _
  | terminator => exact h.pure false
  | unknown code => exact h.bind h.getCursor fun _ => h.bind (h.warn _) fun _ => h.pure true

/-! ## The last byte -/

/-- Version 2 reads no opcode where no more than two bytes are left. -/
theorem read_two_none {c : Cursor} (h : c.remaining ≤ 2) : (Opcode.read .two c).1 = none := by
  unfold Cursor.remaining at h
  have hmore : ∀ d : Cursor, d.source = c.source → c.source.size ≤ d.pos + 2 →
      Reader.moreThan 2 d = (none, d) := by
    intro d hsource hpos
    rw [Reader.moreThan, if_neg (by rw [hsource]; omega)]
  rw [Opcode.read, Reader.bind_apply, Opcode.readCode, Reader.bind_apply, Reader.align, Reader.move]
  dsimp only
  rw [Reader.bind_apply, hmore _ (by split <;> rfl) ?_]
  split
  · simp only [Cursor.skip, Cursor.seek]
    omega
  · omega

theorem read_end (version : Version) {c : Cursor} (h : c.remaining = 0) :
    (Opcode.read version c).1 = none := by
  cases version with
  | one => exact (Reader.Hungry.u8.bind _).bind _ c h
  | two => exact read_two_none (by omega)

/-- At the end of the data a code stands for an opcode without fields, or for none. Only one stands
for embedded JPEG data. -/
theorem ofCode_end (version : Version) (code : UInt16) {c : Cursor} (h : c.remaining = 0) :
    Opcode.ofCode version code c = (none, c) ∨
      ∃ opcode, Opcode.ofCode version code c = (some opcode, c) ∧
        (∀ op, opcode = .raster op → op.rowBytes = none) ∧ (opcode = .jpeg → code = 0x18) := by
  have hfields : ∀ kind, Opcode.readRaster kind version c = (none, c) := by
    intro kind
    have hword : c.source.u16? c.pos = none := by
      have hsome := c.source.isSome_u16?_iff c.pos
      unfold Cursor.remaining at h
      cases hword : c.source.u16? c.pos with
      | none => rfl
      | some w =>
        rw [hword] at hsome
        have := hsome.mp rfl
        omega
    rw [Opcode.readRaster, Reader.bind_apply, Reader.u16, Reader.field_none hword]
  unfold Opcode.ofCode
  split
  · exact Or.inr ⟨.clipRegion, rfl, nofun, nofun⟩
  · exact Or.inr ⟨.jpeg, rfl, nofun, fun _ => rfl⟩
  · exact Or.inl (hfields _)
  · exact Or.inl (hfields _)
  · exact Or.inl (hfields _)
  · exact Or.inl (hfields _)
  · refine Or.inr ⟨_, rfl, ?_, nofun⟩
    rintro op ⟨⟩
    rfl
  · exact Or.inr ⟨.longComment, rfl, nofun, nofun⟩
  · exact Or.inr ⟨.terminator, rfl, nofun, nofun⟩
  · exact Or.inr ⟨.shortSkip, rfl, nofun, nofun⟩
  · exact Or.inr ⟨.shortSkip, rfl, nofun, nofun⟩
  · exact Or.inr ⟨.unknown code, rfl, nofun, nofun⟩

theorem raster_end (limits : Limits) (stop : Stop) {op : RasterOp} (hop : op.rowBytes = none)
    (hs : s.work.cursor.remaining = 0) :
    ∃ t, raster limits op stop s = .ok () t ∧ t.work.picture = s.work.picture := by
  let u : Session Walk :=
    { s with work := { s.work with cursor := s.work.cursor.skip 6 } }
  have htake : Raster.takeRowBytes op.rowBytes stop s = .ok () u := by
    rw [hop]
    rfl
  have hend : u.work.cursor.remaining = 0 := by
    have hle := s.work.cursor.remaining_skip 6
    show (s.work.cursor.skip 6).remaining = 0
    omega
  have hread := Walk.read_eq stop u (Raster.hungry_readBounds _ hend)
  exact ⟨_, bind_eq_ok.mpr ⟨none, _, bind_eq_ok.mpr ⟨(), u, htake,
    bind_eq_ok.mpr ⟨none, _, hread, rfl⟩⟩, rfl⟩, rfl⟩

/-- At the end of the data an opcode without fields does nothing to the picture, unless embedded
JPEG data begins with it. -/
theorem dispatch_end {opcode : Opcode} {goesOn : Bool}
    (hfields : ∀ op, opcode = .raster op → op.rowBytes = none) (hs : s.work.cursor.remaining = 0)
    (h : dispatch limits opcode stop s = .ok goesOn t) :
    t.work.picture =
      if opcode = .jpeg then s.work.picture.withJpeg [s.work.cursor.pos + 2]
      else s.work.picture := by
  by_cases hraster : ∃ op, opcode = .raster op
  · obtain ⟨op, rfl⟩ := hraster
    obtain ⟨u, hu, hsame⟩ := raster_end limits stop (hfields op rfl) hs
    have hdone : dispatch limits (.raster op) stop s = .ok true u :=
      bind_eq_ok.mpr ⟨(), u, hu, rfl⟩
    obtain ⟨-, rfl⟩ := Job.ok_unique hdone h
    rw [if_neg nofun]
    exact hsame
  by_cases hjpeg : opcode = .jpeg
  · subst hjpeg
    obtain ⟨-, rfl⟩ := EStateM.Result.ok.inj h
    rw [if_pos rfl, ← Spans.offsets_end hs]
    rfl
  · rw [if_neg hjpeg]
    exact (within_same (fun op hop => hraster ⟨op, hop⟩) hjpeg).ok h

/-- In version 1 a single byte is a code. -/
theorem read_one_last (front : List UInt8) (b : UInt8) :
    Opcode.read .one (.between front [b]) =
      Opcode.ofCode .one b.toUInt16 (.between (front ++ [b]) []) := by
  have hbyte : Reader.u8 (.between front [b]) = (some b, .between (front ++ [b]) []) :=
    Reader.Takes.u8 b front []
  rw [Opcode.read, Reader.bind_apply, Opcode.readCode, Reader.bind_apply, hbyte]
  rfl

/-- The opcode of a single byte, which stands for embedded JPEG data if the byte is its code. -/
theorem read_lastByte {version : Version} {front : List UInt8} {b : UInt8} {opcode : Opcode}
    {c : Cursor} (h : Opcode.read version (.between front [b]) = (some opcode, c)) :
    version = .one ∧ c = .between (front ++ [b]) [] ∧ (opcode = .jpeg ↔ b = 0x18) ∧
      ∀ op, opcode = .raster op → op.rowBytes = none := by
  cases version with
  | two =>
    have hleft : (Cursor.between front [b]).remaining ≤ 2 := by
      rw [Cursor.remaining_between]
      exact Nat.le_succ 1
    have hnone := read_two_none hleft
    rw [h] at hnone
    cases hnone
  | one =>
    rw [read_one_last] at h
    rcases ofCode_end .one b.toUInt16 (Cursor.remaining_between (front ++ [b]) []) with
      hnone | ⟨opcode', hsome, hfields, hjpeg⟩
    · rw [hnone] at h
      cases h
    rw [hsome] at h
    obtain ⟨hopcode, rfl⟩ := Prod.mk.inj h
    obtain rfl := Option.some.inj hopcode
    refine ⟨rfl, rfl, ⟨fun hcode => ?_, ?_⟩, hfields⟩
    · exact UInt8.toNat_inj.mp (congrArg UInt16.toNat (hjpeg hcode))
    · rintro rfl
      cases hsome
      rfl

/-- A byte that ends the data is taken for an opcode in version 1. Nothing comes of it but embedded
JPEG data. -/
theorem turn_lastByte {b : UInt8} {more : Bool} (hs : Stands s front [b] p)
    (h : turn limits stop s = .ok more t) :
    t.work.picture =
      if p.version = .one ∧ b = 0x18 then p.withJpeg [front.length + 3] else p := by
  have hpicture := hs.picture
  rcases turn_eq_ok h with ⟨-, hread⟩ | ⟨opcode, s₁, s₂, goesOn, hread, hcheck, hdispatch, -⟩
  · obtain ⟨hnone, rfl⟩ := Walk.read_eq_ok.mp hread
    rw [if_neg]
    · exact hpicture
    · -- the code of embedded JPEG data is read
      rintro ⟨hone, rfl⟩
      rw [hpicture, hone, hs.cursor, read_one_last] at hnone
      cases hnone
  · rw [Walk.read_apply, hpicture, hs.cursor] at hread
    obtain ⟨hsome, rfl⟩ := EStateM.Result.ok.inj hread
    obtain ⟨hone, hcursor, hjpeg, hfields⟩ := read_lastByte (Prod.ext hsome rfl)
    have hwork := check_work hcheck
    have hbehind : s₂.work.cursor = .between (front ++ [b]) [] :=
      (congrArg Walk.cursor hwork).trans hcursor
    have hkept : s₂.work.picture = p := (congrArg Walk.picture hwork).trans hpicture
    have hend : s₂.work.cursor.remaining = 0 := by
      rw [hbehind]
      exact Cursor.remaining_between _ _
    rw [dispatch_end hfields hend hdispatch, hkept, hbehind, Cursor.between_pos,
      List.length_append, List.length_singleton]
    simp only [hone, hjpeg, true_and]

end Decode
end Pict
