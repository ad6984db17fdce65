import Pict.Proofs.Stream.Between
import Pict.Raster.Opening
import Pict.Raster.Rows
import Pict.Stream.Header

/-!
# How far readers move

A cursor is inside its data when its position is at most the size (`Inside`).
From there a reader only moves forward (`Forward`), and never out. Reading rows
may go back, but only from the end of the data to its last byte (`Onward`).
`Reader.Advances n` says that a reader moves forward however it ends, and by at
least `n` bytes when it answers.

Results:
* `Advances.bind`: what readers in a row advance by, adds up.
* `Opcode.advances_read`, `Raster.advances_readBounds`: an opcode takes at least one byte,
  the bounds of a raster at least eight.
* `Header.parse_pos`: a header ends inside the data, behind its version.
-/
namespace Pict

namespace Cursor

variable {c d e : Cursor}

/-- The cursor is not behind the end of its data. -/
def Inside (c : Cursor) : Prop := c.pos ≤ c.source.size

/-- From inside the data `d` is not in front of `c`, and inside as well. -/
structure Forward (c d : Cursor) : Prop where
  source : d.source = c.source
  moved : c.Inside → c.pos ≤ d.pos ∧ d.Inside

/-- Like `Forward`, but from the end of the data `d` may be back at the last byte. -/
structure Onward (c d : Cursor) : Prop where
  source : d.source = c.source
  moved : c.Inside → min c.pos (c.source.size - 1) ≤ d.pos ∧ d.Inside

namespace Forward

theorem refl (c : Cursor) : c.Forward c := ⟨rfl, fun h => ⟨Nat.le_refl _, h⟩⟩

theorem trans (h : c.Forward d) (h' : d.Forward e) : c.Forward e := by
  refine ⟨h'.source.trans h.source, fun hc => ?_⟩
  obtain ⟨hcd, hd⟩ := h.moved hc
  obtain ⟨hde, he⟩ := h'.moved hd
  exact ⟨Nat.le_trans hcd hde, he⟩

theorem onward (h : c.Forward d) : c.Onward d := by
  refine ⟨h.source, fun hc => ?_⟩
  obtain ⟨hcd, hd⟩ := h.moved hc
  exact ⟨Nat.le_trans (Nat.min_le_left _ _) hcd, hd⟩

theorem seek {p : Nat} (h : c.Inside → c.pos ≤ p) : c.Forward (c.seek p) := by
  refine ⟨rfl, fun hc => ⟨?_, c.seek_pos_le p⟩⟩
  have hp := h hc
  unfold Inside at hc
  show c.pos ≤ min p c.source.size
  omega

theorem skip (c : Cursor) (n : Nat) : c.Forward (c.skip n) :=
  seek fun _ => Nat.le_add_right c.pos n

theorem remaining_le (h : c.Forward d) (hc : c.Inside) : d.remaining ≤ c.remaining := by
  have := (h.moved hc).1
  unfold remaining
  rw [h.source]
  omega

end Forward

namespace Onward

theorem refl (c : Cursor) : c.Onward c := (Forward.refl c).onward

theorem trans (h : c.Onward d) (h' : d.Onward e) : c.Onward e := by
  refine ⟨h'.source.trans h.source, fun hc => ?_⟩
  obtain ⟨hcd, hd⟩ := h.moved hc
  obtain ⟨hde, he⟩ := h'.moved hd
  rw [h.source] at hde
  exact ⟨by omega, he⟩

theorem park (c : Cursor) : c.Onward (c.seek (c.source.size - 1)) := by
  refine ⟨rfl, fun _ => ⟨?_, c.seek_pos_le _⟩⟩
  show min c.pos (c.source.size - 1) ≤ min (c.source.size - 1) c.source.size
  omega

end Onward
end Cursor

/-! ## Readers -/

namespace Reader

variable {α β : Type} {n m : Nat}

/-- However it ends, the reader moves forward, and by `n` bytes or more when it answers. -/
def Advances (n : Nat) (r : Reader α) : Prop :=
  ∀ c : Cursor, c.Forward (r c).2 ∧
    (c.Inside → (r c).1.isSome → c.pos + n ≤ (r c).2.pos)

namespace Advances

theorem mono {r : Reader α} (h : Advances n r) (hle : m ≤ n) : Advances m r := by
  intro c
  refine ⟨(h c).1, fun hc hr => ?_⟩
  have := (h c).2 hc hr
  omega

theorem remaining_le {r : Reader α} (h : Advances n r) {c : Cursor} (hc : c.Inside)
    (hsome : (r c).1.isSome) : (r c).2.remaining + n ≤ c.remaining := by
  obtain ⟨hforward, hcount⟩ := h c
  have hpos := hcount hc hsome
  have hinside : (r c).2.pos ≤ (r c).2.source.size := (hforward.moved hc).2
  unfold Cursor.remaining
  rw [hforward.source] at hinside ⊢
  omega

theorem pure (a : α) : Advances 0 (Pure.pure a : Reader α) :=
  fun c => ⟨.refl c, fun _ _ => Nat.le_refl _⟩

theorem bind {r : Reader α} {f : α → Reader β} (h : Advances n r) (h' : ∀ a, Advances m (f a)) :
    Advances (n + m) (r >>= f) := by
  intro c
  obtain ⟨hforward, hcount⟩ := h c
  rw [bind_apply]
  rcases hr : r c with ⟨a, d⟩
  rw [hr] at hforward hcount
  cases a with
  | none => exact ⟨hforward, fun _ hsome => absurd hsome Bool.false_ne_true⟩
  | some a =>
    obtain ⟨hforward', hcount'⟩ := h' a d
    refine ⟨hforward.trans hforward', fun hc hsome => ?_⟩
    have h1 : c.pos + n ≤ d.pos := hcount hc rfl
    have h2 := hcount' (hforward.moved hc).2 hsome
    dsimp only
    omega

theorem bind_zero {r : Reader α} {f : α → Reader β} (h : Advances 0 r)
    (h' : ∀ a, Advances m (f a)) : Advances m (r >>= f) := by
  have := bind h h'
  rwa [Nat.zero_add] at this

theorem field {field? : Source → Nat → Option α}
    (h : ∀ src p, (field? src p).isSome → p + n ≤ src.size) :
    Advances n (Reader.field n field?) := by
  intro c
  cases hc : field? c.source c.pos with
  | none =>
    rw [field_none hc]
    exact ⟨.refl c, fun _ hsome => absurd hsome Bool.false_ne_true⟩
  | some a =>
    have hle : c.pos + n ≤ c.source.size := h c.source c.pos (by rw [hc]; rfl)
    rw [field_some hc]
    exact ⟨⟨rfl, fun _ => ⟨Nat.le_add_right _ _, hle⟩⟩, fun _ _ => Nat.le_refl _⟩

theorem u8 : Advances 1 Reader.u8 := field fun src p => (src.isSome_u8?_iff p).mp

theorem u16 : Advances 2 Reader.u16 := field fun src p => (src.isSome_u16?_iff p).mp

theorem i16 : Advances 2 Reader.i16 := by
  refine field fun src p h => (src.isSome_u16?_iff p).mp ?_
  rwa [Source.i16?, Option.isSome_map] at h

theorem u32 : Advances 4 Reader.u32 := field fun src p => (src.isSome_u32?_iff p).mp

theorem move {f : Cursor → Cursor} (h : ∀ c : Cursor, c.Forward (f c)) :
    Advances 0 (Reader.move f) :=
  fun c => ⟨h c, fun hc _ => ((h c).moved hc).1⟩

theorem skip (n : Nat) : Advances 0 (Reader.skip n) := move fun c => .skip c n

theorem align : Advances 0 Reader.align := by
  refine move fun c => ?_
  split
  · exact .skip c 1
  · exact .refl c

theorem moreThan (n : Nat) : Advances 0 (Reader.moreThan n) :=
  fun c => ⟨.refl c, fun _ _ => Nat.le_refl _⟩

end Advances
end Reader

open Reader

/-! ## Opcodes, openings, lengths -/

theorem Opcode.advances_readCode (version : Version) : Advances 1 (readCode version) := by
  cases version with
  | one => exact Advances.u8.bind fun _ => Advances.pure _
  | two =>
    refine Advances.align.bind_zero fun _ => ?_
    refine (Advances.moreThan 2).bind_zero fun _ => ?_
    exact Advances.u16.mono (by decide)

theorem Opcode.advances_ofCode (version : Version) (code : UInt16) :
    Advances 0 (ofCode version code) := by
  have hraster : ∀ kind, Advances 0 (readRaster kind version) := fun kind =>
    (Advances.u16.bind fun _ => Advances.pure _).mono (Nat.zero_le _)
  unfold ofCode
  split <;> first | exact hraster _ | exact Advances.pure _

/-- An opcode takes at least one byte. -/
theorem Opcode.advances_read (version : Version) : Advances 1 (read version) :=
  (advances_readCode version).bind fun code => advances_ofCode version code

/-- The bounds of a raster take at least their eight bytes. -/
theorem Raster.advances_readBounds : Advances 8 readBounds := by
  refine Advances.i16.bind (m := 6) fun _ => ?_
  refine Advances.i16.bind (m := 4) fun _ => ?_
  refine Advances.i16.bind (m := 2) fun _ => ?_
  refine Advances.i16.bind (m := 0) fun _ => ?_
  exact (Advances.skip 18).bind_zero fun _ => Advances.pure _

theorem Format.advances_read : Advances 4 Format.read := by
  refine Advances.i16.bind (m := 2) fun _ => ?_
  refine Advances.i16.bind (m := 0) fun _ => ?_
  exact (Advances.skip 14).bind_zero fun _ => Advances.pure _

theorem Palette.advances_readDeclared : Advances 4 readDeclared := by
  refine (Advances.skip 4).bind_zero fun _ => ?_
  refine Advances.u16.bind (m := 2) fun _ => ?_
  exact Advances.i16.bind (m := 0) fun _ => Advances.pure _

theorem Palette.advances_readEntry : Advances 3 readEntry := by
  refine (Advances.skip 2).bind_zero fun _ => ?_
  refine Advances.u8.bind (m := 2) fun _ => ?_
  refine (Advances.skip 1).bind_zero fun _ => ?_
  refine Advances.u8.bind (m := 1) fun _ => ?_
  refine (Advances.skip 1).bind_zero fun _ => ?_
  refine Advances.u8.bind (m := 0) fun _ => ?_
  exact (Advances.skip 1).bind_zero fun _ => Advances.pure _

theorem Palette.advances_readEntries : ∀ n : Nat, Advances 0 (readEntries n)
  | 0 => Advances.pure []
  | n + 1 => by
    refine (advances_readEntry.mono (Nat.zero_le _)).bind_zero fun _ => ?_
    exact (advances_readEntries n).bind_zero fun _ => Advances.pure _

theorem Raster.advances_readLength (rowBytes : Nat) : Advances 1 (readLength rowBytes) := by
  unfold readLength
  split
  · exact Advances.i16.mono (by decide)
  · exact Advances.u8.bind fun _ => Advances.pure _

/-! ## The header -/

namespace Header

theorem advances_readExtended (width height : Nat) :
    Advances 12 (readExtended width height) := by
  refine (Advances.skip 6).bind_zero fun _ => ?_
  refine Advances.u32.bind (m := 8) fun _ => ?_
  refine Advances.u32.bind (m := 4) fun _ => ?_
  refine (Advances.skip 4).bind_zero fun _ => ?_
  refine Advances.i16.bind (m := 2) fun _ => ?_
  refine Advances.i16.bind (m := 0) fun _ => ?_
  exact (Advances.skip 4).bind_zero fun _ => Advances.pure _

def readFrame : Reader (Except Error Info) := do
  let height ← Reader.i16
  let width ← Reader.i16
  let code ← Reader.u8
  let number ← Reader.u8
  match code, number with
  | 0x11, 0x01 =>
    pure (.ok { width := width.toNat, height := height.toNat, version := .one, resolution := none })
  | 0x00, 0x11 => do
    let marker ← Reader.u16
    if marker = versionTwoMarker then
      let info ← readExtended width.toNat height.toNat
      pure (.ok info)
    else pure (.error (.invalidVersion marker))
  | _, _ => pure (.error .unrecognizedFormat)

theorem read_start (source : Source) :
    read ⟨source, 0⟩ = readFrame ⟨source, min frameOffset source.size⟩ := by
  have hread : read = (Reader.seek frameOffset >>= fun _ => readFrame) := rfl
  rw [hread, Reader.bind_apply]
  rfl

theorem advances_readFrame : Advances 6 readFrame := by
  refine Advances.i16.bind (m := 4) fun height => ?_
  refine Advances.i16.bind (m := 2) fun width => ?_
  refine Advances.u8.bind (m := 1) fun code => ?_
  refine Advances.u8.bind (m := 0) fun number => ?_
  split
  · exact Advances.pure _
  · refine (Advances.u16.mono (Nat.zero_le _)).bind_zero fun marker => ?_
    split
    · refine ((advances_readExtended _ _).mono (Nat.zero_le _)).bind_zero fun _ => ?_
      exact Advances.pure _
    · exact Advances.pure _
  · exact Advances.pure _

/-- Behind a header the cursor is inside the data and behind the version. -/
theorem parse_pos {source : Source} {info : Info} {cursor : Cursor}
    (h : parse source = .ok (info, cursor)) :
    cursor.source = source ∧ 524 ≤ cursor.pos ∧ cursor.pos ≤ source.size := by
  obtain ⟨hforward, hcount⟩ := advances_readFrame ⟨source, min frameOffset source.size⟩
  have hinside : Cursor.Inside ⟨source, min frameOffset source.size⟩ := Nat.min_le_right _ _
  unfold parse at h
  rw [← read_start] at hforward hcount
  rcases hr : read ⟨source, 0⟩ with ⟨answer, d⟩
  rw [hr] at h hforward hcount
  rcases answer with _ | e | info'
  · cases h
  · cases h
  · obtain ⟨-, rfl⟩ := Prod.mk.inj (Except.ok.inj h)
    have hsource : d.source = source := hforward.source
    have hpos : min frameOffset source.size + 6 ≤ d.pos := hcount hinside rfl
    have hle : d.pos ≤ d.source.size := (hforward.moved hinside).2
    rw [hsource] at hle
    refine ⟨hsource, ?_, hle⟩
    unfold frameOffset at hpos
    omega

end Header
end Pict
