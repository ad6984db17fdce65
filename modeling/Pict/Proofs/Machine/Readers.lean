import Pict.Proofs.Machine.Checked
import Pict.Proofs.Stream.Forward

/-!
# Readers on a machine

Positions are sizes, the edges of a rectangle are words of 32 bits, and a cursor behind the
end of its data is a fault.

Results:
* `readHeader_ok`, `agrees_readOpcode` and the lemmas beside them: from inside of the
  data no reader faults, nor leaves the data; and what it reads is as large as its field.
-/
namespace Pict.Machine

variable {α β : Type}

/-- A reader that may fault. -/
abbrev CheckedReader := OptionT (StateT Cursor Checked)

namespace CheckedReader

def place (c : Cursor) : Checked Cursor :=
  if c.pos ≤ c.source.size then .ok c else .error .outside

/-- A reader with nothing in it that could fault, but for where it leaves the cursor. -/
def ofReader (r : Reader α) : CheckedReader α := fun c => do
  let d ← place (r c).2
  pure ((r c).1, d)

def u8 : CheckedReader UInt8 := fun c =>
  match c.source.u8? c.pos with
  | none => pure (none, c)
  | some b => do
    let pos ← usize (c.pos + 1)
    let d ← place { c with pos }
    pure (some b, d)

def skip (n : Nat) : CheckedReader Unit :=
  ofReader (Reader.move fun c => c.seek (saturated (c.pos + n)))

def align : CheckedReader Unit := fun c =>
  if c.pos % 2 = 1 then skip 1 c else pure (some (), c)

def moreThan (n : Nat) : CheckedReader Unit := fun c => do
  let till ← usize (c.pos + n)
  pure (if till < c.source.size then some () else none, c)

def compute (c : Checked α) : CheckedReader α := fun cursor => do
  let a ← c
  pure (some a, cursor)

end CheckedReader

open CheckedReader

/-- A cursor inside of data that are not too long. -/
structure Tame (c : Cursor) : Prop where
  inside : c.Inside
  short : c.source.size < 2 ^ 31

/-- From a tame cursor on `m` does not fault and does what `r` does, which moves forward; and
`Q` holds of what is read. -/
def Agrees (m : CheckedReader α) (r : Reader α) (Q : α → Prop) : Prop :=
  ∀ c : Cursor, Tame c →
    m c = .ok (r c) ∧ c.Forward (r c).2 ∧ ∀ a : α, (r c).1 = some a → Q a

theorem Tame.onward {c d : Cursor} (h : Tame c) (hd : c.Onward d) : Tame d :=
  ⟨(hd.moved h.inside).2, by rw [hd.source]; exact h.short⟩

theorem Tame.pos_lt {c : Cursor} (h : Tame c) : c.pos < 2 ^ 31 :=
  Nat.lt_of_le_of_lt h.inside h.short

theorem place_ok {c : Cursor} (h : Tame c) : place c = .ok c := if_pos h.inside

namespace Agrees

variable {m : CheckedReader α} {r : Reader α} {Q : α → Prop}

theorem pure {a : α} (h : Q a) : Agrees (Pure.pure a) (Pure.pure a) Q := by
  refine fun c _ => ⟨rfl, .refl c, fun b hb => ?_⟩
  obtain rfl := Option.some.inj hb
  exact h

theorem bind {f' : α → CheckedReader β} {f : α → Reader β} {R : β → Prop} (h : Agrees m r Q)
    (h' : ∀ a, Q a → Agrees (f' a) (f a) R) : Agrees (m >>= f') (r >>= f) R := by
  intro c hc
  obtain ⟨hsame, hforward, hQ⟩ := h c hc
  have hbind : (m >>= f') c = m c >>= fun x : Option α × Cursor =>
      match x with
      | (some a, d) => f' a d
      | (none, d) => Pure.pure (none, d) := by
    show (m c >>= _) = _
    congr 1
    funext ⟨a, d⟩
    cases a <;> rfl
  rw [hbind, hsame, ok_bind, Reader.bind_apply]
  rcases hr : r c with ⟨a, d⟩
  rw [hr] at hforward hQ
  cases a with
  | none => exact ⟨rfl, hforward, fun b hb => by cases hb⟩
  | some a =>
    obtain ⟨hsame', hforward', hR⟩ := h' a (hQ a rfl) d (hc.onward hforward.onward)
    exact ⟨hsame', hforward.trans hforward', hR⟩

/-- A reader with nothing in it that could fault moves forward. -/
theorem ofReader {n : Nat} (h : r.Advances n) (hQ : ∀ c a, (r c).1 = some a → Q a) :
    Agrees (CheckedReader.ofReader r) r Q := by
  intro c hc
  obtain ⟨hforward, -⟩ := h c
  refine ⟨?_, hforward, hQ c⟩
  rw [CheckedReader.ofReader, place_ok (hc.onward hforward.onward)]
  rfl

theorem compute {c : Checked β} {b : β} {f : β → CheckedReader α} (hc : c = .ok b)
    (h : Agrees (f b) r Q) : Agrees (CheckedReader.compute c >>= f) r Q := by
  intro cursor hcursor
  have hbind : (CheckedReader.compute c >>= f) cursor = f b cursor := by
    rw [hc]
    rfl
  rw [hbind]
  exact h cursor hcursor

theorem u8 : Agrees CheckedReader.u8 Reader.u8 fun _ => True := by
  intro c hc
  refine ⟨?_, (Reader.Advances.u8 c).1, fun _ _ => trivial⟩
  have hinside := (hc.onward (Reader.Advances.u8 c).1.onward)
  unfold CheckedReader.u8
  rw [Reader.u8] at hinside ⊢
  cases hb : c.source.u8? c.pos with
  | none =>
    rw [Reader.field_none hb]
    rfl
  | some b =>
    rw [Reader.field_some hb] at hinside ⊢
    have hpos := hc.pos_lt
    dsimp only
    rw [usize_ok (by omega), ok_bind, place_ok hinside]
    rfl

theorem skip (n : Nat) (hn : n < 2 ^ 63) :
    Agrees (CheckedReader.skip n) (Reader.skip n) fun _ => True := by
  intro c hc
  have hpos := hc.pos_lt
  refine ⟨?_, (Reader.Advances.skip n c).1, fun _ _ => trivial⟩
  have hskip : CheckedReader.ofReader (Reader.move fun c => c.seek (saturated (c.pos + n))) c =
      CheckedReader.ofReader (Reader.skip n) c := by
    rw [CheckedReader.ofReader, CheckedReader.ofReader, Reader.skip, Reader.move, Reader.move,
      saturated_of_lt (by omega), Cursor.skip]
  rw [CheckedReader.skip, hskip]
  exact (ofReader (Q := fun _ => True) (Reader.Advances.skip n) (fun _ _ _ => trivial) c hc).1

theorem align : Agrees CheckedReader.align Reader.align fun _ => True := by
  intro c hc
  refine ⟨?_, (Reader.Advances.align c).1, fun _ _ => trivial⟩
  rw [CheckedReader.align, Reader.align, Reader.move]
  by_cases hodd : c.pos % 2 = 1
  · rw [if_pos hodd, if_pos hodd, (skip 1 (by decide) c hc).1]
    rfl
  · rw [if_neg hodd, if_neg hodd]
    rfl

theorem moreThan (n : Nat) (hn : n < 2 ^ 63) :
    Agrees (CheckedReader.moreThan n) (Reader.moreThan n) fun _ => True := by
  intro c hc
  have hpos := hc.pos_lt
  refine ⟨?_, .refl c, fun _ _ => trivial⟩
  rw [CheckedReader.moreThan, usize_ok (by omega), ok_bind]
  rfl

end Agrees

/-! ## Fields -/

section
variable {n : Nat} {c : Cursor} {a : α}

theorem field_eq_some {field? : Source → Nat → Option α}
    (h : (Reader.field n field? c).1 = some a) : field? c.source c.pos = some a := by
  cases hfield : field? c.source c.pos with
  | none =>
    rw [Reader.field_none hfield] at h
    cases h
  | some b =>
    rw [Reader.field_some hfield] at h
    exact h

end

def IsShort (n : Int) : Prop := -2 ^ 15 ≤ n ∧ n < 2 ^ 15

theorem isShort_signed (w : UInt16) : IsShort (signed w) := by
  have hw := w.toNat_lt
  unfold IsShort signed
  split <;> omega

theorem IsShort.toNat_lt {n : Int} (h : IsShort n) : n.toNat < 2 ^ 15 := by
  unfold IsShort at h
  omega

namespace Agrees

theorem u16 : Agrees (CheckedReader.ofReader Reader.u16) Reader.u16 fun _ => True :=
  ofReader Reader.Advances.u16 fun _ _ _ => trivial

theorem u32 : Agrees (CheckedReader.ofReader Reader.u32) Reader.u32 fun _ => True :=
  ofReader Reader.Advances.u32 fun _ _ _ => trivial

theorem i16 : Agrees (CheckedReader.ofReader Reader.i16) Reader.i16 IsShort := by
  refine ofReader Reader.Advances.i16 fun c a h => ?_
  obtain ⟨w, -, rfl⟩ := Option.map_eq_some_iff.mp (field_eq_some h)
  exact isShort_signed w

end Agrees

/-! ## The header -/

section
open Header

def readExtended (width height : Nat) : CheckedReader Info := do
  skip 6
  let horizontal ← ofReader Reader.u32
  let vertical ← ofReader Reader.u32
  skip 4
  let bottom ← ofReader Reader.i16
  let right ← ofReader Reader.i16
  skip 4
  pure
    { width := override width right
      height := override height bottom
      version := .two
      resolution := some ⟨Binary32.ofFixed horizontal, Binary32.ofFixed vertical⟩ }

def readFrame : CheckedReader (Except Error Info) := do
  let height ← ofReader Reader.i16
  let width ← ofReader Reader.i16
  let code ← u8
  let number ← u8
  if code = 0x11 ∧ number = 0x01 then
    pure (.ok { width := width.toNat, height := height.toNat, version := .one, resolution := none })
  else if code = 0x00 ∧ number = 0x11 then do
    let marker ← ofReader Reader.u16
    if marker = versionTwoMarker then
      let info ← readExtended width.toNat height.toNat
      pure (.ok info)
    else pure (.error (.invalidVersion marker))
  else pure (.error .unrecognizedFormat)

def readHeader : CheckedReader (Except Error Info) := do
  ofReader (Reader.seek frameOffset)
  readFrame

def SmallInfo (info : Info) : Prop := info.width < 2 ^ 15 ∧ info.height < 2 ^ 15

theorem override_lt {size : Nat} {value : Int} (h : size < 2 ^ 16) (h' : value < 2 ^ 16) :
    override size value < 2 ^ 16 := by
  unfold override
  split <;> omega

theorem agrees_readExtended {width height : Nat} (hwidth : width < 2 ^ 15)
    (hheight : height < 2 ^ 15) :
    Agrees (readExtended width height) (Header.readExtended width height) SmallInfo := by
  refine (Agrees.skip 6 (by decide)).bind fun _ _ => ?_
  refine Agrees.u32.bind fun horizontal _ => ?_
  refine Agrees.u32.bind fun vertical _ => ?_
  refine (Agrees.skip 4 (by decide)).bind fun _ _ => ?_
  refine Agrees.i16.bind fun bottom hbottom => ?_
  refine Agrees.i16.bind fun right hright => ?_
  refine (Agrees.skip 4 (by decide)).bind fun _ _ => ?_
  refine Agrees.pure ⟨?_, ?_⟩ <;> dsimp only [override] <;> split
  · exact hright.toNat_lt
  · exact hwidth
  · exact hbottom.toNat_lt
  · exact hheight

theorem agrees_readFrame :
    Agrees readFrame Header.readFrame fun r => ∀ info, r = .ok info → SmallInfo info := by
  refine Agrees.i16.bind fun height hheight => ?_
  refine Agrees.i16.bind fun width hwidth => ?_
  refine Agrees.u8.bind fun code _ => ?_
  refine Agrees.u8.bind fun number _ => ?_
  by_cases hone : code = 0x11 ∧ number = 0x01
  · rw [if_pos hone]
    obtain ⟨rfl, rfl⟩ := hone
    refine Agrees.pure fun info hinfo => ?_
    obtain rfl := Except.ok.inj hinfo
    exact ⟨hwidth.toNat_lt, hheight.toNat_lt⟩
  rw [if_neg hone]
  by_cases htwo : code = 0x00 ∧ number = 0x11
  · rw [if_pos htwo]
    obtain ⟨rfl, rfl⟩ := htwo
    refine Agrees.u16.bind fun marker _ => ?_
    split
    · refine (agrees_readExtended hwidth.toNat_lt hheight.toNat_lt).bind fun info hsmall => ?_
      refine Agrees.pure fun info' hinfo => ?_
      obtain rfl := Except.ok.inj hinfo
      exact hsmall
    · exact Agrees.pure fun info hinfo => by cases hinfo
  · rw [if_neg htwo]
    split
    · exact (hone ⟨rfl, rfl⟩).elim
    · exact (htwo ⟨rfl, rfl⟩).elim
    · exact Agrees.pure fun info hinfo => by cases hinfo

/-- From the front of any data that are not too long the header is read without a fault. -/
theorem readHeader_ok {source : Source} (h : source.size < 2 ^ 31) :
    readHeader ⟨source, 0⟩ = .ok (Header.read ⟨source, 0⟩) ∧
      ∀ info, (Header.read ⟨source, 0⟩).1 = some (.ok info) → SmallInfo info := by
  have htame : Tame ⟨source, min frameOffset source.size⟩ := ⟨Nat.min_le_right _ _, h⟩
  obtain ⟨hsame, -, hsmall⟩ := agrees_readFrame _ htame
  rw [Header.read_start]
  refine ⟨?_, fun info hinfo => hsmall _ hinfo info rfl⟩
  have hseek : ofReader (Reader.seek frameOffset) ⟨source, 0⟩ =
      .ok (some (), ⟨source, min frameOffset source.size⟩) := by
    rw [ofReader]
    show (place ⟨source, min frameOffset source.size⟩ >>= _) = _
    rw [place_ok htame]
    rfl
  rw [← hsame]
  show (ofReader (Reader.seek frameOffset) ⟨source, 0⟩ >>= _) = _
  rw [hseek]
  rfl

end

/-! ## Opcodes -/

def readCode : Version → CheckedReader UInt16
  | .one => do
    let code ← u8
    pure code.toUInt16
  | .two => do
    align
    moreThan 2
    ofReader Reader.u16

/-- `Opcode.read` on a machine. What comes behind the code is a word at most. -/
def readOpcode (version : Version) : CheckedReader Opcode := do
  let code ← readCode version
  ofReader (Opcode.ofCode version code)

def SmallRows (opcode : Opcode) : Prop :=
  ∀ op, opcode = .raster op → ∀ n ∈ op.rowBytes, n < 2 ^ 14

theorem agrees_readCode (version : Version) :
    Agrees (readCode version) (Opcode.readCode version) fun _ => True := by
  cases version with
  | one => exact Agrees.u8.bind fun code _ => Agrees.pure trivial
  | two =>
    exact Agrees.align.bind fun _ _ => (Agrees.moreThan 2 (by decide)).bind fun _ _ => Agrees.u16

theorem smallRows_readRaster {kind : RasterKind} {version : Version} {c : Cursor} {opcode : Opcode}
    (h : (Opcode.readRaster kind version c).1 = some opcode) : SmallRows opcode := by
  rw [Opcode.readRaster, Reader.bind_apply] at h
  rcases hfield : Reader.u16 c with ⟨field, d⟩
  rw [hfield] at h
  cases field with
  | none => cases h
  | some field =>
    obtain rfl := Option.some.inj h
    rintro op hop n hn
    obtain rfl := Opcode.raster.inj hop
    obtain rfl := Option.some.inj hn
    exact Nat.mod_lt _ (by decide)

theorem smallRows_ofCode {version : Version} {code : UInt16} {c : Cursor} {opcode : Opcode}
    (h : (Opcode.ofCode version code c).1 = some opcode) : SmallRows opcode := by
  unfold Opcode.ofCode at h
  split at h <;> first
    | exact smallRows_readRaster h
    | (obtain rfl := Option.some.inj h; rintro op hop n hn; cases hop; first | done | cases hn)

theorem agrees_readOpcode (version : Version) :
    Agrees (readOpcode version) (Opcode.read version) SmallRows :=
  (agrees_readCode version).bind fun code _ =>
    Agrees.ofReader (Opcode.advances_ofCode version code) fun _ _ => smallRows_ofCode

/-! ## Rasters -/

def readBounds : CheckedReader (Int × Int) := do
  let top ← ofReader Reader.i16
  let left ← ofReader Reader.i16
  let bottom ← ofReader Reader.i16
  let right ← ofReader Reader.i16
  let width ← compute (i32 (right - left))
  let height ← compute (i32 (bottom - top))
  skip 18
  pure (width, height)

def readFormat : CheckedReader Format := do
  let pixelSize ← ofReader Reader.i16
  let components ← ofReader Reader.i16
  skip 14
  pure ⟨pixelSize.toNat, components.toNat⟩

def readDeclared : CheckedReader (UInt16 × Nat) := do
  skip 4
  let flags ← ofReader Reader.u16
  let last ← ofReader Reader.i16
  let count ← compute (i32 (last + 1))
  pure (flags, count.toNat)

def readEntry : CheckedReader Rgb := do
  skip 2
  let red ← u8
  skip 1
  let green ← u8
  skip 1
  let blue ← u8
  skip 1
  pure ⟨red, green, blue⟩

def readEntries : (n : Nat) → CheckedReader (List Rgb)
  | 0 => pure []
  | n + 1 => do
    let entry ← readEntry
    let rest ← readEntries n
    pure (entry :: rest)

def readLength (rowBytes : Nat) : CheckedReader Int :=
  if 250 < rowBytes then ofReader Reader.i16
  else do
    let n ← u8
    pure n.toNat

def SmallFormat (f : Format) : Prop := f.pixelSize < 2 ^ 15 ∧ f.components < 2 ^ 15

theorem agrees_readBounds :
    Agrees readBounds Raster.readBounds fun bounds =>
      bounds.1 < 2 ^ 16 ∧ bounds.2 < 2 ^ 16 := by
  refine Agrees.i16.bind fun top htop => ?_
  refine Agrees.i16.bind fun left hleft => ?_
  refine Agrees.i16.bind fun bottom hbottom => ?_
  refine Agrees.i16.bind fun right hright => ?_
  unfold IsShort at htop hleft hbottom hright
  refine Agrees.compute (i32_ok (by omega) (by omega)) ?_
  refine Agrees.compute (i32_ok (by omega) (by omega)) ?_
  exact (Agrees.skip 18 (by decide)).bind fun _ _ =>
    Agrees.pure ⟨by dsimp only; omega, by dsimp only; omega⟩

theorem agrees_readFormat : Agrees readFormat Format.read SmallFormat := by
  refine Agrees.i16.bind fun pixelSize hpixelSize => ?_
  refine Agrees.i16.bind fun components hcomponents => ?_
  exact (Agrees.skip 14 (by decide)).bind fun _ _ =>
    Agrees.pure ⟨hpixelSize.toNat_lt, hcomponents.toNat_lt⟩

theorem agrees_readDeclared : Agrees readDeclared Palette.readDeclared fun _ => True := by
  refine (Agrees.skip 4 (by decide)).bind fun _ _ => ?_
  refine Agrees.u16.bind fun flags _ => ?_
  refine Agrees.i16.bind fun last hlast => ?_
  unfold IsShort at hlast
  exact Agrees.compute (i32_ok (by omega) (by omega)) (Agrees.pure trivial)

theorem agrees_readEntry : Agrees readEntry Palette.readEntry fun _ => True := by
  refine (Agrees.skip 2 (by decide)).bind fun _ _ => ?_
  refine Agrees.u8.bind fun red _ => ?_
  refine (Agrees.skip 1 (by decide)).bind fun _ _ => ?_
  refine Agrees.u8.bind fun green _ => ?_
  refine (Agrees.skip 1 (by decide)).bind fun _ _ => ?_
  refine Agrees.u8.bind fun blue _ => ?_
  exact (Agrees.skip 1 (by decide)).bind fun _ _ => Agrees.pure trivial

theorem agrees_readEntries : ∀ n, Agrees (readEntries n) (Palette.readEntries n) fun _ => True
  | 0 => Agrees.pure trivial
  | n + 1 => agrees_readEntry.bind fun _ _ =>
      (agrees_readEntries n).bind fun _ _ => Agrees.pure trivial

theorem agrees_readLength (rowBytes : Nat) :
    Agrees (readLength rowBytes) (Raster.readLength rowBytes) IsShort := by
  unfold readLength Raster.readLength
  by_cases hlong : 250 < rowBytes
  · rw [if_pos hlong, if_pos hlong]
    exact Agrees.i16
  · rw [if_neg hlong, if_neg hlong]
    refine Agrees.u8.bind fun n _ => Agrees.pure ?_
    have hn := n.toNat_lt
    unfold IsShort
    omega

end Pict.Machine
