import Pict.Proofs.Decode.Passes
import Pict.Proofs.Stream.Written
import Pict.Raster.Opening

/-!
# The openings of rasters as they are written

`Opening` is everything a raster has in front of its rows: a bitmap, a pixmap
with a palette, or a direct pixmap, each with the bytes that no one looks at. The
row bytes of the first two belong to the opcode (`lead`), all else to the opening
proper (`body`).

Results:
* `Opening.takes_ofCode`: the code of an opening and its row bytes are read back
  as the opcode that they stand for.
* `Opening.passes`: the body of an opening is read back as its format, and
  leaves the picture with its row bytes, its canvas and its palette.
* `Opcode.read_raster`: the opcodes of rasters that are read, whatever stands in the data.
-/
namespace Pict

open PackBits (writeWord)

def RasterKind.code : RasterKind → UInt16
  | bitsRect => 0x0090
  | bitsRegion => 0x0091
  | packBitsRect => 0x0098
  | packBitsRegion => 0x0099
  | directBits => 0x009A

/-- The edges of a raster. -/
structure Bounds where
  top : UInt16
  left : UInt16
  bottom : UInt16
  right : UInt16
  deriving DecidableEq, Repr

namespace Bounds

def bytes (b : Bounds) : List UInt8 :=
  writeWord b.top ++ (writeWord b.left ++ (writeWord b.bottom ++ writeWord b.right))

def width (b : Bounds) : Int := signed b.right - signed b.left

def height (b : Bounds) : Int := signed b.bottom - signed b.top

end Bounds

/-- The pixel size and the component count of a pixmap. -/
structure PixelBlock where
  pixelSize : UInt16
  components : UInt16
  reserved : Vector UInt8 14

namespace PixelBlock

def bytes (b : PixelBlock) : List UInt8 :=
  writeWord b.pixelSize ++ (writeWord b.components ++ b.reserved.toList)

def format (b : PixelBlock) : Format := ⟨(signed b.pixelSize).toNat, (signed b.components).toNat⟩

theorem takes_read (b : PixelBlock) : Format.read.Takes b.bytes b.format :=
  (Reader.Takes.i16 b.pixelSize).bind <| (Reader.Takes.i16 b.components).bind
    (Reader.Takes.skip Vector.length_toList).map

end PixelBlock

/-- One entry of a palette, with its value and the low bytes of its components. -/
structure EntryBlock where
  value : Vector UInt8 2
  color : Rgb
  redLow : UInt8
  greenLow : UInt8
  blueLow : UInt8

namespace EntryBlock

def bytes (e : EntryBlock) : List UInt8 :=
  e.value.toList ++ ([e.color.red] ++ ([e.redLow] ++ ([e.color.green] ++ ([e.greenLow] ++
    ([e.color.blue] ++ [e.blueLow])))))

@[simp] theorem length_bytes (e : EntryBlock) : e.bytes.length = Palette.entrySize := by
  simp [bytes, Palette.entrySize]

theorem takes_readEntry (e : EntryBlock) : Palette.readEntry.Takes e.bytes e.color :=
  (Reader.Takes.skip Vector.length_toList).bind <| (Reader.Takes.u8 e.color.red).bind <|
    (Reader.Takes.skip rfl).bind <| (Reader.Takes.u8 e.color.green).bind <|
      (Reader.Takes.skip rfl).bind <| (Reader.Takes.u8 e.color.blue).bind
        (Reader.Takes.skip rfl).map

theorem takes_readEntries : ∀ entries : List EntryBlock,
    (Palette.readEntries entries.length).Takes (entries.flatMap bytes) (entries.map color)
  | [] => Reader.Takes.pure []
  | e :: entries => (takes_readEntry e).bind (takes_readEntries entries).map

end EntryBlock

/-- A color table that has all the entries it declares. -/
structure PaletteBlock where
  seed : Vector UInt8 4
  flags : UInt16
  /-- The number of the last entry; no entries if it is negative. -/
  last : UInt16
  entries : List EntryBlock
  complete : entries.length = (signed last + 1).toNat

namespace PaletteBlock

def bytes (b : PaletteBlock) : List UInt8 :=
  (b.seed.toList ++ (writeWord b.flags ++ writeWord b.last)) ++ b.entries.flatMap EntryBlock.bytes

def palette (b : PaletteBlock) : Palette := ⟨b.flags, b.entries.map (·.color)⟩

theorem takes_readDeclared (b : PaletteBlock) :
    Palette.readDeclared.Takes (b.seed.toList ++ (writeWord b.flags ++ writeWord b.last))
      (b.flags, b.entries.length) := by
  rw [b.complete]
  exact (Reader.Takes.skip Vector.length_toList).bind <| (Reader.Takes.u16 b.flags).bind
    (Reader.Takes.i16 b.last).map

theorem length_entries (entries : List EntryBlock) :
    (entries.flatMap EntryBlock.bytes).length = Palette.entrySize * entries.length := by
  induction entries with
  | nil => rfl
  | cons e entries ih =>
    rw [List.flatMap_cons, List.length_append, ih, EntryBlock.length_bytes, List.length_cons]
    exact (Nat.add_comm _ _).trans (Nat.mul_succ _ _).symm

theorem passes_readPalette (b : PaletteBlock) (front rest : List UInt8) (p : Picture) :
    Passes Raster.readPalette front b.bytes rest p (some b.palette) p := by
  have henough : ¬ ((b.entries.flatMap EntryBlock.bytes ++ rest).length / Palette.entrySize <
      b.entries.length) := by
    rw [List.length_append, length_entries, Palette.entrySize]
    omega
  have hmin : min b.entries.length
      ((b.entries.flatMap EntryBlock.bytes ++ rest).length / Palette.entrySize) =
        b.entries.length := by
    omega
  refine Passes.bind (Passes.read (b.takes_readDeclared _ _) p) ?_
  refine Passes.bind_nil (Passes.getCursor _ _ _) ?_
  dsimp only
  rw [Cursor.remaining_between, if_neg henough, hmin]
  exact Passes.bind_last (Passes.read (EntryBlock.takes_readEntries b.entries _ _) p)
    (Passes.pure _ _ _ _)

end PaletteBlock

/-! ## Openings -/

/-- Everything in front of the rows of a raster. The eighteen bytes behind the
bounds and those in front of the rows hold rectangles, resolutions and a mode. -/
inductive Opening where
  | bitmap (kind : RasterKind) (field : UInt16) (bounds : Bounds) (placing : Vector UInt8 18)
  | indexed (kind : RasterKind) (field : UInt16) (bounds : Bounds) (packing : Vector UInt8 18)
      (pixels : PixelBlock) (table : PaletteBlock) (placing : Vector UInt8 18)
      (mask : Vector UInt8 2)
  | direct (base : Vector UInt8 6) (bounds : Bounds) (packing : Vector UInt8 18)
      (pixels : PixelBlock) (placing : Vector UInt8 18)

namespace Opening

def kind : Opening → RasterKind
  | bitmap kind .. | indexed kind .. => kind
  | direct .. => .directBits

def bounds : Opening → Bounds
  | bitmap _ _ bounds _ | indexed _ _ bounds _ _ _ _ _ | direct _ bounds _ _ _ => bounds

def format : Opening → Format
  | bitmap .. => Format.bitmap
  | indexed _ _ _ _ pixels _ _ _ | direct _ _ _ pixels _ => pixels.format

def rowBytes (o : Opening) (width : Nat) : Nat :=
  match o with
  | bitmap _ field _ _ | indexed _ field _ _ _ _ _ _ => field.toNat % 0x4000
  | direct _ _ _ pixels _ => (pixels.format.directRowBytes? width).getD 0

def palette? : Opening → Option Palette
  | indexed _ _ _ _ _ table _ _ => some table.palette
  | bitmap .. | direct .. => none

/-- The bytes that are read together with the code. -/
def lead : Opening → List UInt8
  | bitmap _ field _ _ | indexed _ field _ _ _ _ _ _ => writeWord field
  | direct .. => []

def body : Opening → List UInt8
  | bitmap _ _ bounds placing => bounds.bytes ++ placing.toList
  | indexed kind _ bounds packing pixels table placing mask =>
    (bounds.bytes ++ packing.toList) ++ (pixels.bytes ++ (table.bytes ++ (placing.toList ++
      if kind.hasRegion then mask.toList else [])))
  | direct base bounds packing pixels placing =>
    base.toList ++ ((bounds.bytes ++ packing.toList) ++ (pixels.bytes ++ placing.toList))

def op (o : Opening) : RasterOp :=
  match o with
  | bitmap kind field _ _ => { kind, rowBytes := some (field.toNat % 0x4000), pixmap := false }
  | indexed kind field _ _ _ _ _ _ =>
    { kind, rowBytes := some (field.toNat % 0x4000), pixmap := true }
  | direct .. => { kind := .directBits, rowBytes := none, pixmap := true }

/-- Whether an opening can stand in a picture of this version. Pixmaps are told
from bitmaps by the top bit of the row bytes, in version 2 only. -/
def Valid (version : Version) : Opening → Prop
  | bitmap kind field _ _ =>
    kind ≠ .directBits ∧ (version = .two → field.toNat < 0x8000)
  | indexed kind field _ _ _ _ _ _ =>
    kind ≠ .directBits ∧ version = .two ∧ 0x8000 ≤ field.toNat
  | direct _ _ _ pixels _ => pixels.format.pixelSize = 16 ∨ pixels.format.pixelSize = 32

instance (version : Version) : (o : Opening) → Decidable (o.Valid version)
  | bitmap .. => inferInstanceAs (Decidable (_ ∧ (_ → _)))
  | indexed .. => inferInstanceAs (Decidable (_ ∧ _ ∧ _))
  | direct .. => inferInstanceAs (Decidable (_ ∨ _))

/-- The picture behind an opening: its canvas where the bounds have a size, its
row bytes, and its palette if it brings one. -/
def onto (o : Opening) (p : Picture) : Picture :=
  { p with
    width := Header.override p.width o.bounds.width
    declaredHeight := Header.override p.declaredHeight o.bounds.height
    rowBytes := o.rowBytes (Header.override p.width o.bounds.width)
    palette := o.palette?.or p.palette }

/-- Row bytes with the top bit set tell a pixmap, in version 2. -/
theorem takes_readRaster (kind : RasterKind) (version : Version) (field : UInt16) :
    (Opcode.readRaster kind version).Takes (writeWord field)
      (.raster
        { kind
          rowBytes := some (field.toNat % 0x4000)
          pixmap := version = .two && 0x8000 ≤ field.toNat }) :=
  (Reader.Takes.u16 field).map

theorem takes_ofCode (o : Opening) {version : Version} (h : o.Valid version) :
    (Opcode.ofCode version o.kind.code).Takes o.lead (.raster o.op) := by
  cases o with
  | bitmap kind field bounds placing =>
    obtain ⟨hk, hf⟩ := h
    have hp : (decide (version = .two) && decide (0x8000 ≤ field.toNat)) = false := by
      cases version with
      | one => rfl
      | two =>
        have := hf rfl
        simp only [decide_true, Bool.true_and, decide_eq_false_iff_not]
        omega
    have ht := takes_readRaster kind version field
    rw [hp] at ht
    cases kind <;> first | exact ht | exact absurd rfl hk
  | indexed kind field bounds packing pixels table placing mask =>
    obtain ⟨hk, rfl, hf⟩ := h
    have ht := takes_readRaster kind .two field
    rw [decide_eq_true hf] at ht
    cases kind <;> first | exact ht | exact absurd rfl hk
  | direct => exact Reader.Takes.pure _

theorem takes_readBounds (b : Bounds) (placing : Vector UInt8 18) :
    Raster.readBounds.Takes (b.bytes ++ placing.toList) (b.width, b.height) := by
  rw [Bounds.bytes]
  simp only [List.append_assoc]
  exact (Reader.Takes.i16 b.top).bind <| (Reader.Takes.i16 b.left).bind <|
    (Reader.Takes.i16 b.bottom).bind <| (Reader.Takes.i16 b.right).bind
      (Reader.Takes.skip Vector.length_toList).map

theorem passes_readColors_table (kind : RasterKind) (hk : kind ≠ .directBits) (f : Format)
    (b : PaletteBlock) (front rest : List UInt8) (p : Picture) :
    Passes (Raster.readColors kind f) front b.bytes rest p true
      { p with palette := some b.palette } := by
  have h : Passes (Raster.readColors .bitsRect f) front b.bytes rest p true
      { p with palette := some b.palette } :=
    Passes.bind_last (b.passes_readPalette front rest p)
      (Passes.bind_last (Passes.modify _ _ p fun p => { p with palette := some b.palette })
        (by rw [List.append_nil]; exact Passes.pure _ _ _ _))
  cases kind <;> first | exact h | exact absurd rfl hk

theorem passes_readColors_direct {f : Format} {p : Picture} {n : Nat}
    (h : f.directRowBytes? p.width = some n) (front rest : List UInt8) :
    Passes (Raster.readColors .directBits f) front [] rest p true { p with rowBytes := n } := by
  refine Passes.bind_nil (Passes.getPicture _ _ p) ?_
  simp only [h]
  exact Passes.bind_nil (Passes.modify _ _ p fun p => { p with rowBytes := n })
    (Passes.pure _ _ _ _)

theorem directRowBytes?_isSome {f : Format} (h : f.pixelSize = 16 ∨ f.pixelSize = 32)
    (width : Nat) : (f.directRowBytes? width).isSome := by
  unfold Format.directRowBytes?
  rcases h with h | h <;> simp [h]

theorem passes_readPixmap {kind : RasterKind} {pixels : PixelBlock} {colors mask : List UInt8}
    {front rest : List UInt8} {p q : Picture} (placing : Vector UInt8 18)
    (hmask : mask.length = if kind.hasRegion then 2 else 0)
    (hcolors : Passes (Raster.readColors kind pixels.format) (front ++ pixels.bytes) colors
      (placing.toList ++ mask ++ rest) p true q) :
    Passes (Raster.readPixmap kind) front
      (pixels.bytes ++ (colors ++ (placing.toList ++ mask))) rest p (some pixels.format) q := by
  refine Passes.bind (Passes.read (pixels.takes_read _ _) p) ?_
  refine Passes.bind hcolors ?_
  refine Passes.bind (Passes.skip Vector.length_toList _ _ q) ?_
  cases hr : kind.hasRegion with
  | false =>
    have : mask = [] := by simpa [hr] using hmask
    subst this
    exact Passes.pure _ _ q _
  | true =>
    have h2 : mask.length = 2 := by simpa [hr] using hmask
    exact Passes.bind_last (Passes.skip h2 _ _ q) (Passes.pure _ _ q _)

/-- The body of an opening is read back. -/
theorem passes (o : Opening) {version : Version} (h : o.Valid version) (front rest : List UInt8)
    (p : Picture) :
    Passes (Raster.readOpening o.op) front o.body rest p (some o.format) (o.onto p) := by
  cases o with
  | bitmap kind field bounds placing =>
    refine Passes.bind_nil (Passes.modify _ _ p fun p => { p with rowBytes := field.toNat % 0x4000 })
      ?_
    refine Passes.bind_last (Passes.read (takes_readBounds bounds placing _ _) _) ?_
    exact Passes.bind_nil (Passes.modify _ _ _ fun p => p.resize bounds.width bounds.height)
      (Passes.pure _ _ _ _)
  | indexed kind field bounds packing pixels table placing mask =>
    have hmask : (if kind.hasRegion then mask.toList else []).length =
        if kind.hasRegion then 2 else 0 := by
      split <;> simp
    refine Passes.bind_nil (Passes.modify _ _ p fun p => { p with rowBytes := field.toNat % 0x4000 })
      ?_
    refine Passes.bind (Passes.read (takes_readBounds bounds packing _ _) _) ?_
    refine Passes.bind_nil (Passes.modify _ _ _ fun p => p.resize bounds.width bounds.height) ?_
    exact Passes.bind_last
      (passes_readPixmap placing hmask (passes_readColors_table kind h.1 _ table _ _ _))
      (Passes.pure _ _ _ _)
  | direct base bounds packing pixels placing =>
    obtain ⟨n, hn⟩ := Option.isSome_iff_exists.mp
      (directRowBytes?_isSome h (Header.override p.width bounds.width))
    have honto : (direct base bounds packing pixels placing).onto p =
        { p.resize bounds.width bounds.height with rowBytes := n } := by
      simp [onto, rowBytes, palette?, Picture.resize, Opening.bounds, hn]
    rw [honto]
    refine Passes.bind (Passes.skip Vector.length_toList _ _ p) ?_
    refine Passes.bind (Passes.read (takes_readBounds bounds packing _ _) _) ?_
    refine Passes.bind_nil (Passes.modify _ _ _ fun p => p.resize bounds.width bounds.height) ?_
    have hmask : ([] : List UInt8).length = if RasterKind.directBits.hasRegion then 2 else 0 := rfl
    have hcolors := passes_readColors_direct (p := p.resize bounds.width bounds.height) hn
      (front ++ base.toList ++ (bounds.bytes ++ packing.toList) ++ pixels.bytes)
      (placing.toList ++ [] ++ rest)
    have hpix := passes_readPixmap placing hmask hcolors
    rw [List.append_nil, List.nil_append] at hpix
    exact Passes.bind_last hpix (Passes.pure _ _ _ _)

end Opening

/-! ## Opcodes as they are read -/

def RasterOp.direct : RasterOp := { kind := .directBits, rowBytes := none, pixmap := true }

namespace Opcode

variable {version : Version} {c d : Cursor} {op : RasterOp}

/-- Version 1 does not look at the flag of row bytes that stands for a pixmap. -/
theorem readRaster_inv {kind : RasterKind}
    (h : readRaster kind version c = (some (.raster op), d)) :
    op.kind = kind ∧ (version = .one → op.pixmap = false) := by
  unfold readRaster at h
  rw [Reader.bind_apply] at h
  cases hfield : Reader.u16 c with
  | mk field e =>
    rw [hfield] at h
    cases field with
    | none => cases h
    | some field =>
      cases h
      exact ⟨rfl, fun hone => by subst hone; rfl⟩

theorem read_direct (h : readCode version c = (some 0x009A, d)) :
    Opcode.read version c = (some (.raster .direct), d) := by
  unfold Opcode.read
  rw [Reader.bind_apply, h]
  rfl

/-- One code stands for direct bits, in both versions. The others have row bytes behind them, which
tell pixmaps from bitmaps in version 2 only. -/
theorem read_raster (h : Opcode.read version c = (some (.raster op), d)) :
    (op.kind ≠ .directBits ∧ (version = .one → op.pixmap = false)) ∨
      op = .direct ∧ readCode version c = (some 0x009A, d) := by
  unfold Opcode.read at h
  rw [Reader.bind_apply] at h
  cases hcode : readCode version c with
  | mk code e =>
    rw [hcode] at h
    cases code with
    | none => cases h
    | some code =>
      dsimp only at h
      unfold ofCode at h
      split at h
      case h_3 | h_4 | h_5 | h_6 =>
        obtain ⟨hkind, hone⟩ := readRaster_inv h
        exact Or.inl ⟨by rw [hkind]; exact nofun, hone⟩
      case h_7 =>
        cases h
        exact Or.inr ⟨rfl, rfl⟩
      all_goals cases h

end Opcode
end Pict
