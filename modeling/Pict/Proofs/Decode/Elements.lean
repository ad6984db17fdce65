import Pict.Proofs.Raster.Opening
import Pict.Proofs.Raster.Rows

/-!
# What stands between the header and the end of a picture

An `Element` is an opcode with everything that belongs to it: content that is
passed over, or a whole raster. How many rows a raster has and how long they are
depends on the canvas, which the header and the rasters in front of it leave, so
the canvas (`Info`) is carried along when elements are written.

Results:
* `behind_cons`: the picture behind some rasters is made raster by raster.
-/
namespace Pict

open PackBits (writeWord)

/-! ## Rasters -/

/-- A raster: what stands in front of its rows, and the rows. -/
structure RasterBlock where
  opening : Opening
  rows : List (List UInt8)

namespace RasterBlock

def refine (r : RasterBlock) (canvas : Info) : Info :=
  { canvas with
    width := Header.override canvas.width r.opening.bounds.width
    height := Header.override canvas.height r.opening.bounds.height }

/-- Bytes of one row, on the canvas in front of the raster. -/
def rowBytes (r : RasterBlock) (canvas : Info) : Nat := r.opening.rowBytes (r.refine canvas).width

/-- What the rows of a raster decode to on their own. -/
def strips (r : RasterBlock) (canvas : Info) : List Strip :=
  r.rows.flatMap (r.opening.format.rowStrips (r.refine canvas).width (r.rowBytes canvas))

/-- Whether a raster has rows whose pixels carry their color themselves. -/
def isColored (r : RasterBlock) : Bool := r.opening.format.isDirect && !r.rows.isEmpty

/-- The bytes behind the opcode of a raster. -/
def body (r : RasterBlock) (canvas : Info) : List UInt8 :=
  r.opening.body ++ r.rows.flatMap (r.opening.format.writeRow (r.rowBytes canvas))

/-- Whether a raster is complete: it has a row for each row of its canvas, each
of them complete and of a pixel size that can be decoded. -/
structure Valid (r : RasterBlock) (canvas : Info) : Prop where
  opening : r.opening.Valid canvas.version
  count : r.rows.length = (r.refine canvas).height
  rows : ∀ row ∈ r.rows, r.opening.format.Complete (r.rowBytes canvas) row
  decodable : r.rows ≠ [] → r.opening.format.Decodable (r.rowBytes canvas)

theorem valid_iff (r : RasterBlock) (canvas : Info) :
    r.Valid canvas ↔
      (r.opening.Valid canvas.version ∧ r.rows.length = (r.refine canvas).height) ∧
        (∀ row ∈ r.rows, r.opening.format.Complete (r.rowBytes canvas) row) ∧
        (r.rows ≠ [] → r.opening.format.Decodable (r.rowBytes canvas)) :=
  ⟨fun h => ⟨⟨h.opening, h.count⟩, h.rows, h.decodable⟩, fun h => ⟨h.1.1, h.1.2, h.2.1, h.2.2⟩⟩

instance (r : RasterBlock) (canvas : Info) : Decidable (r.Valid canvas) :=
  decidable_of_iff _ (r.valid_iff canvas).symm

def onto (r : RasterBlock) (p : Picture) (canvas : Info) : Picture :=
  (r.opening.onto p).extend (r.strips canvas) r.isColored

def refineAll (rs : List RasterBlock) (canvas : Info) : Info :=
  rs.foldl (fun canvas r => r.refine canvas) canvas

/-- The last of some sizes that is positive, `size` if none is. -/
def lastPositive (size : Nat) (values : List Int) : Nat :=
  ((values.filter (0 < ·)).getLast?).elim size Int.toNat

theorem lastPositive_cons (size : Nat) (value : Int) (values : List Int) :
    lastPositive size (value :: values) = lastPositive (Header.override size value) values := by
  unfold lastPositive Header.override
  by_cases h : 0 < value
  · rw [List.filter_cons_of_pos (by simpa using h), List.getLast?_cons, if_pos h]
    cases (values.filter (0 < ·)).getLast? <;> rfl
  · rw [List.filter_cons_of_neg (by simpa using h), if_neg h]

/-- Each raster whose bounds have a width settles the width of the canvas anew. -/
theorem refineAll_width (rs : List RasterBlock) (canvas : Info) :
    (refineAll rs canvas).width = lastPositive canvas.width (rs.map (·.opening.bounds.width)) := by
  induction rs generalizing canvas with
  | nil => rfl
  | cons r rs ih =>
    rw [List.map_cons, lastPositive_cons]
    exact ih (r.refine canvas)

theorem refineAll_height (rs : List RasterBlock) (canvas : Info) :
    (refineAll rs canvas).height =
      lastPositive canvas.height (rs.map (·.opening.bounds.height)) := by
  induction rs generalizing canvas with
  | nil => rfl
  | cons r rs ih =>
    rw [List.map_cons, lastPositive_cons]
    exact ih (r.refine canvas)

/-- What the rows of some rasters decode to on their own, in order. -/
def stripsOf : (canvas : Info) → List RasterBlock → List Strip
  | _, [] => []
  | canvas, r :: rs => r.strips canvas ++ stripsOf (r.refine canvas) rs

end RasterBlock

namespace Picture

def canvas (p : Picture) : Info :=
  { width := p.width, height := p.declaredHeight, version := p.version, resolution := p.resolution }

/-- The picture behind some rasters: the strips of all of them, the canvas that
their bounds leave, the row bytes of the last of them, and the last palette. -/
def behind (p : Picture) (rs : List RasterBlock) : Picture :=
  { p with
    width := (RasterBlock.refineAll rs p.canvas).width
    declaredHeight := (RasterBlock.refineAll rs p.canvas).height
    rowBytes :=
      match rs.getLast? with
      | none => p.rowBytes
      | some r => r.opening.rowBytes (RasterBlock.refineAll rs p.canvas).width
    palette := (rs.filterMap (·.opening.palette?)).getLast?.or p.palette
    strips := p.strips ++ (RasterBlock.stripsOf p.canvas rs).toArray
    stripBytes := p.stripBytes + ((RasterBlock.stripsOf p.canvas rs).map Strip.byteSize).sum
    channels := if rs.any RasterBlock.isColored then 3 else p.channels }

theorem behind_nil (p : Picture) : p.behind [] = p := by
  simp [behind, RasterBlock.refineAll, RasterBlock.stripsOf, canvas]

theorem canvas_onto (p : Picture) (r : RasterBlock) :
    (r.onto p p.canvas).canvas = r.refine p.canvas := rfl

theorem getLast?_palettes (o : Opening) (xs : List Palette) (q : Option Palette) :
    ((o.palette?.toList ++ xs).getLast?).or q = xs.getLast?.or (o.palette?.or q) := by
  cases ho : o.palette? with
  | none => rfl
  | some x =>
    cases xs with
    | nil => rfl
    | cons y xs =>
      obtain ⟨z, hz⟩ : ∃ z, (y :: xs).getLast? = some z :=
        Option.isSome_iff_exists.mp (by simp)
      show ((x :: y :: xs).getLast?).or q = _
      rw [List.getLast?_cons_cons, hz]
      rfl

theorem behind_cons (p : Picture) (r : RasterBlock) (rs : List RasterBlock) :
    p.behind (r :: rs) = (r.onto p p.canvas).behind rs := by
  have hpalette := getLast?_palettes r.opening (rs.filterMap (·.opening.palette?)) p.palette
  have hfilter : (r :: rs).filterMap (·.opening.palette?) =
      r.opening.palette?.toList ++ rs.filterMap (·.opening.palette?) := by
    rw [List.filterMap_cons]
    cases r.opening.palette? <;> rfl
  have hrow : (match (r :: rs).getLast? with
      | none => p.rowBytes
      | some r' => r'.opening.rowBytes (RasterBlock.refineAll (r :: rs) p.canvas).width) =
      match rs.getLast? with
      | none => (r.onto p p.canvas).rowBytes
      | some r' => r'.opening.rowBytes (RasterBlock.refineAll rs (r.refine p.canvas)).width := by
    cases rs with
    | nil => rfl
    | cons r' rs =>
      rw [List.getLast?_cons_cons]
      rfl
  have hchannels : (if (r :: rs).any RasterBlock.isColored then 3 else p.channels) =
      if rs.any RasterBlock.isColored then 3 else (r.onto p p.canvas).channels := by
    rw [List.any_cons]
    show _ = if _ then 3 else if r.isColored then 3 else p.channels
    cases r.isColored <;> cases rs.any RasterBlock.isColored <;> rfl
  unfold behind
  rw [hrow, hfilter, hpalette, hchannels, canvas_onto]
  simp only [RasterBlock.stripsOf, RasterBlock.onto, extend, Opening.onto, List.map_append,
    List.sum_append, Nat.add_assoc, Array.append_assoc, List.append_toArray]
  rfl

theorem behind_append (p : Picture) (rs rs' : List RasterBlock) :
    p.behind (rs ++ rs') = (p.behind rs).behind rs' := by
  induction rs generalizing p with
  | nil => rw [List.nil_append, behind_nil]
  | cons r rs ih => rw [List.cons_append, behind_cons, ih, ← behind_cons]

theorem canvas_behind (p : Picture) (rs : List RasterBlock) :
    (p.behind rs).canvas = RasterBlock.refineAll rs p.canvas := by
  induction rs generalizing p with
  | nil => rw [behind_nil]; rfl
  | cons r rs ih => rw [behind_cons, ih, canvas_onto]; rfl

end Picture

/-! ## Elements -/

/-- The codes that stand for something. -/
def Opcode.recognised : List UInt16 :=
  [0x0001, 0x0018, 0x0090, 0x0091, 0x0098, 0x0099, 0x009A, 0x00A1, 0x00FF, 0x0A9F, 0x9190]

/-- What an opcode brings along. The size of a clip region counts its own two
bytes; nothing follows a size that is negative. -/
inductive Content where
  | clipRegion (size : UInt16) (payload : Vector UInt8 (signed size - 2).toNat)
  | longComment (kind : Vector UInt8 2) (size : UInt16) (payload : Vector UInt8 (signed size).toNat)
  | shortSkip (code : UInt16) (size : UInt8) (payload : Vector UInt8 size.toNat)
  | unknown (code : UInt16)
  | raster (r : RasterBlock)

namespace Content

def code : Content → UInt16
  | clipRegion .. => 0x0001
  | longComment .. => 0x00A1
  | shortSkip code .. | unknown code => code
  | raster r => r.opening.kind.code

def opcode : Content → Opcode
  | clipRegion .. => .clipRegion
  | longComment .. => .longComment
  | shortSkip .. => .shortSkip
  | unknown code => .unknown code
  | raster r => .raster r.opening.op

/-- The bytes that are read together with the code. -/
def lead : Content → List UInt8
  | raster r => r.opening.lead
  | clipRegion .. | longComment .. | shortSkip .. | unknown _ => []

def body (canvas : Info) : Content → List UInt8
  | clipRegion size payload => writeWord size ++ payload.toList
  | longComment kind size payload => kind.toList ++ (writeWord size ++ payload.toList)
  | shortSkip _ size payload => [size] ++ payload.toList
  | unknown _ => []
  | raster r => r.body canvas

/-- Whether the content can stand in a picture with this canvas. -/
def Valid (canvas : Info) : Content → Prop
  | clipRegion .. | longComment .. => True
  | shortSkip code .. => canvas.version = .two ∧ (code = 0x0A9F ∨ code = 0x9190)
  | unknown code => Opcode.InVersion canvas.version code ∧ code ∉ Opcode.recognised
  | raster r => r.Valid canvas

instance (canvas : Info) : (c : Content) → Decidable (c.Valid canvas)
  | clipRegion .. | longComment .. => inferInstanceAs (Decidable True)
  | shortSkip .. => inferInstanceAs (Decidable (_ ∧ _))
  | unknown _ => inferInstanceAs (Decidable (_ ∧ _))
  | raster r => inferInstanceAs (Decidable (r.Valid canvas))

def raster? : Content → Option RasterBlock
  | raster r => some r
  | clipRegion .. | longComment .. | shortSkip .. | unknown _ => none

end Content

/-- An opcode with its content, and the byte in front of it where one is needed. -/
structure Element where
  padding : UInt8
  content : Content

namespace Element

def refine (e : Element) (canvas : Info) : Info := RasterBlock.refineAll e.content.raster?.toList canvas

def bytes (e : Element) (canvas : Info) (offset : Nat) : List UInt8 :=
  Opcode.pad canvas.version offset e.padding ++
    (Opcode.codeBytes canvas.version e.content.code ++ e.content.lead) ++ e.content.body canvas

/-- The bytes of some elements from an offset on, with an ending that may depend
on where it stands. -/
def writeAll (ending : (offset : Nat) → List UInt8) :
    (canvas : Info) → (offset : Nat) → List Element → List UInt8
  | _, offset, [] => ending offset
  | canvas, offset, e :: es =>
    e.bytes canvas offset ++
      writeAll ending (e.refine canvas) (offset + (e.bytes canvas offset).length) es

/-- Whether each element can stand where it does. -/
def ValidAll : (canvas : Info) → List Element → Prop
  | _, [] => True
  | canvas, e :: es => e.content.Valid canvas ∧ ValidAll (e.refine canvas) es

instance decidableValidAll : (canvas : Info) → (es : List Element) → Decidable (ValidAll canvas es)
  | _, [] => inferInstanceAs (Decidable True)
  | canvas, e :: es =>
    have := decidableValidAll (e.refine canvas) es
    inferInstanceAs (Decidable (e.content.Valid canvas ∧ ValidAll (e.refine canvas) es))

def rasters (es : List Element) : List RasterBlock := es.filterMap (·.content.raster?)

theorem rasters_cons (e : Element) (es : List Element) :
    rasters (e :: es) = e.content.raster?.toList ++ rasters es := by
  rw [rasters, List.filterMap_cons]
  cases e.content.raster? <;> rfl

theorem bytes_ne_nil (e : Element) (canvas : Info) (offset : Nat) : e.bytes canvas offset ≠ [] := by
  have := Opcode.codeBytes_ne_nil canvas.version e.content.code
  simp [bytes, this]

theorem writeAll_ne_nil {ending : Nat → List UInt8} (h : ∀ offset, ending offset ≠ [])
    (canvas : Info) (offset : Nat) (es : List Element) : writeAll ending canvas offset es ≠ [] := by
  cases es with
  | nil => exact h offset
  | cons e es => exact List.append_ne_nil_of_left_ne_nil (e.bytes_ne_nil _ _) _

theorem length_le_length_writeAll (ending : Nat → List UInt8) (es : List Element) :
    ∀ (canvas : Info) (offset : Nat), es.length ≤ (writeAll ending canvas offset es).length := by
  induction es with
  | nil => exact fun _ _ => Nat.zero_le _
  | cons e es ih =>
    intro canvas offset
    have h := List.length_pos_iff.mpr (e.bytes_ne_nil canvas offset)
    have := ih (e.refine canvas) (offset + (e.bytes canvas offset).length)
    rw [writeAll, List.length_append, List.length_cons]
    omega

end Element
end Pict
